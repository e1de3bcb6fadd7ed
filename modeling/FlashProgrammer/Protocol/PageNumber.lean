import FlashProgrammer.LittleEndian

/-!
# Page numbers

Pages, erase blocks and byte counts travel as 24-bit numbers in three
little-endian bytes.  `ofBytes_toBytes` and `toBytes_ofBytes` say that the number
and its bytes determine each other.
-/

namespace FlashProgrammer.Protocol

/-- A 24-bit number. -/
structure PageNumber where
  val : Nat
  /-- It fits in three bytes. -/
  isLt : val < 0x1000000
deriving DecidableEq, Repr

namespace PageNumber

/-- Bytes on the wire. -/
def width : Nat := 3

def max : Nat := 0xFFFFFF

/-- The low 24 bits of a number. -/
def ofNat (n : Nat) : PageNumber :=
  ⟨n % 0x1000000, Nat.mod_lt _ (by decide)⟩

def toBytes (p : PageNumber) : List UInt8 :=
  LittleEndian.encode width p.val

def ofBytes (a b c : UInt8) : PageNumber :=
  ⟨LittleEndian.decode [a, b, c], LittleEndian.decode_lt [a, b, c]⟩

@[ext] theorem ext {p q : PageNumber} (h : p.val = q.val) : p = q := by
  cases p; cases q; simp_all

@[simp] theorem val_ofNat (n : Nat) : (ofNat n).val = n % 0x1000000 := rfl

theorem val_ofNat_of_lt {n : Nat} (h : n < 0x1000000) : (ofNat n).val = n := by
  rw [val_ofNat, Nat.mod_eq_of_lt h]

@[simp] theorem length_toBytes (p : PageNumber) : p.toBytes.length = 3 :=
  LittleEndian.length_encode _ _

/-- The bytes of a page number, one by one. -/
theorem toBytes_eq (p : PageNumber) :
    p.toBytes = [UInt8.ofNat p.val, UInt8.ofNat (p.val / 256), UInt8.ofNat (p.val / 256 / 256)] :=
  rfl

@[simp] theorem toBytes_ofBytes (a b c : UInt8) : (ofBytes a b c).toBytes = [a, b, c] :=
  LittleEndian.encode_decode [a, b, c]

theorem ofBytes_toBytes (p : PageNumber) :
    ofBytes (UInt8.ofNat p.val) (UInt8.ofNat (p.val / 256)) (UInt8.ofNat (p.val / 256 / 256)) =
      p := by
  apply PageNumber.ext
  show LittleEndian.decode p.toBytes = p.val
  exact LittleEndian.decode_encode p.isLt

end PageNumber

end FlashProgrammer.Protocol

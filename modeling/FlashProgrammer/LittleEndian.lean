/-!
# Little-endian numbers

Every multi-byte field of the programmer is little-endian: page numbers, sizes,
the fields of a SETUP packet, the words of an SFDP table and the words that go
through a USB FIFO.  `encode w n` is the `w` bytes of `n`, low byte first, and
`decode` reads bytes back.

The two are inverse: `decode_encode` says that a number below `bound w` is read
back, `encode_decode` that bytes are written back.  A flash address goes out high
byte first and is the reverse of `encode 3`.
-/

namespace FlashProgrammer.LittleEndian

/-- The lowest `w` bytes of `n`, low byte first. -/
def encode : (w : Nat) → Nat → List UInt8
  | 0, _ => []
  | w + 1, n => UInt8.ofNat n :: encode w (n / 256)

/-- The number whose bytes are `bs`, low byte first. -/
def decode : List UInt8 → Nat
  | [] => 0
  | b :: bs => b.toNat + 256 * decode bs

/-- The first number that does not fit in `w` bytes. -/
def bound : (w : Nat) → Nat
  | 0 => 1
  | w + 1 => 256 * bound w

/-- The number held by the `w` bytes at offset `i`.  Bytes past the end are not counted. -/
def field (bs : List UInt8) (i w : Nat) : Nat :=
  decode ((bs.drop i).take w)

@[simp] theorem encode_zero (n : Nat) : encode 0 n = [] := rfl

@[simp] theorem decode_nil : decode [] = 0 := rfl

@[simp] theorem length_encode (w n : Nat) : (encode w n).length = w := by
  induction w generalizing n with
  | zero => rfl
  | succ w ih => simp [encode, ih]

theorem bound_mono {v w : Nat} (h : v ≤ w) : bound v ≤ bound w := by
  induction h with
  | refl => exact Nat.le_refl _
  | step _ ih =>
    simp only [bound]
    omega

theorem decode_lt (bs : List UInt8) : decode bs < bound bs.length := by
  induction bs with
  | nil => decide
  | cons b bs ih =>
    have hb := b.toNat_lt
    simp only [decode, List.length_cons, bound]
    omega

theorem decode_encode_mod (w n : Nat) : decode (encode w n) = n % bound w := by
  induction w generalizing n with
  | zero => simp [encode, bound, Nat.mod_one]
  | succ w ih =>
    have hb : (UInt8.ofNat n).toNat = n % 256 := UInt8.toNat_ofNat'
    rw [encode, decode, ih, hb, bound, Nat.mod_mul]

/-- A number that fits is read back. -/
theorem decode_encode {w n : Nat} (h : n < bound w) : decode (encode w n) = n := by
  rw [decode_encode_mod, Nat.mod_eq_of_lt h]

/-- Bytes that were read are written back. -/
theorem encode_decode (bs : List UInt8) : encode bs.length (decode bs) = bs := by
  induction bs with
  | nil => rfl
  | cons b bs ih =>
    have hb := b.toNat_lt
    have hdiv : (b.toNat + 256 * decode bs) / 256 = decode bs := by omega
    have hmod : UInt8.ofNat (b.toNat + 256 * decode bs) = b := by
      apply UInt8.toNat_inj.mp
      simp only [UInt8.toNat_ofNat']
      omega
    simp only [List.length_cons, encode, decode, hdiv, hmod, ih]

example : encode 3 0x0A0B0C = [0x0C, 0x0B, 0x0A] := by decide

example : field [1, 0x34, 0x12, 9] 1 2 = 0x1234 := by decide

end FlashProgrammer.LittleEndian

import FlashProgrammer.LittleEndian
import FlashProgrammer.Usb.Controller

/-!
# Moving bytes through a FIFO

A FIFO is accessed in words of four bytes.  The tail of a packet goes as a
half-word if two bytes or more are left, and then as a byte if one is left.
-/

namespace FlashProgrammer.Usb

variable {ω : Type} [Controller ω]

/-- The bytes of one FIFO access. -/
def bytesOfValue (width : Width) (value : BitVec width.bits) : List UInt8 :=
  LittleEndian.encode width.bytes value.toNat

/-- The value of one FIFO access. -/
def valueOfBytes (width : Width) (bs : List UInt8) : BitVec width.bits :=
  BitVec.ofNat width.bits (LittleEndian.decode bs)

/-- Takes the bytes of one access. -/
def take (ep : Endpoint) (width : Width) (w : ω) : List UInt8 × ω :=
  let (value, w) := Controller.perform (.fifoRead ep width) w
  (bytesOfValue width value, w)

/-- Adds the bytes of one access. -/
def put (ep : Endpoint) (width : Width) (bs : List UInt8) (w : ω) : ω :=
  tell (.fifoWrite ep width (valueOfBytes width bs)) w

/-- Takes `n` bytes of the waiting packet. -/
def readFifo (ep : Endpoint) : (n : Nat) → ω → List UInt8 × ω
  | 0, w => ([], w)
  | 1, w => take ep .byte w
  | 2, w => take ep .half w
  | 3, w =>
    let (bs, w) := take ep .half w
    let (b, w) := take ep .byte w
    (bs ++ b, w)
  | n + 4, w =>
    let (bs, w) := take ep .word w
    let (rest, w) := readFifo ep n w
    (bs ++ rest, w)

/-- Adds bytes to the packet being built. -/
def writeFifo (ep : Endpoint) : (data : List UInt8) → ω → ω
  | [], w => w
  | [a], w => put ep .byte [a] w
  | [a, b], w => put ep .half [a, b] w
  | [a, b, c], w => put ep .byte [c] (put ep .half [a, b] w)
  | a :: b :: c :: d :: rest, w => writeFifo ep rest (put ep .word [a, b, c, d] w)

@[simp] theorem length_bytesOfValue (width : Width) (value : BitVec width.bits) :
    (bytesOfValue width value).length = width.bytes :=
  LittleEndian.length_encode _ _

/-- A value is made of its bytes. -/
theorem bytesOfValue_valueOfBytes (width : Width) {bs : List UInt8} (h : bs.length = width.bytes) :
    bytesOfValue width (valueOfBytes width bs) = bs := by
  have hlt := LittleEndian.decode_lt bs
  rw [h] at hlt
  rw [bytesOfValue, valueOfBytes, BitVec.toNat_ofNat, Nat.mod_eq_of_lt, ← h]
  · exact LittleEndian.encode_decode bs
  · cases width <;> exact hlt

@[simp] theorem length_take (ep : Endpoint) (width : Width) (w : ω) :
    (take ep width w).1.length = width.bytes := by
  simp [take]

/-- As many bytes come as were asked for. -/
@[simp] theorem length_readFifo (ep : Endpoint) (n : Nat) (w : ω) :
    (readFifo ep n w).1.length = n := by
  induction n using Nat.strongRecOn generalizing w with
  | _ n ih =>
    match n with
    | 0 => rfl
    | 1 => exact length_take ep .byte w
    | 2 => exact length_take ep .half w
    | 3 => simp [readFifo, Width.bytes]
    | n + 4 =>
      simp only [readFifo, List.length_append, length_take, ih n (by omega), Width.bytes]
      omega

end FlashProgrammer.Usb

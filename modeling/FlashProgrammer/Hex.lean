/-!
# Hexadecimal text

Messages and records write bytes and words in lower-case hexadecimal digits.
-/

namespace FlashProgrammer.Hex

/-- One hexadecimal digit, in lower case. -/
def digit (n : Nat) : Char :=
  if n < 10 then Char.ofNat (48 + n) else Char.ofNat (87 + n)

/-- The lowest `width` digits of a number, highest first. -/
def digits : (width n : Nat) → List Char
  | 0, _ => []
  | width + 1, n => digit ((n >>> (4 * width)) % 16) :: digits width n

/-- A number in `width` digits. -/
def ofNat (width n : Nat) : String := String.ofList (digits width n)

/-- A byte in two digits. -/
def ofByte (b : UInt8) : String := ofNat 2 b.toNat

/-- Bytes in two digits each. -/
def ofBytes (bs : List UInt8) : String :=
  String.ofList (bs.flatMap fun b => digits 2 b.toNat)

example : digits 2 0x4F = ['4', 'f'] := by decide

end FlashProgrammer.Hex

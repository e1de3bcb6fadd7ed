import FlashProgrammer.Hex

/-!
# Frame errors

Why a frame of the flash protocol could not be read.
-/

namespace FlashProgrammer.Protocol

/-- Why a frame was refused. -/
inductive FrameError where
  /-- There is no opcode. -/
  | empty
  /-- No message has this opcode. -/
  | unknownOpcode (opcode : UInt8)
  /-- The frame is shorter than the fixed body of its opcode. -/
  | truncated (opcode : UInt8) (length expected : Nat)
  /-- A field holds a value that has no meaning. -/
  | invalidField (opcode value : UInt8)
deriving DecidableEq, Repr

namespace FrameError

def message : FrameError → String
  | empty => "empty frame"
  | unknownOpcode opcode => s!"unknown opcode 0x{Hex.ofByte opcode}"
  | truncated opcode length expected =>
    s!"frame for opcode 0x{Hex.ofByte opcode} is {length} bytes, expected {expected}"
  | invalidField opcode value =>
    s!"invalid value 0x{Hex.ofByte value} for opcode 0x{Hex.ofByte opcode}"

end FrameError

end FlashProgrammer.Protocol

/-!
# Opcodes

The first byte of every frame, in both directions, names the command.
-/

namespace FlashProgrammer.Protocol

/-- A command of the flash protocol. -/
inductive Opcode where
  | deviceCount
  | listDevice
  | targetDevice
  | erase
  | read
  | write
  | verify
  | resetTarget
deriving DecidableEq, Repr

namespace Opcode

def toByte : Opcode → UInt8
  | deviceCount => 0x00
  | listDevice => 0x01
  | targetDevice => 0x02
  | erase => 0x03
  | read => 0x04
  | write => 0x05
  | verify => 0x06
  | resetTarget => 0x07

def ofByte? (b : UInt8) : Option Opcode :=
  if b = 0x00 then some deviceCount
  else if b = 0x01 then some listDevice
  else if b = 0x02 then some targetDevice
  else if b = 0x03 then some erase
  else if b = 0x04 then some read
  else if b = 0x05 then some write
  else if b = 0x06 then some verify
  else if b = 0x07 then some resetTarget
  else none

@[simp] theorem ofByte?_toByte (op : Opcode) : ofByte? op.toByte = some op := by
  cases op <;> decide

theorem toByte_of_ofByte? {b : UInt8} {op : Opcode} (h : ofByte? b = some op) : op.toByte = b := by
  unfold ofByte? at h
  repeat' split at h
  all_goals first | (cases h; subst_vars; rfl) | cases h

end Opcode

end FlashProgrammer.Protocol

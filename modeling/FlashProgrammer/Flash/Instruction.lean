import FlashProgrammer.LittleEndian

/-!
# Flash instructions

A flash chip is told what to do in one transaction: an opcode, for some opcodes a
24-bit address and filler bytes, then data out or data in.  An `Instruction` is
such a transaction as data, and `Instruction.bytes` is what goes out before the
chip answers.
-/

namespace FlashProgrammer.Flash

/-- One transaction with a flash chip. -/
structure Instruction where
  opcode : UInt8
  /-- Where, for the opcodes that take an address. -/
  address : Option Nat := none
  /-- Filler bytes after the address. -/
  fillers : Nat := 0
  /-- Bytes sent. -/
  payload : List UInt8 := []
  /-- Bytes read back. -/
  replyLength : Nat := 0
deriving DecidableEq, Repr

/-- An address as it goes out: its low 24 bits, high byte first. -/
def addressBytes (address : Nat) : List UInt8 :=
  (LittleEndian.encode 3 address).reverse

@[simp] theorem length_addressBytes (address : Nat) : (addressBytes address).length = 3 := by
  simp [addressBytes]

/-- The address bytes name the address, as far as 24 bits go. -/
theorem decode_addressBytes (address : Nat) :
    LittleEndian.decode (addressBytes address).reverse = address % 0x1000000 := by
  rw [addressBytes, List.reverse_reverse]
  exact LittleEndian.decode_encode_mod 3 address

/-! ## Status register -/

/-- The status bit that is set while an erase or write runs. -/
def statusBusy : UInt8 := 0x01

/-- The status bit that is set while writing is enabled. -/
def statusWritable : UInt8 := 0x02

/-- A status byte reports a running erase or write. -/
def isBusyStatus (status : UInt8) : Bool := status &&& statusBusy != 0

namespace Instruction

/-- Everything sent before the reply. -/
def bytes (i : Instruction) : List UInt8 :=
  i.opcode :: (i.address.elim [] addressBytes ++ List.replicate i.fillers 0 ++ i.payload)

/-! ## The instructions of the programmer -/

/-- Read the three id bytes. -/
def readId : Instruction := { opcode := 0x9F, replyLength := 3 }

def readStatus : Instruction := { opcode := 0x05, replyLength := 1 }

/-- Allow the next erase or write. -/
def writeEnable : Instruction := { opcode := 0x06 }

/-- Take the permission back. -/
def writeDisable : Instruction := { opcode := 0x04 }

def readData (address length : Nat) : Instruction :=
  { opcode := 0x03, address := some address, replyLength := length }

/-- Read the chip's description of itself. -/
def readSfdp (address length : Nat) : Instruction :=
  { opcode := 0x5A, address := some address, fillers := 1, replyLength := length }

/-- Program bytes into one page. -/
def pageProgram (address : Nat) (data : List UInt8) : Instruction :=
  { opcode := 0x02, address := some address, payload := data }

def chipErase : Instruction := { opcode := 0xC7 }

/-- Erase the block that holds an address, with the part's own erase opcode. -/
def blockErase (opcode : UInt8) (address : Nat) : Instruction :=
  { opcode, address := some address }

def sectorEraseOpcode : UInt8 := 0x20

def blockEraseOpcode : UInt8 := 0xD8

example : (pageProgram 0x000A00 [1, 2, 3]).bytes = [0x02, 0x00, 0x0A, 0x00, 1, 2, 3] := by decide

example : (readSfdp 0x30 8).bytes = [0x5A, 0x00, 0x00, 0x30, 0x00] := by decide

end Instruction

end FlashProgrammer.Flash

import FlashProgrammer.Flash.Geometry
import FlashProgrammer.Spi.Bus

/-!
# Talking to a flash chip

Every instruction selects the chip, is clocked out, has its reply clocked in, and
releases the chip again, also when a byte fails.  An erase or program is only
started; the status register tells when it is done.
-/

namespace FlashProgrammer.Flash

variable {ω : Type} [Spi.Bus ω]

/-- Clocks an instruction out and its reply in. -/
def clock (i : Instruction) (w : ω) : Except Fault (List UInt8) × ω :=
  match Spi.send i.bytes w with
  | (.ok _, w) => Spi.receive i.replyLength w
  | (.error e, w) => (.error e, w)

/-- One instruction for the chip of a slot. -/
def execute (slot : Slot) (i : Instruction) (w : ω) : Except Fault (List UInt8) × ω :=
  let (reply, w) := clock i (Spi.select slot w)
  (reply, Spi.deselect w)

/-- One instruction that has no reply. -/
def command (slot : Slot) (i : Instruction) (w : ω) : Except Fault Unit × ω :=
  let (reply, w) := execute slot i w
  (reply.map fun _ => (), w)

/-! ## Identification and status -/

def readId (slot : Slot) (w : ω) : Except Fault JedecId × ω :=
  let (reply, w) := execute slot .readId w
  (reply.map fun bs => ⟨bs.getD 0 0, bs.getD 1 0, bs.getD 2 0⟩, w)

def readStatus (slot : Slot) (w : ω) : Except Fault UInt8 × ω :=
  let (reply, w) := execute slot .readStatus w
  (reply.map fun bs => bs.getD 0 0, w)

/-- Whether an erase or write is running. -/
def isBusy (slot : Slot) (w : ω) : Except Fault Bool × ω :=
  let (status, w) := readStatus slot w
  (status.map isBusyStatus, w)

/-- Reads the status until the chip is idle, at most `polls` times. -/
def waitIdle (slot : Slot) : (polls : Nat) → ω → Except Fault Unit × ω
  | 0, w => (.error .flashBusy, w)
  | polls + 1, w =>
    match isBusy slot w with
    | (.error e, w) => (.error e, w)
    | (.ok true, w) => waitIdle slot polls w
    | (.ok false, w) => (.ok (), w)

/-! ## Data -/

/-- Bytes of a chip's memory. -/
def readData (slot : Slot) (address length : Nat) (w : ω) : Except Fault (List UInt8) × ω :=
  execute slot (.readData address length) w

/-- Bytes of a chip's description of itself. -/
def readSfdp (slot : Slot) (address length : Nat) (w : ω) : Except Fault (List UInt8) × ω :=
  execute slot (.readSfdp address length) w

/-- Allows the next erase or program. -/
def writeEnable (slot : Slot) (w : ω) : Except Fault Unit × ω :=
  command slot .writeEnable w

/-- Takes the permission back. -/
def writeDisable (slot : Slot) (w : ω) : Except Fault Unit × ω :=
  command slot .writeDisable w

/-- Enables writing and, if that went out, gives an instruction that modifies the chip. -/
def modify (slot : Slot) (i : Instruction) (w : ω) : Except Fault Unit × ω :=
  match writeEnable slot w with
  | (.ok _, w) => command slot i w
  | (.error e, w) => (.error e, w)

def startPageProgram (slot : Slot) (address : Nat) (data : List UInt8) (w : ω) :
    Except Fault Unit × ω :=
  modify slot (.pageProgram address data) w

def startChipErase (slot : Slot) (w : ω) : Except Fault Unit × ω :=
  modify slot .chipErase w

/-- Starts erasing the block at an address. -/
def startBlockErase (slot : Slot) (opcode : UInt8) (address : Nat) (w : ω) :
    Except Fault Unit × ω :=
  modify slot (.blockErase opcode address) w

end FlashProgrammer.Flash

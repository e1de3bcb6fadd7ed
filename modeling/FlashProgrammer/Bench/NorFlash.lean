import FlashProgrammer.Bench.Transaction
import FlashProgrammer.Flash.Instruction

/-!
# A flash chip on the bench

The chip answers bytes as they come in and acts when its transaction ends.  It
erases to ones and programs by clearing bits, within one page of 256 bytes.  Both
need the write latch and clear it, and both keep the chip busy for a number of
status reads.  A busy chip hears nothing but the status instruction.
-/

namespace FlashProgrammer.Bench

structure NorFlash where
  id : List UInt8
  /-- Bytes of memory. -/
  size : Nat
  /-- The memory.  Only the first `size` cells exist. -/
  cells : Nat → UInt8 := fun _ => 0xFF
  /-- The chip's description of itself. -/
  sfdp : Array UInt8 := #[]
  /-- Status reads until the chip is idle. -/
  busy : Nat := 0
  /-- Status reads that an erase or write takes. -/
  busyTime : Nat := 2
  /-- The chip never becomes idle. -/
  stuck : Bool := false
  /-- The next erase or write is allowed. -/
  writable : Bool := false

namespace NorFlash

/-- An erase or write is running. -/
def isBusy (c : NorFlash) : Bool := c.stuck || 0 < c.busy

/-- The byte of a memory cell.  Cells that do not exist read as erased. -/
def read (c : NorFlash) (address : Nat) : UInt8 :=
  if address < c.size then c.cells address else 0xFF

/-- The bytes of `length` cells. -/
def readRange (c : NorFlash) (address length : Nat) : List UInt8 :=
  (List.range length).map fun i => c.read (address + i)

/-- The cells with other bytes from an address on. -/
def loaded (c : NorFlash) (address : Nat) (data : Array UInt8) (a : Nat) : UInt8 :=
  if address ≤ a then data.getD (a - address) (c.cells a) else c.cells a

/-- Puts bytes into memory, whatever was there. -/
def load (c : NorFlash) (address : Nat) (data : List UInt8) : NorFlash :=
  { c with cells := c.loaded address data.toArray }

/-- The cell at `offset` of a page, which held `cell`, after `data` was programmed from `start` on.
Programming only clears bits, and bytes past the end of the page go on at its beginning. -/
def programCell (offset : Nat) (cell : UInt8) : (start : Nat) → List UInt8 → UInt8
  | _, [] => cell
  | start, b :: rest =>
    programCell offset (if start % 256 = offset then cell &&& b else cell) (start + 1) rest

/-- The cells with bytes programmed into the page of an address. -/
def programmed (c : NorFlash) (address : Nat) (data : List UInt8) (a : Nat) : UInt8 :=
  if a / 256 = address / 256 then programCell (a % 256) (c.cells a) address data else c.cells a

/-- The cells with the block of `length` bytes that holds an address erased. -/
def erased (c : NorFlash) (address length : Nat) (a : Nat) : UInt8 :=
  if a / length = address / length then 0xFF else c.cells a

/-- The chip becomes busy and the write latch clears. -/
def start (c : NorFlash) (cells : Nat → UInt8) : NorFlash :=
  { c with cells, writable := false, busy := c.busyTime }

def status (c : NorFlash) : UInt8 :=
  (if c.isBusy then Flash.statusBusy else 0) + (if c.writable then Flash.statusWritable else 0)

/-- The address in the bytes of a transaction: the three after the opcode, highest first. -/
def addressOf (sent : List UInt8) : Nat :=
  LittleEndian.decode ((sent.drop 1).take 3).reverse

/-- The answer to the last byte so far.  Reading the status brings an operation on by one. -/
def respond (c : NorFlash) (t : Transaction) : UInt8 × NorFlash :=
  let i := t.length - 1
  let opcode := t.head.headD 0
  if i = 0 then (0xFF, c)
  else if opcode = 0x9F then (c.id.getD (i - 1) 0xFF, c)
  else if opcode = 0x05 then (c.status, if i = 1 then { c with busy := c.busy - 1 } else c)
  else if opcode = 0x03 ∧ 4 ≤ i then (c.read (addressOf t.head + (i - 4)), c)
  else if opcode = 0x5A ∧ 5 ≤ i then (c.sfdp.getD (addressOf t.head + (i - 5)) 0xFF, c)
  else (0xFF, c)

/-- The length of the block that an opcode erases. -/
def eraseLength? (opcode : UInt8) : Option Nat :=
  if opcode = 0x20 then some 4096
  else if opcode = 0x52 then some 32768
  else if opcode = 0xD8 then some 65536
  else none

/-- The effect of an instruction that needs the write latch. -/
def modify (c : NorFlash) (opcode : UInt8) (sent : List UInt8) : NorFlash :=
  if opcode = 0xC7 ∨ opcode = 0x60 then c.start fun _ => 0xFF
  else if sent.length < 4 then c
  else if opcode = 0x02 then c.start (c.programmed (addressOf sent) (sent.drop 4))
  else
    match eraseLength? opcode with
    | some length => c.start (c.erased (addressOf sent) length)
    | none => c

/-- The effect of a finished transaction. -/
def finish (c : NorFlash) (sent : List UInt8) : NorFlash :=
  match sent.head? with
  | none => c
  | some opcode =>
    if c.isBusy ∧ opcode ≠ 0x05 then c
    else if opcode = 0x06 then { c with writable := true }
    else if opcode = 0x04 then { c with writable := false }
    else if c.writable then c.modify opcode sent
    else c

end NorFlash

end FlashProgrammer.Bench

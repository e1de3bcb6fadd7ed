import FlashProgrammer.Bench.NorFlash
import FlashProgrammer.Spi.Bus

/-!
# A bus of flash chips on the bench

Up to three chips share the bus.  A slot without a chip reads as ones.  The bus can
be told to fail: after a number of good bytes it refuses a number of bytes, which
then do not reach the chip.
-/

namespace FlashProgrammer.Bench

/-- A bus with a chip in some of its slots. -/
structure FlashBus where
  chips : PerSlot (Option NorFlash) := ⟨none, none, none⟩
  selected : Option Slot := none
  /-- The transaction since it was selected. -/
  current : Transaction := .empty
  /-- The finished transactions. -/
  log : Record (Slot × List UInt8) := {}
  /-- How often a byte was to be moved. -/
  transfers : Nat := 0
  /-- Bytes that succeed before the bus fails. -/
  okLeft : Nat := 0
  /-- Bytes that fail after that. -/
  failLeft : Nat := 0
  fault : Fault := .spi

namespace FlashBus

def chip? (b : FlashBus) (slot : Slot) : Option NorFlash := b.chips.get slot

def setChip (b : FlashBus) (slot : Slot) (chip : Option NorFlash) : FlashBus :=
  { b with chips := b.chips.set slot chip }

def modifyChip (b : FlashBus) (slot : Slot) (f : NorFlash → NorFlash) : FlashBus :=
  b.setChip slot ((b.chip? slot).map f)

/-- Begins a transaction. -/
def select (slot : Slot) (b : FlashBus) : FlashBus :=
  { b with selected := some slot, current := .empty }

/-- The slot that is selected, and the bytes it was sent. -/
def open? (b : FlashBus) : Option (Slot × List UInt8) :=
  b.selected.map fun slot => (slot, b.current.toList)

/-- Ends the transaction. -/
def deselect (b : FlashBus) : FlashBus :=
  match b.open? with
  | none => b
  | some (slot, sent) =>
    { b.modifyChip slot fun c => c.finish sent with
      selected := none
      current := .empty
      log := b.log.push (slot, sent) }

/-- A byte that reaches the selected chip. -/
def deliver (out : UInt8) (b : FlashBus) : UInt8 × FlashBus :=
  match b.selected with
  | none => (0xFF, b)
  | some slot =>
    let b := { b with current := b.current.push out }
    match b.chip? slot with
    | none => (0xFF, b)
    | some chip =>
      let (answer, chip) := chip.respond b.current
      (answer, b.setChip slot (some chip))

/-- Moves one byte each way, unless the bus is to fail. -/
def exchange (out : UInt8) (b : FlashBus) : Except Fault UInt8 × FlashBus :=
  let b := { b with transfers := b.transfers + 1 }
  if b.okLeft = 0 ∧ 0 < b.failLeft then (.error b.fault, { b with failLeft := b.failLeft - 1 })
  else
    let (answer, b) := { b with okLeft := b.okLeft - 1 }.deliver out
    (.ok answer, b)

instance : Spi.Bus FlashBus where
  perform
    | .select slot, b => ((), b.select slot)
    | .deselect, b => ((), b.deselect)
    | .exchange out, b => b.exchange out

end FlashBus

/-- A bus on which every byte times out. -/
structure DeadBus where
  selected : Bool := false
deriving DecidableEq, Repr

instance : Spi.Bus DeadBus where
  perform
    | .select _, _ => ((), ⟨true⟩)
    | .deselect, _ => ((), ⟨false⟩)
    | .exchange _, b => (.error .spiTimeout, b)

end FlashProgrammer.Bench

import FlashProgrammer.Bench.Record
import FlashProgrammer.Spi.Wiring

/-!
# Wires on the bench

Chip-select lines and an SPI block that sends every byte back with some of its
bits turned over.  Lines and block can be told to fail; a line that fails has
still been driven.  All that is asked of them is recorded.
-/

namespace FlashProgrammer.Bench

open Spi

/-- Lines, and a block that answers what it is sent. -/
structure LoopWires where
  /-- The bits turned over in every answer. -/
  mask : UInt8 := 0xFF
  exchangeFails : Bool := false
  flushFails : Bool := false
  failsLow : Slot → Bool := fun _ => false
  failsHigh : Slot → Bool := fun _ => false
  record : Record WireAction := {}

namespace LoopWires

def reply (w : LoopWires) : (a : WireAction) → a.Reply
  | .drive slot .low => !w.failsLow slot
  | .drive slot .high => !w.failsHigh slot
  | .exchange out => if w.exchangeFails then none else some (out ^^^ w.mask)
  | .flush => !w.flushFails

instance : Wires LoopWires where
  perform a w := (w.reply a, { w with record := w.record.push a })

/-- The levels that the line of a slot was driven to, oldest first. -/
def levels (w : LoopWires) (slot : Slot) : List Level :=
  w.record.toList.filterMap fun
    | .drive s level => if s = slot then some level else none
    | _ => none

end LoopWires

/-- A line that keeps every level it is driven to. -/
structure PinRecord where
  levels : Record Level := {}
deriving DecidableEq, Repr

instance : ResetLine PinRecord where
  drive level p := (true, ⟨p.levels.push level⟩)

end FlashProgrammer.Bench

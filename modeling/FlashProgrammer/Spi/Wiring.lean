import FlashProgrammer.Line
import FlashProgrammer.Spi.Bus
import FlashProgrammer.Usb.Controller

/-!
# Chip selects on lines

A microcontroller has a plain SPI block and drives one line per slot.  A line is
low while its chip is selected.  `Wired` keeps the slot that is selected and turns
lines and block into an SPI bus on which at most one chip listens.

Before a chip is released the block is flushed, so that its last byte has left
the shifter.  A line or flush that fails is left at that.
-/

namespace FlashProgrammer.Spi

/-- What is asked of the lines and the block. -/
inductive WireAction where
  /-- Drive the line of a slot. -/
  | drive (slot : Slot) (level : Level)
  /-- Move one byte each way. -/
  | exchange (out : UInt8)
  /-- Wait until the shifter is empty. -/
  | flush
deriving DecidableEq, Repr

/-- What the lines and the block answer: whether it worked, and the byte that came in. -/
@[reducible] def WireAction.Reply : WireAction → Type
  | .drive .. => Bool
  | .exchange _ => Option UInt8
  | .flush => Bool

/-- Hardware with chip-select lines and a plain SPI block. -/
class Wires (ω : Type) where
  /-- The answer to an action and the hardware after it. -/
  perform : (a : WireAction) → ω → a.Reply × ω

/-- Lines and block, and the slot that is selected. -/
structure Wired (ω : Type) where
  /-- The slot whose line is low. -/
  selected : Option Slot
  /-- The lines and the block. -/
  wires : ω

namespace Wired

variable {ω : Type}

section

variable [Wires ω]

/-- Asks for something whose answer does not matter. -/
def tell (a : WireAction) (w : Wired ω) : Wired ω :=
  { w with wires := (Wires.perform a w.wires).2 }

/-- Takes the wires over and drives every line high. -/
def ofWires (wires : ω) : Wired ω :=
  Slot.all.foldl (fun w slot => w.tell (.drive slot .high)) ⟨none, wires⟩

/-- Releases the chip that is selected. -/
def deselect (w : Wired ω) : Wired ω :=
  match w.selected with
  | none => w
  | some slot => { (w.tell .flush).tell (.drive slot .high) with selected := none }

/-- Releases the chip that is selected and selects another. -/
def select (slot : Slot) (w : Wired ω) : Wired ω :=
  { w.deselect.tell (.drive slot .low) with selected := some slot }

def exchange (out : UInt8) (w : Wired ω) : Except Fault UInt8 × Wired ω :=
  match Wires.perform (.exchange out) w.wires with
  | (some b, wires) => (.ok b, { w with wires })
  | (none, wires) => (.error .spi, { w with wires })

instance : Bus (Wired ω) where
  perform
    | .select slot, w => ((), w.select slot)
    | .deselect, w => ((), w.deselect)
    | .exchange out, w => w.exchange out

end

/-- Gives the wires back as they are. -/
def release (w : Wired ω) : ω := w.wires

instance [Usb.Controller ω] : Usb.Controller (Wired ω) where
  perform a w :=
    let (reply, wires) := Usb.Controller.perform a w.wires
    (reply, { w with wires })

instance [ResetLine ω] : ResetLine (Wired ω) where
  drive level w :=
    let (ok, wires) := ResetLine.drive level w.wires
    (ok, { w with wires })

end Wired

end FlashProgrammer.Spi

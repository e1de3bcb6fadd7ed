import FlashProgrammer.Bench.FlashBus
import FlashProgrammer.Bench.Host

/-!
# A bench with a record

A scripted controller, a bus of flash chips and a reset line, with one record of
all that the firmware did to them, in order.
-/

namespace FlashProgrammer.Bench

open Usb

/-- Something the firmware did to the hardware. -/
inductive Event where
  | connected
  | disconnected
  /-- It chose the bus events that raise an interrupt. -/
  | listening (events : BusEvents)
  | addressed (address : UInt8)
  | configured (c : Configured)
  /-- It released a packet that it read with accesses of some widths. -/
  | released (ep : Endpoint) (widths : List Width) (dataEnd : Bool)
  /-- It committed a packet that it wrote with accesses of some widths. -/
  | committed (ep : Endpoint) (packet : List UInt8) (widths : List Width) (last : Bool)
  | stalled (ep : Endpoint) (dir : Direction)
  | cleared (ep : Endpoint) (dir : Direction)
  | transaction (slot : Slot) (sent : List UInt8)
  | reset (level : Level)
deriving Repr

/-- The bench and its record. -/
structure World where
  usb : ScriptedController := {}
  bus : FlashBus := {}
  resetFailsLow : Bool := false
  resetFailsHigh : Bool := false
  record : Record Event := {}

namespace World

/-- What an action on the controller adds to the record. -/
def eventsOf (c : ScriptedController) : Action → List Event
  | .enableEvents events => [.listening events]
  | .connect => [.connected]
  | .disconnect => [.disconnected]
  | .setAddress address => [.addressed address]
  | .configure ep dir maxPacket doubleBuffered =>
    [.configured ⟨ep, dir, maxPacket, doubleBuffered⟩]
  | .rxDone ep dataEnd => [.released ep (c.readWidths.get ep).toList dataEnd]
  | .txReady ep last =>
    [.committed ep (c.fifo.into.get ep).staged (c.writeWidths.get ep).toList last]
  | .stall ep dir => [.stalled ep dir]
  | .clearStall ep dir => [.cleared ep dir]
  | _ => []

/-- What an action on the bus adds to the record. -/
def finishedBy (b : FlashBus) : Spi.Action → List Event
  | .deselect =>
    match b.open? with
    | none => []
    | some (slot, sent) => [.transaction slot sent]
  | _ => []

instance : Controller World where
  perform a w :=
    let (reply, usb) := Controller.perform a w.usb
    (reply, { w with usb, record := w.record.append (eventsOf w.usb a) })

instance : Spi.Bus World where
  perform a w :=
    let (reply, bus) := Spi.Bus.perform a w.bus
    (reply, { w with bus, record := w.record.append (finishedBy w.bus a) })

instance : ResetLine World where
  drive level w :=
    let ok :=
      match level with
      | .low => !w.resetFailsLow
      | .high => !w.resetFailsHigh
    (ok, { w with record := w.record.push (.reset level) })

instance : Driven World where
  raise s w := { w with usb := Driven.raise s w.usb }
  latch e w := { w with usb := Driven.latch e w.usb }
  deliver ep packet w := { w with usb := Driven.deliver ep packet w.usb }

/-- Forgets what the firmware did so far. -/
def clearRecord (w : World) : World :=
  { w with record := {}, bus := { w.bus with log := {} }, usb.fifo.widths := {} }

end World

end FlashProgrammer.Bench

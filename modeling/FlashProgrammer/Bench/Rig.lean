import FlashProgrammer.Bench.FlashBus
import FlashProgrammer.Bench.Host
import FlashProgrammer.Bench.Wires

/-!
# A plain rig

The simplest hardware to work the firmware with: a controller that is always
ready, a bus of flash chips and a reset line that cannot fail.
-/

namespace FlashProgrammer.Bench

/-- A controller of FIFOs, a bus of flash chips and a reset line. -/
abbrev Rig := Hardware FifoController FlashBus PinRecord

namespace Rig

/-- A rig with chips in some of its slots. -/
def ofChips (chips : PerSlot (Option NorFlash)) : Rig where
  usb := {}
  spi := { chips }
  reset := {}

/-- A programmer on a rig with chips in some of its slots, before it is plugged in. -/
def station (chips : PerSlot (Option NorFlash)) : Programmer.Station Rig :=
  ({}, { device := {}, hw := ofChips chips })

/-- A programmer on a rig that targets its only chip. -/
def targeting (chip : NorFlash) : Programmer.Station Rig :=
  Programmer.serve (.targetDevice 0 0) (station ⟨some chip, none, none⟩)

/-- A programmer on a rig that the host has configured and sent packets to, as far as they have not
been served. -/
def enumerated (chips : PerSlot (Option NorFlash)) (waiting : List (List UInt8)) :
    Programmer.Station Rig :=
  let s := station chips
  (s.1, waiting.foldl (fun p packet => deliver .flash packet p) (enumerate s.2))

/-- Forgets what the firmware did so far.  What the host has not seen yet stays. -/
def clearRecord (w : Rig) : Rig :=
  { w with
    usb := w.usb.clearRecord
    spi := { w.spi with log := {} } }

end Rig

end FlashProgrammer.Bench

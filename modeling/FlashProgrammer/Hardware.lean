import FlashProgrammer.Line
import FlashProgrammer.Spi.Bus
import FlashProgrammer.Usb.Controller

/-!
# Hardware made of parts

The firmware asks one piece of hardware for everything.  Three independent parts
side by side are such a piece: a USB controller, an SPI bus and a reset line.
-/

namespace FlashProgrammer

/-- A USB controller, an SPI bus and a reset line. -/
structure Hardware (κ β ρ : Type) where
  usb : κ
  spi : β
  reset : ρ
deriving DecidableEq, Repr

namespace Hardware

variable {κ β ρ : Type}

instance [Usb.Controller κ] : Usb.Controller (Hardware κ β ρ) where
  perform a w :=
    let (reply, usb) := Usb.Controller.perform a w.usb
    (reply, { w with usb })

instance [Spi.Bus β] : Spi.Bus (Hardware κ β ρ) where
  perform a w :=
    let (reply, spi) := Spi.Bus.perform a w.spi
    (reply, { w with spi })

instance [ResetLine ρ] : ResetLine (Hardware κ β ρ) where
  drive level w :=
    let (ok, reset) := ResetLine.drive level w.reset
    (ok, { w with reset })

end Hardware

end FlashProgrammer

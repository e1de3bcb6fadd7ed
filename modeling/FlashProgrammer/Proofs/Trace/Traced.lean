import FlashProgrammer.Line
import FlashProgrammer.Spi.Bus
import FlashProgrammer.Usb.Device

/-!
# Traced hardware

The firmware never looks inside its hardware.  So what it did can only be said by
hardware that remembers: `Traced ω` answers as the hardware `ω` does, whatever that
is, and keeps every action with its answer in order.  `Adds es w w'` says that it kept
`es` in between.
-/

namespace FlashProgrammer.Trace

/-- An action of the firmware and the answer to it. -/
inductive Event where
  /-- On the SPI bus. -/
  | spi (a : Spi.Action) (reply : a.Reply)
  /-- On the USB controller. -/
  | usb (a : Usb.Action) (reply : a.Reply)
  /-- On the reset line. -/
  | line (level : Level) (driven : Bool)

/-- Hardware with all that it was asked, oldest first. -/
structure Traced (ω : Type) where
  hw : ω
  /-- What it was asked and answered. -/
  events : List Event

namespace Traced

variable {ω : Type}

/-- Hardware of which nothing is remembered yet. -/
def fresh (w : ω) : Traced ω := ⟨w, []⟩

instance [Spi.Bus ω] : Spi.Bus (Traced ω) where
  perform a w :=
    let (reply, hw) := Spi.Bus.perform a w.hw
    (reply, ⟨hw, w.events ++ [.spi a reply]⟩)

instance [Usb.Controller ω] : Usb.Controller (Traced ω) where
  perform a w :=
    let (reply, hw) := Usb.Controller.perform a w.hw
    (reply, ⟨hw, w.events ++ [.usb a reply]⟩)

instance [ResetLine ω] : ResetLine (Traced ω) where
  drive level w :=
    let (driven, hw) := ResetLine.drive level w.hw
    (driven, ⟨hw, w.events ++ [.line level driven]⟩)

end Traced

/-! ## What a trace keeps -/

variable {ω : Type}

/-- Between two moments, a trace kept these events. -/
def Adds (es : List Event) (w w' : Traced ω) : Prop := w'.events = w.events ++ es

theorem adds_refl (w : Traced ω) : Adds [] w w := (List.append_nil _).symm

theorem Adds.trans {es fs : List Event} {u v w : Traced ω} (huv : Adds es u v)
    (hvw : Adds fs v w) : Adds (es ++ fs) u w := by
  rw [Adds, hvw, huv, List.append_assoc]

/-- The events of a trace that began when nothing was remembered. -/
theorem Adds.events_eq {es : List Event} {w : ω} {w' : Traced ω} (h : Adds es (.fresh w) w') :
    w'.events = es := h

theorem adds_perform [Usb.Controller ω] (a : Usb.Action) (w : Traced ω) :
    Adds [.usb a (Usb.Controller.perform a w).1] w (Usb.Controller.perform a w).2 := rfl

end FlashProgrammer.Trace

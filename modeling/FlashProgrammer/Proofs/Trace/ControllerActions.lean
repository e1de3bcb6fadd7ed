import FlashProgrammer.Hardware
import FlashProgrammer.Programmer.Poll
import FlashProgrammer.Proofs.Trace.Traced
import FlashProgrammer.Proofs.Trace.View
import FlashProgrammer.Proofs.Usb.BulkMoves

/-!
# What a trace asks of the USB controller

The host sees the programmer through its USB controller, so what it can see of a request
are the actions that the controller was asked for.  `Drives as w w'` says that these
were the actions `as` between two moments.

Work on the SPI bus asks nothing of the controller.  That needs no induction of its own:
a trace with its controller actions shows the bus, and so does the bus beside any fixed
list of actions, so `IsView` forces the two to agree.  Taking data from the host only
asks for what has arrived.
-/

namespace FlashProgrammer.Usb

/-- Whether an action takes data that the host has sent. -/
def Action.receives : Action → Bool
  | rxReady _ | rxCount _ | fifoRead .. | rxDone .. => true
  | _ => false

end FlashProgrammer.Usb

namespace FlashProgrammer.Trace

open Flash Programmer Usb

/-- The controller actions of a trace, oldest first. -/
def controllerActions (es : List Event) : List Usb.Action :=
  es.filterMap fun
    | .usb a _ => some a
    | _ => none

variable {ω : Type}

/-- Between two moments, these actions were asked of the controller. -/
def Drives (as : List Usb.Action) (w w' : Traced ω) : Prop :=
  controllerActions w'.events = controllerActions w.events ++ as

theorem drives_refl (w : Traced ω) : Drives [] w w := (List.append_nil _).symm

theorem Drives.trans {as bs : List Usb.Action} {u v w : Traced ω} (huv : Drives as u v)
    (hvw : Drives bs v w) : Drives (as ++ bs) u w := by
  rw [Drives, hvw, huv, List.append_assoc]

theorem drives_perform [Controller ω] (a : Usb.Action) (w : Traced ω) :
    Drives [a] w (Controller.perform a w).2 :=
  List.filterMap_append

/-- A refusal halts the flash endpoint, and asks nothing else. -/
theorem drives_refuse [Controller ω] (dir : Direction) (s : Station (Traced ω)) :
    Drives [.stall .flash dir] s.2.hw (refuse dir s).2.hw :=
  drives_perform (.stall .flash dir) s.2.hw

/-- The controller actions of a trace that began when nothing was remembered. -/
theorem Drives.controllerActions_eq {as : List Usb.Action} {w : ω} {w' : Traced ω}
    (h : Drives as (.fresh w) w') : controllerActions w'.events = as := h

/-! ## The SPI bus -/

section Bus

variable [Spi.Bus ω]

/-- A bus beside a list of controller actions. -/
def beside (as : List Usb.Action) (w : ω) : Hardware (List Usb.Action) ω Unit := ⟨as, w, ()⟩

/-- The bus of a trace beside the controller actions of the trace. -/
def besideActions (w : Traced ω) : Hardware (List Usb.Action) ω Unit :=
  beside (controllerActions w.events) w.hw

theorem isView_beside (as : List Usb.Action) : IsView (beside as (ω := ω)) := fun _ _ => rfl

theorem isView_besideActions : IsView (besideActions (ω := ω)) := by
  intro a w
  have hactions : controllerActions (Spi.Bus.perform a w).2.events =
      controllerActions w.events := by
    show controllerActions (w.events ++ [_]) = _
    rw [controllerActions, List.filterMap_append]
    exact List.append_nil _
  simp only [besideActions, hactions]
  rfl

/-- Reading a chip asks nothing of the controller. -/
theorem drives_readIdle (slot : Slot) (polls address length : Nat) (w : Traced ω) :
    Drives [] w (readIdle slot polls address length w).2 := by
  have htraced := readIdle_view isView_besideActions slot polls address length w
  have hfixed := readIdle_view (isView_beside (controllerActions w.events)) slot polls address
    length w.hw
  have hagree := congrArg (fun answer => answer.2.usb) (htraced.symm.trans hfixed)
  exact hagree.trans (List.append_nil _).symm

/-- Modifying a chip asks nothing of the controller. -/
theorem drives_modify (slot : Slot) (i : Instruction) (w : Traced ω) :
    Drives [] w (Flash.modify slot i w).2 := by
  have htraced := modify_view isView_besideActions slot i w
  have hfixed := modify_view (isView_beside (controllerActions w.events)) slot i w.hw
  have hagree := congrArg (fun answer => answer.2.usb) (htraced.symm.trans hfixed)
  exact hagree.trans (List.append_nil _).symm

end Bus

/-! ## Taking data from the host -/

section Receiving

variable [Controller ω]

/-- Between two moments, the controller was only asked for data that the host has sent. -/
def Receives (w w' : Traced ω) : Prop := ∃ as, Drives as w w' ∧ ∀ a ∈ as, a.receives = true

omit [Controller ω] in
theorem receives_refl (w : Traced ω) : Receives w w := ⟨[], drives_refl w, by simp⟩

omit [Controller ω] in
theorem Receives.trans {u v w : Traced ω} (huv : Receives u v) (hvw : Receives v w) :
    Receives u w := by
  obtain ⟨as, hu, has⟩ := huv
  obtain ⟨bs, hv, hbs⟩ := hvw
  refine ⟨as ++ bs, hu.trans hv, fun a ha => ?_⟩
  rcases List.mem_append.mp ha with ha | ha
  · exact has a ha
  · exact hbs a ha

theorem receives_perform {a : Usb.Action} (ha : a.receives = true) (w : Traced ω) :
    Receives w (Controller.perform a w).2 :=
  ⟨[a], drives_perform a w, by simpa using ha⟩

/-- Taking bulk data. -/
theorem receives_of_used {w w' : Traced ω} (h : UsedFor Action.TakesBulk w w') :
    Receives w w' := by
  refine h.relates receives_refl Receives.trans ?_
  rintro a ⟨e, _, ha⟩ w
  have hreceives : a.receives = true := by cases ha <;> rfl
  exact receives_perform hreceives w

theorem receives_readPacket (ep : UInt8) (room : Nat) (p : Link (Traced ω)) :
    Receives p.hw (p.readPacket ep room).2.hw :=
  receives_of_used (talksFor_readPacket ep room p).used

theorem receives_gather (ep : UInt8) (fuel need : Nat) (p : Link (Traced ω)) :
    Receives p.hw (p.gather ep fuel need).2.hw :=
  receives_of_used (talksFor_gather ep fuel need p).used

end Receiving

end FlashProgrammer.Trace

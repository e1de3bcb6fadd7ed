import FlashProgrammer.Proofs.Programmer.OneOutcome
import FlashProgrammer.Proofs.Programmer.Turns
import FlashProgrammer.Proofs.Usb.BusReset

/-!
# Work while the bus sleeps

While the bus sleeps an interrupt looks for a wake-up and a pulled cable, and at nothing else.
The main loop does not know of the sleep.  It serves what waits on the flash endpoint.

`Works frames w w'` says that between two moments there was work on an endpoint or on the SPI bus
exactly if there were frames.  It is composed function by function: reading a frame is work, and
whatever is only asked in order to find one is none.  `Sleeps.works` says it of all that
happens while the bus sleeps.
-/

namespace FlashProgrammer.Usb

/-- Whether an action is work on an endpoint: it moves data, or sets up or halts the endpoint. -/
def Action.works : Action → Bool
  | configure .. | fifoRead .. | rxDone .. | fifoWrite .. | txReady .. | stall ..
  | clearStall .. => true
  | _ => false

end FlashProgrammer.Usb

namespace FlashProgrammer.Programmer

open Flash Protocol Usb Trace

/-! ## Work and frames -/

section Working

variable {ω : Type}

/-- Between two moments there was work on an endpoint exactly if there were frames, and on the SPI
bus only then. -/
structure Works (frames : List (List UInt8)) (w w' : Traced ω) : Prop where
  endpoints : ∃ as, Sees Action.works as w w' ∧ (as = [] ↔ frames = [])
  bus : frames = [] → busActions w'.events = busActions w.events

theorem works_refl (w : Traced ω) : Works [] w w :=
  ⟨⟨[], sees_refl w, by simp⟩, fun _ => rfl⟩

theorem Works.trans {fs gs : List (List UInt8)} {u v w : Traced ω} (huv : Works fs u v)
    (hvw : Works gs v w) : Works (fs ++ gs) u w := by
  obtain ⟨as, hfirst, has⟩ := huv.endpoints
  obtain ⟨bs, hlast, hbs⟩ := hvw.endpoints
  refine ⟨⟨as ++ bs, hfirst.trans hlast, ?_⟩, fun hnone => ?_⟩
  · rw [List.append_eq_nil_iff, List.append_eq_nil_iff, has, hbs]
  · obtain ⟨hfs, hgs⟩ := List.append_eq_nil_iff.mp hnone
    exact (hvw.bus hgs).trans (huv.bus hfs)

/-- Nothing is work if the controller was only used and no work is seen of it. -/
theorem idles_of_used [Controller ω] {w w' : Traced ω} (h : Used w w')
    (hsees : Sees Action.works [] w w') : Works [] w w' :=
  ⟨⟨[], hsees, by simp⟩, fun _ => busActions_of_used h⟩

theorem idles_perform [Controller ω] {a : Usb.Action} (h : a.works = false) (w : Traced ω) :
    Works [] w (Controller.perform a w).2 :=
  idles_of_used (used_perform a w) (unseen_perform h w)

/-- What was noticed by a trace that began when nothing was remembered. -/
theorem Works.of_fresh {frames : List (List UInt8)} {w : ω} {w' : Traced ω}
    (h : Works frames (.fresh w) w') :
    (∀ a ∈ controllerActions w'.events, a.works = false) ∧ busActions w'.events = [] ↔
      frames = [] := by
  obtain ⟨as, hsees, has⟩ := h.endpoints
  have hnone : (∀ a ∈ controllerActions w'.events, a.works = false) ↔ as = [] := by
    rw [← hsees.filter_eq, List.filter_eq_nil_iff]
    simp only [Bool.not_eq_true]
  rw [hnone, has]
  exact and_iff_left_of_imp h.bus

end Working

/-! ## The main loop -/

section Serving

variable {ω : Type} [Spi.Bus ω] [ResetLine ω] [Controller ω]

omit [ResetLine ω] [Controller ω] in
/-- An instruction to a chip asks nothing of the controller. -/
theorem drives_execute (slot : Slot) (i : Instruction) (w : Traced ω) :
    Drives [] w (execute slot i w).2 := by
  have htraced := execute_view isView_besideActions slot i w
  have hfixed := execute_view (isView_beside (controllerActions w.events)) slot i w.hw
  have hagree := congrArg (fun executed => executed.2.usb) (htraced.symm.trans hfixed)
  exact hagree.trans (List.append_nil _).symm

/-- A trace is not cut short. -/
theorem drives_of_does {w w' : Traced ω} (h : Does w w') : ∃ as, Drives as w w' := by
  induction h with
  | refl => exact ⟨[], drives_refl w⟩
  | @use v _ a ih =>
    obtain ⟨as, has⟩ := ih
    exact ⟨as ++ [a], has.trans (drives_perform a v)⟩
  | @drive v _ level ih =>
    obtain ⟨as, has⟩ := ih
    refine ⟨as, ?_⟩
    rw [Drives, ← has]
    show controllerActions (v.events ++ [_]) = _
    rw [controllerActions, List.filterMap_append]
    exact List.append_nil _
  | @execute v _ slot i ih =>
    obtain ⟨as, has⟩ := ih
    have hboth := has.trans (drives_execute slot i v)
    rw [List.append_nil] at hboth
    exact ⟨as, hboth⟩

omit [Spi.Bus ω] [ResetLine ω] in
/-- Looking for a packet is no work. -/
theorem idles_rxPending (p : Link (Traced ω)) :
    Works [] p.hw (p.rxPending flashEndpoint).2.hw :=
  idles_of_used (talks_rxPending flashEndpoint p).used
    (unseen_rxPending (fun _ => rfl) flashEndpoint p)

omit [Spi.Bus ω] [ResetLine ω] in
/-- Neither is waiting for a packet that does not come. -/
theorem idles_readPacket {p q : Link (Traced ω)} {room : Nat} {e : Fault}
    (h : p.readPacket flashEndpoint room = (.error e, q)) : Works [] p.hw q.hw := by
  rw [Link.readPacket] at h
  split at h
  · cases h
    exact works_refl p.hw
  · next ep _ =>
    have hunseen : Sees Action.works [] p.hw
        (Link.awaitPacket ep p.device.budget.usbSpins p).2.hw :=
      unseen_awaitPacket rfl p.device.budget.usbSpins p
    have hused := (talks_awaitPacket ep p.device.budget.usbSpins p).used
    generalize Link.awaitPacket ep p.device.budget.usbSpins p = awaited at hunseen hused h
    obtain ⟨_ | _, r⟩ := awaited
    · cases h
      exact idles_of_used hused hunseen
    · cases h

/-- Serving the flash endpoint is work exactly if there is a frame. -/
theorem works_service (s : Station (Traced ω)) :
    Works ((frame? s).map Prod.fst).toList s.2.hw (service s).2.hw := by
  cases hframe : frame? s with
  | some read =>
    obtain ⟨frame, t⟩ := read
    obtain ⟨hreads, _⟩ := reads_frame hframe
    have hserved : Does t.2.hw (service s).2.hw := by
      rw [service_of_frame hframe]
      split
      · exact does_serve _ t
      · exact does_refuse .toHost t
    obtain ⟨as, has⟩ := drives_of_does (.of_used hreads.used)
    obtain ⟨bs, hbs⟩ := drives_of_does hserved
    have hshown : as.filter shows = [.rxDone .flash false] :=
      List.append_cancel_left ((has.sees shows).symm.trans hreads.sees)
    have hreleased : Usb.Action.rxDone .flash false ∈ as :=
      List.mem_of_mem_filter (hshown ▸ List.mem_singleton_self _)
    refine ⟨⟨_, (has.trans hbs).sees Action.works, ?_⟩, fun hnone => by cases hnone⟩
    refine iff_of_false (fun hnone => ?_) (by simp)
    exact List.filter_eq_nil_iff.mp hnone _ (List.mem_append_left bs hreleased) rfl
  | none =>
    have hpending := idles_rxPending s.2
    rw [frame?] at hframe
    rw [service]
    generalize s.2.rxPending flashEndpoint = pending at hpending hframe ⊢
    obtain ⟨_ | _, p⟩ := pending
    · exact hpending
    · simp only at hframe ⊢
      cases hread : p.readPacket flashEndpoint maxPacket with
      | mk outcome q =>
        rw [hread] at hframe
        cases outcome with
        | error e => exact hpending.trans (idles_readPacket hread)
        | ok bs => cases hframe

/-- The frames that the queued work takes, as `drain` serves it. -/
def drainFrames : (fuel : Nat) → Station ω → List (List UInt8)
  | 0, _ => []
  | fuel + 1, s =>
    match s.2.takeWork with
    | (none, _) => []
    | (some work, link) =>
      if work = ⟨flashEndpoint, .toDevice⟩ then
        ((frame? (s.1, link)).map Prod.fst).toList ++ drainFrames fuel (service (s.1, link))
      else drainFrames fuel (s.1, link)

/-- The frames that a turn of the main loop takes. -/
def pollFrames (s : Station ω) : List (List UInt8) :=
  if s.2.device.isConfigured then
    let drained := drain s.2.device.queue.length s
    drainFrames s.2.device.queue.length s ++
      match drained.2.rxPending flashEndpoint with
      | (true, link) => ((frame? (drained.1, link)).map Prod.fst).toList
      | (false, _) => []
  else []

theorem works_drain (fuel : Nat) (s : Station (Traced ω)) :
    Works (drainFrames fuel s) s.2.hw (drain fuel s).2.hw := by
  induction fuel generalizing s with
  | zero => exact works_refl s.2.hw
  | succ fuel ih =>
    have hsame : s.2.takeWork.2.hw = s.2.hw := rfl
    rw [drain, drainFrames, ← hsame]
    generalize s.2.takeWork = taken
    obtain ⟨_ | work, p⟩ := taken
    · exact works_refl p.hw
    · simp only
      split
      · exact (works_service (s.1, p)).trans (ih (service (s.1, p)))
      · exact ih (s.1, p)

/-- A turn of the main loop works exactly for the frames that it takes. -/
theorem works_poll (s : Station (Traced ω)) : Works (pollFrames s) s.2.hw (poll s).2.hw := by
  rw [pollFrames, poll]
  split
  · have hdrained := works_drain s.2.device.queue.length s
    simp only
    generalize drain s.2.device.queue.length s = drained at hdrained ⊢
    have hpending := idles_rxPending drained.2
    generalize drained.2.rxPending flashEndpoint = pending at hpending ⊢
    obtain ⟨_ | _, p⟩ := pending
    · exact hdrained.trans hpending
    · exact hdrained.trans (hpending.trans (works_service (drained.1, p)))
  · exact works_refl s.2.hw

/-- The main loop does not wake the device. -/
theorem turnInvariant_suspended :
    TurnInvariant fun s : Station ω => s.2.device.suspended = true := by
  refine .of_device (P := fun d => d.suspended = true) (fun _ h => h) ?_
  intro d d' hretains h
  rw [Retains] at hretains
  rwa [hretains]

end Serving

/-! ## Interrupts -/

section Interrupts

variable {ω : Type} [Controller ω]

/-- Power and a wake-up change which bus events are listened for, and that is no work. -/
theorem idles_roused (p : Link (Traced ω)) : Works [] p.hw p.roused.2.hw := by
  have hread : Works [] p.hw (p.ask .interrupts).2.hw :=
    idles_perform (a := .interrupts) rfl p.hw
  have hlisten : ∀ (events : BusEvents) (q : Link (Traced ω)), Works [] q.hw (q.listen events).hw :=
    fun events q => idles_perform (a := .enableEvents events) rfl q.hw
  rw [Link.roused]
  generalize p.ask .interrupts = asked at hread ⊢
  obtain ⟨status, q⟩ := asked
  have hpowered : Works [] p.hw q.powerUp.hw := by
    rw [Link.powerUp]
    split
    · exact hread.trans (hlisten _ q)
    · exact hread
  simp only
  split
  · exact hpowered.trans (hlisten _ { q.powerUp with device.suspended := false })
  · exact hpowered

end Interrupts

/-! ## Asleep -/

section Asleep

variable {ω : Type} [Spi.Bus ω] [ResetLine ω] [Controller ω] {s x : Station (Traced ω)}
  {frames : List (List UInt8)}

/-- What happens while the bus sleeps, with the frames that are taken.  The main loop takes its
turns, and interrupts come that report neither a wake-up nor a pulled cable, whatever the hardware
does in between. -/
inductive Sleeps (s : Station (Traced ω)) : List (List UInt8) → Station (Traced ω) → Prop where
  | start : Sleeps s [] s
  | outside {frames : List (List UInt8)} {x : Station (Traced ω)} (h : Sleeps s frames x)
      (f : ω → ω) : Sleeps s frames (x.1, { x.2 with hw := { x.2.hw with hw := f x.2.hw.hw } })
  | interrupt {frames : List (List UInt8)} {x : Station (Traced ω)} (h : Sleeps s frames x)
      (hdisconnect : x.2.roused.1.bus.disconnect = false)
      (hresume : x.2.roused.1.bus.resume = false) : Sleeps s frames (x.1, x.2.onInterrupt)
  | poll {frames : List (List UInt8)} {x : Station (Traced ω)} (h : Sleeps s frames x) :
      Sleeps s (frames ++ pollFrames x) (poll x)

theorem Sleeps.suspended (h : Sleeps s frames x) (hasleep : s.2.device.suspended = true) :
    x.2.device.suspended = true := by
  induction h with
  | start => exact hasleep
  | outside _ f ih => exact ih
  | @interrupt _ x _ hdisconnect hresume ih =>
    show x.2.onInterrupt.device.suspended = true
    have hasleep := Link.asleep_roused ih hresume
    rw [Link.onInterrupt_of_asleep hdisconnect hasleep]
    exact hasleep
  | poll _ ih => exact turnInvariant_suspended.poll ih

/-- While the bus sleeps there is work exactly if the main loop takes frames. -/
theorem Sleeps.works (h : Sleeps s frames x) (hasleep : s.2.device.suspended = true) :
    Works frames s.2.hw x.2.hw := by
  induction h with
  | start => exact works_refl s.2.hw
  | outside _ f ih => exact ⟨ih.endpoints, ih.bus⟩
  | @interrupt frames x hsleeps hdisconnect hresume ih =>
    have hinterrupt : Works [] x.2.hw x.2.onInterrupt.hw := by
      rw [Link.onInterrupt_of_asleep hdisconnect
        (Link.asleep_roused (hsleeps.suspended hasleep) hresume)]
      exact idles_roused x.2
    have hboth := ih.trans hinterrupt
    rwa [List.append_nil] at hboth
  | @poll _ x _ ih => exact ih.trans (works_poll x)

end Asleep

end FlashProgrammer.Programmer

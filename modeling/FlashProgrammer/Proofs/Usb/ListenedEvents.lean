import FlashProgrammer.Proofs.Usb.QueuedWork
import FlashProgrammer.Proofs.Usb.RoutineActions

/-!
# What a device listens for

The bus raises an interrupt only for the events that the device asked for.  A device that sleeps
must have asked for the wake-up, and one that is awake for the suspend.  Otherwise it would sleep
on for good, or draw power from an idle bus.

`Mirrors` says that the device remembers what it asked for last, and `Listens` that this is what
its state calls for.  The set is edited where power is noticed, at a wake-up and at a suspend,
and the flag is also cleared by a bus reset, a pulled cable and a detach.  So each of them is a
case of `Listens`, and everything else on endpoint 0 and in the main loop is routine.
-/

namespace FlashProgrammer.Usb

open Trace

/-! ## The events that were asked for -/

/-- The bus events that raise an interrupt after an action. -/
def Action.heard (events : BusEvents) : Action → BusEvents
  | enableEvents chosen => chosen
  | _ => events

/-- The bus events that raise an interrupt after some actions: those that were chosen last. -/
def listening (as : List Action) : BusEvents := as.foldl Action.heard {}

/-- What a device with power has to listen for. -/
def BusEvents.awaited (suspended : Bool) : BusEvents :=
  { disconnect := true, reset := true, resume := suspended, suspend := !suspended }

/-- The device remembers which bus events it asked for last. -/
def Mirrors {ω : Type} (p : Link (Traced ω)) : Prop :=
  p.device.enabled = listening (controllerActions p.hw.events)

section Mirroring

variable {ω : Type} [Controller ω] {p q : Link (Traced ω)}

theorem listening_perform (a : Action) (w : Traced ω) :
    listening (controllerActions (Controller.perform a w).2.events) =
      a.heard (listening (controllerActions w.events)) := by
  rw [listening, drives_perform a w, List.foldl_append]
  rfl

/-- What chooses no bus events keeps the record of them. -/
theorem Mirrors.kept (h : Mirrors p) {as : List Action} (hasks : Asks p.hw as q.hw)
    (hdeaf : ∀ events, as.foldl Action.heard events = events)
    (hsame : q.device.enabled = p.device.enabled) : Mirrors q := by
  have hroutine : ∀ a : Action, a.routine = true → ∀ events, a.heard events = events := by
    intro a ha events
    cases a <;> first | rfl | cases ha
  have hheard := hasks.view_eq
    (fun w : Traced ω => listening (controllerActions w.events)) listening_perform hroutine
  rw [Mirrors, hsame, h]
  exact (hheard.trans (hdeaf _)).symm

/-- What asks for bus events keeps a record of them. -/
theorem mirrors_listen (events : BusEvents) (p : Link (Traced ω)) : Mirrors (p.listen events) :=
  (listening_perform (.enableEvents events) p.hw).symm

theorem Mirrors.roused (h : Mirrors p) : Mirrors p.roused.2 := by
  have hasked : Mirrors (p.ask .interrupts).2 :=
    h.kept (p.asks_ask (a := .interrupts) rfl) (fun _ => rfl) rfl
  rw [Link.roused]
  generalize p.ask .interrupts = asked at hasked ⊢
  obtain ⟨status, r⟩ := asked
  have hpowered : Mirrors r.powerUp := by
    rw [Link.powerUp]
    split
    · exact mirrors_listen _ r
    · exact hasked
  simp only
  split
  · exact mirrors_listen _ _
  · exact hpowered

theorem Mirrors.dozed (h : Mirrors p) : Mirrors p.dozed := by
  rw [Link.dozed]
  split
  · exact mirrors_listen _ _
  · exact h.roused

/-- A control transfer asks for no bus events. -/
theorem Mirrors.serviceControl (h : Mirrors p) : Mirrors p.serviceControl := by
  refine h.kept p.asks_serviceControl ?_ (congrArg Aside.enabled p.aside_serviceControl)
  intro events
  rw [Link.controlAsks]
  cases p.takenSetup?.bind fun taken => taken.1.haltCommand? with
  | none => rfl
  | some c =>
    obtain ⟨ep, dir, halts⟩ := c
    cases halts <;> rfl

omit [Controller ω] in
/-- Work that is queued is neither asked of the controller nor part of what is listened for. -/
theorem Mirrors.notes (h : Mirrors p) (works : List Work) : Mirrors (works.foldl Link.note p) := by
  obtain ⟨current, queue, hnoted⟩ := Link.exists_notes works p
  rw [hnoted]
  exact h

theorem Mirrors.onInterrupt (h : Mirrors p) : Mirrors p.onInterrupt := by
  rcases p.onInterrupt_cases with ⟨_, _, _, hserved⟩ | ⟨_, _, _, hserved⟩ |
      ⟨_, _, _, r, works, hr, hserved⟩ | ⟨r, works, _, _, _, hr, _, hserved⟩
  · have hasked := p.asks_ask (a := .interrupts) rfl
    have hleft := (p.ask .interrupts).2.asks_tell (a := .disconnect) rfl
    rw [hserved]
    exact h.kept (hasked.trans hleft) (fun _ => rfl) rfl
  · have haddress := p.roused.2.resetTransfers.asks_tell (a := .setAddress 0) rfl
    have hout := haddress.trans
      (asks_routine (a := .configure .control .toDevice maxPacket false) rfl _)
    have hreset : Asks p.roused.2.hw [] p.roused.2.busReset.hw :=
      hout.trans (asks_routine (a := .configure .control .toHost maxPacket false) rfl _)
    rw [hserved]
    exact h.roused.kept hreset (fun _ => rfl) rfl
  · rw [hserved]
    rcases hr with rfl | rfl
    · exact h.roused.notes works
    · exact h.dozed.notes works
  · have hreached : Mirrors r := by
      rw [hr]
      exact h.dozed
    rw [hserved]
    exact hreached.serviceControl.notes works

theorem Operation.mirrors_run (op : Operation ω) (h : Mirrors p) : Mirrors (op.onTraced.run p) := by
  have hbulk : op.onTraced.MovesBulk → Mirrors (op.onTraced.run p) := fun hmoves =>
    h.kept (asks_bulk hmoves p) (fun _ => rfl) (congrArg _ (talks_run hmoves p).device_eq)
  cases op with
  | attach => exact mirrors_listen _ _
  | detach => exact mirrors_listen _ _
  | interrupt => exact h.onInterrupt
  | takeWork => exact h
  | rxPending | readPacket | fill | write => exact hbulk trivial
  | stallEndpoint ep dir =>
    show Mirrors (p.stallEndpoint ep dir)
    rw [Link.stallEndpoint]
    split
    · exact h
    · next e _ => exact h.kept (asks_perform (.stall e dir) p.hw) (fun _ => rfl) rfl
  | outside f => exact h

/-- Whatever happens to a device, it remembers which bus events it asked for last. -/
theorem Operation.enabled_runAll (ops : List (Operation ω)) (descriptors : Descriptors)
    (budget : WaitBudget) (w : ω) :
    (runAll ops ⟨{ descriptors, budget }, w⟩).device.enabled =
      listening (asked ops ⟨{ descriptors, budget }, w⟩) := by
  have hmirrors : ∀ (ops : List (Operation ω)) (p : Link (Traced ω)), Mirrors p →
      Mirrors (runAll (ops.map onTraced) p) := by
    intro ops
    induction ops with
    | nil => exact fun _ h => h
    | cons op ops ih => exact fun p h => ih _ (op.mirrors_run h)
  have hrun := runAll_untraced ops (traced ⟨{ descriptors, budget }, w⟩)
  rw [show (⟨{ descriptors, budget }, w⟩ : Link ω) =
    untraced (traced ⟨{ descriptors, budget }, w⟩) from rfl, hrun]
  exact hmirrors ops (traced ⟨{ descriptors, budget }, w⟩) rfl

end Mirroring

/-! ## The events that the state calls for -/

/-- A device listens for what its state calls for. -/
structure Listens (d : Device) : Prop where
  powered : Lifecycle.powered ≤ d.lifecycle → d.enabled = .awaited d.suspended
  attached : d.lifecycle = .attached → d.enabled = { reset := true, disconnect := true }
  /-- Only a device with power sleeps. -/
  awake : d.lifecycle < .powered → d.suspended = false

/-- A device with power listens if it listens for what its sleep calls for. -/
theorem listens_of_powered {d : Device} (hpowered : Lifecycle.powered ≤ d.lifecycle)
    (henabled : d.enabled = .awaited d.suspended) : Listens d where
  powered := fun _ => henabled
  attached := fun hattached => by
    rw [hattached] at hpowered
    exact absurd hpowered (by decide)
  awake := fun hbelow => absurd hpowered (Nat.not_le_of_lt hbelow)

/-- A detached device listens for nothing in particular, and does not sleep. -/
theorem listens_of_detached {d : Device} (hdetached : d.lifecycle = .detached)
    (hawake : d.suspended = false) : Listens d where
  powered := fun hpowered => by
    rw [hdetached] at hpowered
    exact absurd hpowered (by decide)
  attached := fun hattached => by
    rw [hdetached] at hattached
    cases hattached
  awake := fun _ => hawake

/-- The closing handshake does not take a device back behind its reset. -/
theorem Device.waiting_le_settled {d : Device} (h : Lifecycle.waiting ≤ d.lifecycle) :
    Lifecycle.waiting ≤ d.settled := by
  have hreaddressed : Lifecycle.waiting ≤ d.readdressed := by
    rw [readdressed]
    split
    · exact h
    · split <;> decide
  rw [settled]
  split
  · split <;> decide
  · exact hreaddressed

section Listening

variable {ω : Type} [Controller ω] {p : Link ω}

namespace Link

/-- Serving endpoint 0 does not take a device back behind its reset. -/
theorem waiting_le_serviceControl (h : Lifecycle.waiting ≤ p.device.lifecycle) :
    Lifecycle.waiting ≤ p.serviceControl.device.lifecycle := by
  have hafter : p.serviceControl.device.lifecycle = p.caughtUp.device.lifecycle := by
    rcases p.progress_serviceControl with ⟨_, _, stage, hserved⟩ | ⟨_, s, stage, _, hserved, _⟩
    · exact congrArg Progress.lifecycle hserved
    · exact congrArg Progress.lifecycle hserved
  rw [hafter]
  rcases p.progress_caughtUp with ⟨_, hcaught⟩ | ⟨_, _, hcaught⟩ | ⟨_, _, hcaught⟩
  · rw [show p.caughtUp.device.lifecycle = p.device.lifecycle from
      congrArg Progress.lifecycle hcaught]
    exact h
  · rw [show p.caughtUp.device.lifecycle = p.device.settled from
      congrArg Progress.lifecycle hcaught]
    exact Device.waiting_le_settled h
  · rw [show p.caughtUp.device.lifecycle = p.device.lifecycle from
      congrArg Progress.lifecycle hcaught]
    exact h

end Link

/-- An interrupt that comes to an attached device finds it with power. -/
theorem Listens.roused (h : Listens p.device) (hattached : p.device.lifecycle ≠ .detached) :
    Lifecycle.powered ≤ p.roused.2.device.lifecycle ∧
      p.roused.2.device.enabled = .awaited p.roused.2.device.suspended := by
  have hdevice := (talks_ask .interrupts p).device_eq
  rw [Link.roused]
  rw [← hdevice] at h hattached
  generalize p.ask .interrupts = asked at h hattached
  obtain ⟨status, q⟩ := asked
  have hnoticed : Lifecycle.powered ≤ q.powerUp.device.lifecycle ∧
      q.powerUp.device.enabled = .awaited q.powerUp.device.suspended := by
    rw [Link.powerUp]
    by_cases hfresh : q.device.lifecycle = .attached
    · have hawake : q.device.suspended = false := h.awake (by rw [hfresh]; decide)
      rw [if_pos hfresh, h.attached hfresh]
      refine ⟨show Lifecycle.powered ≤ .powered by decide, ?_⟩
      show _ = BusEvents.awaited q.device.suspended
      rw [hawake]
      rfl
    · rw [if_neg hfresh]
      have hpowered : Lifecycle.powered ≤ q.device.lifecycle := by
        generalize q.device.lifecycle = lifecycle at hattached hfresh
        cases lifecycle with
        | detached => exact absurd rfl hattached
        | attached => exact absurd rfl hfresh
        | powered | waiting | addressed | configured => decide
      exact ⟨hpowered, h.powered hpowered⟩
  obtain ⟨hpowered, henabled⟩ := hnoticed
  simp only
  generalize q.powerUp = r at hpowered henabled
  split
  · refine ⟨hpowered, ?_⟩
    show { r.device.enabled with resume := false, suspend := true } = BusEvents.awaited false
    rw [henabled]
    rfl
  · exact ⟨hpowered, henabled⟩

/-- So it does when the bus goes idle with the same interrupt. -/
theorem Listens.dozed (h : Listens p.device) (hattached : p.device.lifecycle ≠ .detached) :
    Lifecycle.powered ≤ p.dozed.device.lifecycle ∧
      p.dozed.device.enabled = .awaited p.dozed.device.suspended := by
  obtain ⟨hpowered, henabled⟩ := h.roused hattached
  rw [Link.dozed]
  split
  · refine ⟨hpowered, ?_⟩
    show { p.roused.2.device.enabled with suspend := false, resume := true } =
      BusEvents.awaited true
    rw [henabled]
    rfl
  · exact ⟨hpowered, henabled⟩

theorem Listens.onInterrupt (h : Listens p.device) (hattached : p.device.lifecycle ≠ .detached) :
    Listens p.onInterrupt.device := by
  have hroused := h.roused hattached
  have hdozed := h.dozed hattached
  rcases p.onInterrupt_cases with ⟨_, _, _, hserved⟩ | ⟨hreset, _, _, hserved⟩ |
      ⟨_, _, _, q, works, hq, hserved⟩ | ⟨q, works, _, _, hwaiting, hq, _, hserved⟩
  · -- The cable was pulled.
    rw [hserved]
    exact listens_of_detached rfl rfl
  · -- A reset is only served awake, so the wake-up it stands for is not left to listen for.
    have hawake : p.roused.2.device.suspended = false := by
      simp only [Link.servesReset, Bool.and_eq_true, Bool.not_eq_true'] at hreset
      exact hreset.1.2
    have henabled := hroused.2
    rw [hawake] at henabled
    rw [hserved]
    exact listens_of_powered (show Lifecycle.powered ≤ .waiting by decide) henabled
  · have hpowered : Lifecycle.powered ≤ q.device.lifecycle ∧
        q.device.enabled = .awaited q.device.suspended := by
      rcases hq with rfl | rfl
      · exact hroused
      · exact hdozed
    obtain ⟨current, queue, hnoted⟩ := Link.exists_notes works q
    rw [hserved, hnoted]
    exact listens_of_powered hpowered.1 hpowered.2
  · have hreset : Lifecycle.waiting ≤ q.device.lifecycle := by
      have hsame : q.device.lifecycle = p.roused.2.device.lifecycle := by
        rw [hq]
        exact congrArg Progress.lifecycle
          (Link.progress_dozed p.roused.1.bus.suspend p.roused.2).1
      rw [hsame, p.lifecycle_roused, if_neg]
      · exact Nat.le_of_not_lt hwaiting
      · intro hfresh
        rw [hfresh] at hwaiting
        exact hwaiting (by decide)
    have henabled : q.serviceControl.device.enabled = q.device.enabled :=
      congrArg Aside.enabled q.aside_serviceControl
    have hsuspended : q.serviceControl.device.suspended = q.device.suspended :=
      congrArg Aside.suspended q.aside_serviceControl
    obtain ⟨current, queue, hnoted⟩ := Link.exists_notes works q.serviceControl
    rw [hserved, hnoted]
    refine listens_of_powered ?_ ?_
    · exact Nat.le_trans (by decide) (Link.waiting_le_serviceControl hreset)
    · show q.serviceControl.device.enabled = .awaited q.serviceControl.device.suspended
      rw [henabled, hsuspended, hq]
      exact hdozed.2

end Listening

/-! ## Runs -/

namespace Operation

variable {ω : Type} [Controller ω]

/-- A device is attached only while it is detached, and interrupts come only while it is not. -/
def Timely (op : Operation ω) (p : Link ω) : Prop :=
  match op with
  | attach => p.device.lifecycle = .detached
  | interrupt => p.device.lifecycle ≠ .detached
  | _ => True

instance (op : Operation ω) (p : Link ω) : Decidable (op.Timely p) := by
  unfold Timely
  split <;> infer_instance

/-- So it is at each of some operations. -/
def AllTimely : List (Operation ω) → Link ω → Prop
  | [], _ => True
  | op :: ops, p => op.Timely p ∧ AllTimely ops (op.run p)

instance instDecidableAllTimely : (ops : List (Operation ω)) → (p : Link ω) →
    Decidable (AllTimely ops p)
  | [], _ => inferInstanceAs (Decidable True)
  | op :: ops, p =>
    have := instDecidableAllTimely ops (op.run p)
    inferInstanceAs (Decidable (_ ∧ _))

theorem listens_run {op : Operation ω} {p : Link ω} (htimely : op.Timely p)
    (h : Listens p.device) : Listens (op.run p).device := by
  cases op with
  | attach =>
    have hawake : p.device.suspended = false := h.awake (by rw [show _ = _ from htimely]; decide)
    exact ⟨fun hpowered => absurd (show Lifecycle.powered ≤ .attached from hpowered) (by decide),
      fun _ => rfl, fun _ => hawake⟩
  | detach => exact listens_of_detached rfl rfl
  | interrupt => exact h.onInterrupt htimely
  | takeWork => exact ⟨h.powered, h.attached, h.awake⟩
  | rxPending | readPacket | fill | write =>
    rw [(talks_run (by trivial) p).device_eq]
    exact h
  | stallEndpoint ep dir =>
    show Listens (p.stallEndpoint ep dir).device
    rw [Link.stallEndpoint]
    split
    · exact h
    · exact ⟨h.powered, h.attached, h.awake⟩
  | outside f => exact h

theorem listens_runAll {ops : List (Operation ω)} {p : Link ω} (htimely : AllTimely ops p)
    (h : Listens p.device) : Listens (runAll ops p).device := by
  induction ops generalizing p with
  | nil => exact h
  | cons op ops ih => exact ih htimely.2 (listens_run htimely.1 h)

end Operation

/-- A device can always be woken.

From power-on some operations lead to `p`, on any hardware.  The device is attached only while it is
detached, and interrupts come only while it is not, whatever events they report and in whatever
order.  Then a device with power listens for a bus reset and a pulled cable, for a wake-up exactly
if it sleeps, and for a suspend exactly if it does not. -/
theorem listens_for_waking {ω : Type} [Controller ω] (descriptors : Descriptors)
    (budget : WaitBudget) (w : ω) (ops : List (Operation ω))
    (htimely : Operation.AllTimely ops ⟨{ descriptors, budget }, w⟩) :
    let off : Link ω := ⟨{ descriptors, budget }, w⟩
    let p := Operation.runAll ops off
    Lifecycle.powered ≤ p.device.lifecycle →
      listening (Operation.asked ops off) =
        { disconnect := true
          reset := true
          resume := p.device.suspended
          suspend := !p.device.suspended } := by
  intro off p hpowered
  have hstart : Listens off.device := listens_of_detached rfl rfl
  have hlistens : Listens p.device := Operation.listens_runAll htimely hstart
  exact (Operation.enabled_runAll ops descriptors budget w).symm.trans (hlistens.powered hpowered)

/-! ## On the bench -/

section Bench

open Bench

/-- A configured device whose bus went idle listens for the wake-up. -/
theorem listens_for_waking_asleep :
    Operation.AllTimely (asleepThen {}) (⟨{}, {}⟩ : Link FifoController) ∧
      (Operation.runAll (asleepThen {}) (⟨{}, {}⟩ : Link FifoController)).device.suspended = true ∧
      listening (Operation.asked (asleepThen {}) (⟨{}, {}⟩ : Link FifoController)) =
        { disconnect := true, reset := true, resume := true } := by
  have htimely : Operation.AllTimely (asleepThen {}) (⟨{}, {}⟩ : Link FifoController) := by
    decide +kernel
  have hpowered : Lifecycle.powered ≤
      (Operation.runAll (asleepThen {}) (⟨{}, {}⟩ : Link FifoController)).device.lifecycle := by
    decide +kernel
  have hasleep :
      (Operation.runAll (asleepThen {}) (⟨{}, {}⟩ : Link FifoController)).device.suspended =
        true := by
    decide +kernel
  have hlistens :=
    listens_for_waking {} {} ({} : FifoController) (asleepThen {}) htimely hpowered
  rw [hasleep] at hlistens
  exact ⟨htimely, hasleep, hlistens⟩

end Bench

end FlashProgrammer.Usb

import FlashProgrammer.Proofs.Usb.BusReset
import FlashProgrammer.Proofs.Usb.NotableActions

/-!
# Off the bus

A detached device should stay detached until it is attached again.  But an interrupt looks at the
bus events before it looks at the lifecycle: a reset takes the device to its reset state from
wherever it is, and a suspend puts it to sleep.

`BusEvents.offline` says what one report does to a detached device, and `offline_run` that an
operation does just this.  So the reports since the device was taken off decide what it is like:
`detached_exact`.
-/

namespace FlashProgrammer.Usb

open Trace

/-- What an interrupt does to a detached device that sleeps or not: whether it sleeps then, or
nothing if it is detached no longer. -/
def BusEvents.offline (asleep : Bool) (e : BusEvents) : Option Bool :=
  if e.disconnect then some false
  else if asleep && !e.resume then some true
  else if e.reset then none
  else some e.suspend

/-- An action that does more than read the sources of an interrupt, choose the bus events that raise
one, or leave the bus. -/
def Action.engages : Action → Bool
  | interrupts | enableEvents _ | disconnect => false
  | _ => true

/-- The device was never attached, was just detached, or its cable was just pulled. -/
inductive TakenOff {ω : Type} [Controller ω] : Link ω → Prop where
  | new (descriptors : Descriptors) (budget : WaitBudget) (w : ω) :
      TakenOff ⟨{ descriptors, budget }, w⟩
  | detached (p : Link ω) : TakenOff p.detach
  | unplugged (p : Link ω) (hdisconnect : p.roused.1.bus.disconnect = true) :
      TakenOff p.onInterrupt

namespace Link

variable {ω : Type} [Controller ω]

/-! ## Interrupts -/

theorem device_takenOff {p : Link ω} (h : TakenOff p) :
    p.device.lifecycle = .detached ∧ p.device.suspended = false := by
  cases h with
  | new => exact ⟨rfl, rfl⟩
  | detached => exact ⟨rfl, rfl⟩
  | unplugged q hdisconnect =>
    rw [onInterrupt_of_disconnect hdisconnect]
    exact ⟨rfl, rfl⟩

/-- Power and a wake-up do not attach a device. -/
theorem roused_of_detached {p : Link ω} (h : p.device.lifecycle = .detached) :
    p.roused.2.device.lifecycle = .detached := by
  rw [lifecycle_roused, h]
  rfl

/-- Nor does a sleep, which shows in the device. -/
theorem dozed_of_detached {p : Link ω} (h : p.device.lifecycle = .detached)
    (hawake : p.roused.2.device.suspended = false) :
    p.dozed.device.lifecycle = .detached ∧
      p.dozed.device.suspended = p.roused.1.bus.suspend := by
  have hdetached := roused_of_detached h
  rw [dozed]
  cases p.roused.1.bus.suspend with
  | true => exact ⟨hdetached, rfl⟩
  | false => exact ⟨hdetached, hawake⟩

/-- The cable is pulled again, or the device sleeps on, or it is reset, or nothing but the bus going
idle is noticed. -/
theorem onInterrupt_of_detached {p : Link ω} (h : p.device.lifecycle = .detached) :
    (p.roused.1.bus.offline p.device.suspended = some false ∧
      p.onInterrupt = (p.ask .interrupts).2.unplug) ∨
    (p.roused.1.bus.offline p.device.suspended = some true ∧
      p.roused.2.device.suspended = true ∧ p.onInterrupt = p.roused.2) ∨
    (p.roused.1.bus.offline p.device.suspended = none ∧ p.onInterrupt = p.roused.2.busReset) ∨
    (p.roused.1.bus.offline p.device.suspended = some p.roused.1.bus.suspend ∧
      p.roused.2.device.suspended = false ∧ p.onInterrupt = p.dozed) := by
  rw [BusEvents.offline, ← p.suspended_roused]
  cases hdisconnect : p.roused.1.bus.disconnect with
  | true => exact .inl ⟨rfl, onInterrupt_of_disconnect hdisconnect⟩
  | false =>
    cases hasleep : p.roused.2.device.suspended with
    | true => exact .inr (.inl ⟨rfl, rfl, onInterrupt_of_asleep hdisconnect hasleep⟩)
    | false =>
      cases hreset : p.roused.1.bus.reset with
      | true =>
        exact .inr (.inr (.inl ⟨rfl, onInterrupt_of_reset hdisconnect hasleep hreset⟩))
      | false =>
        have hbelow : p.dozed.device.lifecycle < .waiting := by
          rw [(dozed_of_detached h hasleep).1]
          decide
        exact .inr (.inr (.inr ⟨rfl, rfl, onInterrupt_of_below hdisconnect hasleep hreset hbelow⟩))

theorem device_onInterrupt_of_offline {p : Link ω} (h : p.device.lifecycle = .detached)
    {asleep : Bool} (hoffline : p.roused.1.bus.offline p.device.suspended = some asleep) :
    p.onInterrupt.device.lifecycle = .detached ∧ p.onInterrupt.device.suspended = asleep := by
  rcases onInterrupt_of_detached h with ⟨hsame, hserved⟩ | ⟨hsame, hasleep, hserved⟩ |
      ⟨hnone, _⟩ | ⟨hsame, hawake, hserved⟩
  · cases hoffline.symm.trans hsame
    rw [hserved]
    exact ⟨rfl, rfl⟩
  · cases hoffline.symm.trans hsame
    rw [hserved]
    exact ⟨roused_of_detached h, hasleep⟩
  · cases hoffline.symm.trans hnone
  · cases hoffline.symm.trans hsame
    rw [hserved]
    exact dozed_of_detached h hawake

theorem onInterrupt_of_online {p : Link ω} (h : p.device.lifecycle = .detached)
    (honline : p.roused.1.bus.offline p.device.suspended = none) :
    p.onInterrupt = p.roused.2.busReset := by
  rcases onInterrupt_of_detached h with ⟨hsome, _⟩ | ⟨hsome, _⟩ | ⟨_, hserved⟩ | ⟨hsome, _⟩
  · cases honline.symm.trans hsome
  · cases honline.symm.trans hsome
  · exact hserved
  · cases honline.symm.trans hsome

/-- Nothing but a reset engages the controller. -/
theorem sees_onInterrupt_of_detached {p : Link (Traced ω)} (h : p.device.lifecycle = .detached) :
    Sees Action.engages
      (if p.roused.1.bus.offline p.device.suspended = none then resetActions else []) p.hw
      p.onInterrupt.hw := by
  have hread : Sees Action.engages [] p.hw (p.ask .interrupts).2.hw :=
    unseen_perform (a := .interrupts) rfl p.hw
  have hroused : Sees Action.engages [] p.hw p.roused.2.hw := unseen_roused rfl (fun _ => rfl) p
  rcases onInterrupt_of_detached h with ⟨hsome, hserved⟩ | ⟨hsome, _, hserved⟩ |
      ⟨hnone, hserved⟩ | ⟨hsome, _, hserved⟩
  · rw [hsome, hserved]
    exact hread.trans (unseen_perform (a := .disconnect) rfl _)
  · rw [hsome, hserved]
    exact hroused
  · rw [hnone, hserved]
    exact (p.roused.2.drives_busReset.sees Action.engages).after hroused
  · rw [hsome, hserved]
    exact unseen_dozed rfl (fun _ => rfl) p

/-! ## Attaching again -/

/-- A reset that comes after an attach is served if the device does not sleep, or is woken. -/
theorem lifecycle_reset_of_attached {p : Link ω} (h : p.device.lifecycle = .attached)
    (hdisconnect : p.roused.1.bus.disconnect = false) (hreset : p.roused.1.bus.reset = true) :
    p.onInterrupt.device.lifecycle =
      if p.device.suspended && !p.roused.1.bus.resume then .powered else .waiting := by
  rw [← p.suspended_roused]
  cases hasleep : p.roused.2.device.suspended with
  | true =>
    rw [onInterrupt_of_asleep hdisconnect hasleep, lifecycle_roused, if_pos h]
    rfl
  | false =>
    rw [onInterrupt_of_reset hdisconnect hasleep hreset]
    rfl

end Link

/-! ## Runs -/

namespace Operation

variable {ω : Type} [Controller ω]

/-- What an operation reports to a detached device.  To detach it is to pull the cable. -/
def report? (op : Operation ω) (p : Link ω) : Option BusEvents :=
  match op with
  | detach => some { disconnect := true }
  | interrupt => some p.roused.1.bus
  | _ => none

/-- The reports of some operations. -/
def reports (ops : List (Operation ω)) (p : Link ω) : List BusEvents :=
  (steps ops p).filterMap fun x => x.1.report? x.2

/-- Without a report a detached device stays as it is, unless it is attached. -/
theorem offline_run_of_no_report {op : Operation ω} (hattach : op ≠ .attach) {p : Link ω}
    (hreport : op.report? p = none) :
    (op.run p).device.lifecycle = p.device.lifecycle ∧
      (op.run p).device.suspended = p.device.suspended := by
  cases op with
  | attach => exact absurd rfl hattach
  | detach | interrupt => cases hreport
  | takeWork | outside => exact ⟨rfl, rfl⟩
  | rxPending | readPacket | fill | write =>
    rw [(talks_run (by trivial) p).device_eq]
    exact ⟨rfl, rfl⟩
  | stallEndpoint ep dir =>
    show (p.stallEndpoint ep dir).device.lifecycle = _ ∧ (p.stallEndpoint ep dir).device.suspended = _
    rw [Link.stallEndpoint]
    split <;> exact ⟨rfl, rfl⟩

/-- With a report, the report says what becomes of it. -/
theorem offline_run_of_report {op : Operation ω} {p : Link ω}
    (h : p.device.lifecycle = .detached) {e : BusEvents} (hreport : op.report? p = some e) :
    (∀ asleep, e.offline p.device.suspended = some asleep →
      (op.run p).device.lifecycle = .detached ∧ (op.run p).device.suspended = asleep) ∧
    (e.offline p.device.suspended = none → (op.run p).device.lifecycle = .waiting) := by
  cases op with
  | detach =>
    cases hreport
    refine ⟨fun asleep hoffline => ?_, nofun⟩
    cases hoffline
    exact ⟨rfl, rfl⟩
  | interrupt =>
    cases hreport
    refine ⟨fun asleep hoffline => Link.device_onInterrupt_of_offline h hoffline,
      fun honline => ?_⟩
    show p.onInterrupt.device.lifecycle = .waiting
    rw [Link.onInterrupt_of_online h honline]
    rfl
  | attach | takeWork | rxPending | readPacket | fill | write | stallEndpoint | outside =>
    cases hreport

theorem reports_cons (op : Operation ω) (ops : List (Operation ω)) (p : Link ω) :
    reports (op :: ops) p = (op.report? p).toList ++ reports ops (op.run p) := by
  rw [reports, steps, List.filterMap_cons]
  cases op.report? p <;> rfl

/-- Either way, the device stays detached or waits for an address. -/
theorem offline_run {op : Operation ω} (hattach : op ≠ .attach) {p : Link ω}
    (h : p.device.lifecycle = .detached) :
    (∀ asleep, (op.report? p).toList.foldlM BusEvents.offline p.device.suspended = some asleep →
      (op.run p).device.lifecycle = .detached ∧ (op.run p).device.suspended = asleep) ∧
    ((op.report? p).toList.foldlM BusEvents.offline p.device.suspended = none →
      (op.run p).device.lifecycle = .waiting) := by
  cases hreport : op.report? p with
  | none =>
    obtain ⟨hlifecycle, hsuspended⟩ := offline_run_of_no_report hattach hreport
    refine ⟨fun asleep hasleep => ?_, nofun⟩
    cases hasleep
    exact ⟨hlifecycle.trans h, hsuspended⟩
  | some e =>
    rw [Option.toList_some, List.foldlM_cons]
    cases hoffline : e.offline p.device.suspended with
    | none => exact ⟨nofun, fun _ => (offline_run_of_report h hreport).2 hoffline⟩
    | some later =>
      refine ⟨fun asleep hasleep => ?_, nofun⟩
      cases hasleep
      exact (offline_run_of_report h hreport).1 later hoffline

/-- The reports decide whether a device stays detached, and whether it sleeps then. -/
theorem offline_runAll {ops : List (Operation ω)} (hattach : .attach ∉ ops) {p : Link ω}
    (h : p.device.lifecycle = .detached) :
    (∀ asleep, (reports ops p).foldlM BusEvents.offline p.device.suspended = some asleep →
      (∀ x ∈ steps ops p, (x.1.run x.2).device.lifecycle = .detached) ∧
        (runAll ops p).device.lifecycle = .detached ∧
        (runAll ops p).device.suspended = asleep) ∧
    ((reports ops p).foldlM BusEvents.offline p.device.suspended = none →
      ∃ x ∈ steps ops p, (x.1.run x.2).device.lifecycle = .waiting) := by
  induction ops generalizing p with
  | nil =>
    refine ⟨fun asleep hoffline => ?_, nofun⟩
    cases hoffline
    exact ⟨List.forall_mem_nil _, h, rfl⟩
  | cons op ops ih =>
    have hop : op ≠ .attach := fun heq => hattach (heq ▸ List.mem_cons_self ..)
    have hops : .attach ∉ ops := fun hmem => hattach (List.mem_cons_of_mem op hmem)
    obtain ⟨hstays, hleaves⟩ := offline_run hop h
    rw [reports_cons, List.foldlM_append]
    cases hstate : (op.report? p).toList.foldlM BusEvents.offline p.device.suspended with
    | none => exact ⟨nofun, fun _ => ⟨(op, p), List.mem_cons_self .., hleaves hstate⟩⟩
    | some asleep =>
      obtain ⟨hdetached, rfl⟩ := hstays asleep hstate
      obtain ⟨hoffline, honline⟩ := ih hops hdetached
      refine ⟨fun later hlater => ?_, fun hnone => ?_⟩
      · obtain ⟨hall, hlast⟩ := hoffline later hlater
        exact ⟨List.forall_mem_cons.mpr ⟨hdetached, hall⟩, hlast⟩
      · obtain ⟨x, hx, hwaiting⟩ := honline hnone
        exact ⟨x, List.mem_cons_of_mem _ hx, hwaiting⟩

end Operation

/-- When a detached device stays off the bus.

A device was never attached, or was just detached, or its cable was just pulled, on any hardware.
Then anything happens to it but an attach, and the interrupts report whatever they like.

It stays detached all the while exactly if the reports leave it so, one after the other.  Then it
sleeps if they say so.  The next interrupt leaves it detached exactly if its own report does, and
then engages the controller in nothing.  Otherwise the device takes address 0, sets up endpoint 0
and is as after a bus reset, without an attach.

If it is attached instead, and the next interrupt reports a reset and no pulled cable, it waits for
an address exactly if it did not sleep, or if the interrupt reports a wake-up as well. -/
theorem detached_exact {ω : Type} [Controller ω] {p : Link ω} (hoff : TakenOff p)
    {since : List (Operation ω)} (hattach : .attach ∉ since) :
    let q := Operation.runAll since p
    let state := (Operation.reports since p).foldlM BusEvents.offline false
    ((∀ x ∈ Operation.steps since p, (x.1.run x.2).device.lifecycle = .detached) ↔
      state ≠ none) ∧
    ∀ asleep, state = some asleep →
      q.device.lifecycle = .detached ∧ q.device.suspended = asleep ∧
      (q.onInterrupt.device.lifecycle = .detached ↔ q.roused.1.bus.offline asleep ≠ none) ∧
      (Operation.asked [.interrupt] q).filter Action.engages =
        (if q.roused.1.bus.offline asleep = none then resetActions else []) ∧
      (q.roused.1.bus.offline asleep = none → AsReset q.onInterrupt.device) ∧
      ∀ f : ω → ω,
        let r : Link ω := { q.attach with hw := f q.attach.hw }
        r.roused.1.bus.disconnect = false → r.roused.1.bus.reset = true →
          (r.onInterrupt.device.lifecycle = .waiting ↔
            asleep = false ∨ r.roused.1.bus.resume = true) := by
  intro q state
  obtain ⟨hdetached, hawake⟩ := Link.device_takenOff hoff
  obtain ⟨hstays, hleaves⟩ := Operation.offline_runAll hattach hdetached
  rw [hawake] at hstays hleaves
  refine ⟨⟨fun hall hnone => ?_, fun hsome => ?_⟩, fun asleep hstate => ?_⟩
  · obtain ⟨x, hx, hwaiting⟩ := hleaves hnone
    cases (hall x hx).symm.trans hwaiting
  · obtain ⟨asleep, hstate⟩ := Option.ne_none_iff_exists'.mp hsome
    exact (hstays asleep hstate).1
  · obtain ⟨_, hq, hasleep⟩ := hstays asleep hstate
    have hserved := Link.sees_onInterrupt_of_detached (p := traced q) hq
    have hroused : (traced q).roused.1 = q.roused.1 :=
      (congrArg Prod.fst (Link.roused_untraced (traced q))).symm
    rw [hroused, show (traced q).device.suspended = asleep from hasleep] at hserved
    have hasked : (Operation.asked [.interrupt] q).filter Action.engages =
        if q.roused.1.bus.offline asleep = none then resetActions else [] := hserved.filter_eq
    refine ⟨hq, hasleep, ?_, hasked, ?_, ?_⟩
    · refine ⟨fun hstill honline => ?_, fun hoffline => ?_⟩
      · rw [← hasleep] at honline
        rw [Link.onInterrupt_of_online hq honline] at hstill
        cases hstill
      · obtain ⟨later, hlater⟩ := Option.ne_none_iff_exists'.mp hoffline
        rw [← hasleep] at hlater
        exact (Link.device_onInterrupt_of_offline hq hlater).1
    · intro honline
      rw [← hasleep] at honline
      rw [Link.onInterrupt_of_online hq honline]
      exact Link.asReset_busReset _
    · intro f r hconnected hreset
      have hsuspended : r.device.suspended = asleep := hasleep
      rw [Link.lifecycle_reset_of_attached rfl hconnected hreset, hsuspended]
      cases asleep <;> cases r.roused.1.bus.resume <;> decide

/-! ## On the bench -/

section Bench

open Bench

/-- A device is configured, and then its cable is pulled. -/
def pulling : List (Operation FifoController) :=
  addressing ++ hostSends (configurationSetup 1).toBytes ++ hostCollects ++
    [.outside (Driven.raise { bus := { disconnect := true } })]

/-- Some bus events are reported. -/
def reporting (events : BusEvents) : List (Operation FifoController) :=
  [.outside (Driven.raise { bus := events }), .interrupt]

/-- The bus goes idle after the cable was pulled.  The device sleeps, and once it is attached again it
misses the reset. -/
theorem detached_exact_idle :
    let p := (Operation.runAll pulling (⟨{}, {}⟩ : Link FifoController)).onInterrupt
    let q := Operation.runAll (reporting { suspend := true }) p
    let r : Link FifoController :=
      { q.attach with hw := Driven.raise { bus := { reset := true } } q.attach.hw }
    q.device.lifecycle = .detached ∧ q.device.suspended = true ∧
      r.onInterrupt.device.lifecycle ≠ .waiting := by
  intro p q r
  have hoff : TakenOff p := .unplugged _ (by decide +kernel)
  have hattach : .attach ∉ reporting { suspend := true } := by simp [reporting]
  have hstate : (Operation.reports (reporting { suspend := true }) p).foldlM
      BusEvents.offline false = some true := by decide +kernel
  obtain ⟨_, hdetached⟩ := detached_exact hoff hattach
  obtain ⟨hq, hasleep, _, _, _, hattached⟩ := hdetached true hstate
  have hreset := hattached (Driven.raise { bus := { reset := true } }) (by decide +kernel)
    (by decide +kernel)
  refine ⟨hq, hasleep, fun hwaiting => ?_⟩
  have hwoken : true = false ∨ r.roused.1.bus.resume = true := hreset.mp hwaiting
  revert hwoken
  decide +kernel

/-- The cable was pulled.  A reset then takes the device to its reset state and to address 0, though
it was never attached again.  If the bus goes idle first, an attach and a reset leave it without. -/
theorem reset_off_the_bus :
    let p := Operation.runAll (pulling ++ [.interrupt]) (⟨{}, {}⟩ : Link FifoController)
    let q := Operation.runAll (reporting { reset := true }) p
    let r := Operation.runAll
      (reporting { suspend := true } ++ [.attach] ++ reporting { reset := true }) p
    p.device.lifecycle = .detached ∧ p.hw.address = 5 ∧
      q.device.lifecycle = .waiting ∧ q.hw.address = 0 ∧
      r.device.lifecycle = .powered ∧ r.device.suspended = true ∧ r.hw.address = 5 := by
  decide +kernel

end Bench

end FlashProgrammer.Usb

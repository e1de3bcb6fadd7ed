import FlashProgrammer.Proofs.Usb.AwaitingHandshake

/-!
# A configured device has its endpoints armed

A configuration is chosen in one transfer, its endpoints are armed when a transfer completes,
and only then the device is configured.  In between a transfer may be cut off, another one may
begin, the device may lose its address and get another one.

`Armed` ties together what was chosen, what still waits to be armed and what the controller was
told since the last bus reset that was served.  Every operation that serves no reset preserves it,
so `configured_armed` holds of every run.
-/

namespace FlashProgrammer.Usb

/-- The controller is told to set up and arm the flash endpoint. -/
def armsFlash (dir : Direction) : Action := .configure .flash dir maxPacket true

/-- A configuration in force has its endpoints armed, or they wait for it.  A configured device has
them armed, and was sent out of its configuration if none is in force. -/
structure Armed (as : List Action) (history : List TransferEvent) (a : Awaiting) (x : Progress) :
    Prop where
  chosen : x.configuration ≠ 0 → ∀ dir, a.arms .flash dir = true ∨ armsFlash dir ∈ as
  configured : x.lifecycle = .configured → (∀ dir, armsFlash dir ∈ as) ∧
    (x.configuration ≠ 0 ∨ ∃ s addressed, .began s addressed ∈ history ∧
      s.choice? x.offered addressed = some 0)

section Arming

variable {as : List Action} {history : List TransferEvent} {a : Awaiting} {x : Progress}

/-- Nothing is chosen and the device is not configured. -/
theorem Armed.of_cleared (hnone : x.configuration = 0) (hno : x.lifecycle ≠ .configured) :
    Armed as history a x :=
  ⟨fun h => absurd hnone h, fun h => absurd h hno⟩

/-- What was told and what happened stays so. -/
theorem Armed.more (h : Armed as history a x) (bs : List Action) (events : List TransferEvent) :
    Armed (as ++ bs) (history ++ events) a x where
  chosen := fun hne dir => (h.chosen hne dir).imp_right fun hmem => List.mem_append_left bs hmem
  configured := fun hconfigured => by
    obtain ⟨harmed, hleft⟩ := h.configured hconfigured
    refine ⟨fun dir => List.mem_append_left bs (harmed dir), hleft.imp_right ?_⟩
    rintro ⟨s, addressed, hmem, hchoice⟩
    exact ⟨s, addressed, List.mem_append_left events hmem, hchoice⟩

/-- The stage is of no account. -/
theorem Armed.goOn (h : Armed as history a x) {b : Awaiting} (hab : b.arms = a.arms)
    (stage : ControlStage) : Armed as history b { x with stage } :=
  ⟨fun hne => hab ▸ h.chosen hne, h.configured⟩

/-- A SETUP packet that chooses a configuration leaves its endpoints to be armed. -/
theorem Armed.begin (h : Armed as history a x) (s : Setup) (addressed : Bool)
    (stage stage' : ControlStage) (address : Option UInt8) :
    Armed as (history ++ [.began s addressed])
      { a.leave s.address? (s.choice? x.offered addressed) with stage, address }
      { x with
        configuration := (s.choice? x.offered addressed).getD x.configuration
        stage := stage' } := by
  have hmore := h.more [] [.began s addressed]
  rw [List.append_nil] at hmore
  cases hchoice : s.choice? x.offered addressed with
  | none => exact ⟨hmore.chosen, hmore.configured⟩
  | some v =>
    refine ⟨fun hne dir => .inl ?_, fun hconfigured => ⟨(h.configured hconfigured).1, ?_⟩⟩
    · have hany : (some v).any (· != 0) = true := by simpa using hne
      show ((some v).any (· != 0) && _ || _) = true
      rw [hany]
      rfl
    · by_cases hzero : v = 0
      · exact .inr ⟨s, addressed, by simp, hzero ▸ hchoice⟩
      · exact .inl hzero

variable {ω : Type} [Controller ω] {p : Link ω}

/-- The closing handshake arms what waited for it. -/
theorem arms_handshakeActions {d : Device} {dir : Direction}
    (h : d.awaiting.arms .flash dir = true) : armsFlash dir ∈ d.handshakeActions := by
  refine List.mem_append_right _ (List.mem_map.mpr ⟨(.flash, dir), ?_, rfl⟩)
  refine List.mem_filter.mpr ⟨?_, h⟩
  cases dir <;> decide

theorem Armed.caughtUp (h : Armed as history p.device.awaiting p.device.progress) :
    Armed (as ++ if p.caughtEvents = [.completed] then p.device.handshakeActions else [])
      (history ++ p.caughtEvents) p.caughtUp.device.awaiting p.caughtUp.device.progress := by
  rcases p.caughtUp_cases with ⟨hevents, hcaught⟩ | ⟨hevents, _, hcaught⟩ | ⟨_, _, hcaught⟩
  · have hcut := (h.more [] [.cut]).goOn (b := p.device.awaiting.cut) rfl .idle
    rw [hevents, hcaught, Link.awaiting_abortControl, if_neg (by decide)]
    exact hcut
  · have harmed : p.device.configuration ≠ 0 → ∀ dir,
        armsFlash dir ∈ as ++ p.device.handshakeActions := by
      intro hne dir
      rcases h.chosen hne dir with hwaits | hmem
      · exact List.mem_append_right _ (arms_handshakeActions hwaits)
      · exact List.mem_append_left _ hmem
    rw [hevents, hcaught, Link.progress_completeStatus, if_pos rfl]
    refine ⟨fun hne dir => .inr (harmed hne dir), fun hconfigured => ?_⟩
    obtain ⟨_, hne⟩ := p.device.settled_eq_configured_iff.mp hconfigured
    exact ⟨harmed hne, .inl hne⟩
  · rw [hcaught]
    exact h.more _ _

theorem Armed.serviceControl (h : Armed as history p.device.awaiting p.device.progress) :
    Armed (as ++ p.controlActions) (history ++ p.controlEvents) p.serviceControl.device.awaiting
      p.serviceControl.device.progress := by
  have hcaught := h.caughtUp.more (p.sender?.elim [] Device.packetActions) []
  rw [Link.controlActions, Link.controlEvents, ← List.append_assoc, ← List.append_assoc]
  rcases p.serviceControl_advances with ⟨htaken, hadvances, _⟩ | ⟨_, s, q, hq, htaken, hserved⟩
  · have harms : p.serviceControl.device.awaiting.arms = p.caughtUp.device.awaiting.arms := by
      rcases hadvances with hsame | hlast | hcut
      · rw [hsame]
      · rw [hlast]
      · rw [hcut, Awaiting.cut]
    rw [htaken]
    rcases p.progress_serviceControl with ⟨_, _, stage, hserved⟩ | ⟨_, s, stage, hbegan, _⟩
    · rw [hserved]
      exact hcaught.goOn harms stage
    · rw [hbegan] at htaken
      cases htaken
  · have hsame : p.caughtUp.device.awaiting = q.device.awaiting :=
      (congrArg Device.awaiting hq).symm
    have hprogress : p.caughtUp.device.progress = q.device.progress :=
      (congrArg Device.progress hq).symm
    obtain ⟨stage, address, hhandled, _⟩ := q.awaiting_handleSetup s
    obtain ⟨stage', hafter, _⟩ := q.progress_handleSetup s
    rw [htaken, hserved, hhandled, hafter, ← hq]
    rw [List.append_nil, hsame, hprogress] at hcaught
    exact hcaught.begin s (decide (Lifecycle.addressed ≤ q.device.lifecycle)) stage stage' address

/-- Whatever happens to a device short of a bus reset, it stays armed. -/
theorem Operation.armed_run (op : Operation ω) (hreset : op.servesReset p = false)
    (h : Armed as history p.device.awaiting p.device.progress) :
    Armed (as ++ op.tells p) (history ++ op.events p) (op.run p).device.awaiting
      (op.run p).device.progress := by
  cases op.effect p with
  | cleared _ _ _ hprogress =>
    rw [hprogress, hreset]
    exact .of_cleared rfl nofun
  | kept lifecycle _ hevents htells hawaiting hlifecycle hprogress =>
    rw [hevents, htells, hawaiting, hprogress, List.append_nil, List.append_nil]
    refine ⟨h.chosen, fun hconfigured => h.configured ?_⟩
    rcases hlifecycle with hkept | hbelow
    · exact hkept.symm.trans hconfigured
    · rw [show lifecycle = .configured from hconfigured] at hbelow
      exact absurd hbelow (by decide)
  | served q _ _ hq hsame hevents htells hawaiting hprogress =>
    rw [hevents, htells, hawaiting, hprogress]
    rw [← hq, ← hsame] at h
    exact h.serviceControl

end Arming

/-! ## Since the last bus reset -/

namespace Operation

variable {ω : Type} [Controller ω]

/-- None of some operations serves a bus reset. -/
def Resetless : List (Operation ω) → Link ω → Prop
  | [], _ => True
  | op :: ops, p => op.servesReset p = false ∧ Resetless ops (op.run p)

theorem armed_runAll {ops : List (Operation ω)} {p : Link ω} (hops : Resetless ops p)
    {as : List Action} {past : List TransferEvent}
    (h : Armed as past p.device.awaiting p.device.progress) :
    Armed (as ++ told ops p) (past ++ history ops p) (runAll ops p).device.awaiting
      (runAll ops p).device.progress := by
  induction ops generalizing as past p with
  | nil =>
    rw [told, history, List.append_nil, List.append_nil]
    exact h
  | cons op ops ih =>
    rw [told, history, ← List.append_assoc, ← List.append_assoc]
    exact ih hops.2 (op.armed_run hops.1 h)

/-- Without a bus reset a device at power-on stays below the reset. -/
theorem below_of_resetless {ops : List (Operation ω)} {p : Link ω} (hops : Resetless ops p)
    (h : p.device.lifecycle < .waiting) : (runAll ops p).device.lifecycle < .waiting := by
  induction ops generalizing p with
  | nil => exact h
  | cons op ops ih =>
    refine ih hops.2 ?_
    cases op.effect p with
    | cleared _ _ _ hprogress =>
      rw [hops.1] at hprogress
      have hafter : (op.run p).device.lifecycle = .detached := congrArg Progress.lifecycle hprogress
      rw [hafter]
      decide
    | kept lifecycle _ _ _ _ hlifecycle hprogress =>
      have hafter : (op.run p).device.lifecycle = lifecycle := congrArg Progress.lifecycle hprogress
      rw [hafter]
      rcases hlifecycle with rfl | hbelow
      · exact h
      · exact hbelow
    | served _ _ hreached => exact absurd h hreached

/-- Some operations serve no bus reset, or one of them serves the last one. -/
theorem resetless_or_last (ops : List (Operation ω)) (p : Link ω) :
    Resetless ops p ∨ ∃ before reset since, ops = before ++ reset :: since ∧
      reset.servesReset (runAll before p) = true ∧
      Resetless since (reset.run (runAll before p)) := by
  induction ops generalizing p with
  | nil => exact .inl trivial
  | cons op ops ih =>
    rcases ih (op.run p) with hrest | ⟨before, reset, since, rfl, hserves, hsince⟩
    · cases hop : op.servesReset p with
      | false => exact .inl ⟨hop, hrest⟩
      | true => exact .inr ⟨[], op, ops, rfl, hop, hrest⟩
    · exact .inr ⟨op :: before, reset, since, rfl, hserves, hsince⟩

/-- After a bus reset nothing is chosen and nothing was told. -/
theorem armed_of_servesReset {op : Operation ω} {p : Link ω} (h : op.servesReset p = true) :
    Armed [] [] (op.run p).device.awaiting (op.run p).device.progress := by
  rw [(cleared_of_servesReset h).2]
  exact .of_cleared rfl nofun

theorem runAll_append (before after : List (Operation ω)) (p : Link ω) :
    runAll (before ++ after) p = runAll after (runAll before p) := by
  rw [runAll, List.foldl_append]
  rfl

end Operation

/-- A configured device has its endpoints armed.

From power-on some operations brought the device to its configuration, on any hardware.  One of
them served a bus reset, and it was the last one to do so.  A reset that a sleeping device drops, as
`bus_reset_exact` describes, is not one that was served.  Since then the controller was told to set
up and arm the flash endpoint in both directions, and a configuration is in force unless the host
withdrew it since. -/
theorem configured_armed {ω : Type} [Controller ω] (descriptors : Descriptors)
    (budget : WaitBudget) (w : ω) (ops : List (Operation ω))
    (hconfigured :
      (Operation.runAll ops ⟨{ descriptors, budget }, w⟩).device.isConfigured = true) :
    ∃ before reset since, ops = before ++ reset :: since ∧
      let q := Operation.runAll before ⟨{ descriptors, budget }, w⟩
      let fresh := reset.run q
      reset.servesReset q = true ∧ Operation.Resetless since fresh ∧
      (∀ dir, .configure .flash dir maxPacket true ∈ Operation.asked since fresh) ∧
      ((Operation.runAll since fresh).device.configuration ≠ 0 ∨
        ∃ s addressed, .began s addressed ∈ Operation.history since fresh ∧
          s.choice? descriptors.configurationValue addressed = some 0) := by
  have hlifecycle := eq_of_beq hconfigured
  have hstart : Recorded descriptors.configurationValue []
      (Link.mk ({ descriptors, budget } : Device) w).device.progress :=
    recorded_start .detached descriptors.configurationValue
  have hoffered := (Operation.recorded_history ops hstart).offered_eq
  have hoff : (Link.mk ({ descriptors, budget } : Device) w).device.lifecycle < .waiting :=
    show Lifecycle.detached < .waiting by decide
  rcases Operation.resetless_or_last ops ⟨{ descriptors, budget }, w⟩ with hnone |
      ⟨before, reset, since, rfl, hserves, hsince⟩
  · have hbelow := Operation.below_of_resetless hnone hoff
    rw [hlifecycle] at hbelow
    exact absurd hbelow (by decide)
  · have harmed := Operation.armed_runAll hsince (Operation.armed_of_servesReset hserves)
    have hall := Operation.runAll_append before (reset :: since) ⟨{ descriptors, budget }, w⟩
    rw [hall] at hlifecycle hoffered
    obtain ⟨htold, hchoice⟩ := harmed.configured hlifecycle
    refine ⟨before, reset, since, rfl, hserves, hsince, fun dir => ?_, hoffered ▸ hchoice⟩
    have hmem := htold dir
    rw [List.nil_append, ← Operation.notable_asked] at hmem
    exact (List.mem_filter.mp hmem).1

/-! ## On the bench -/

section Bench

open Bench

/-- The device is given an address and configured. -/
def configuring : List (Operation FifoController) :=
  addressing ++ hostSends (configurationSetup 1).toBytes ++ hostCollects

/-- A device that went through an enumeration is configured, and so it was armed since its reset. -/
theorem configured_armed_enumerated :
    let off : Link FifoController := ⟨{ descriptors := {}, budget := {} }, {}⟩
    (Operation.runAll configuring off).device.isConfigured = true ∧
      ∃ before reset since, configuring = before ++ reset :: since ∧
        ∀ dir, .configure .flash dir maxPacket true ∈
          Operation.asked since (reset.run (Operation.runAll before off)) := by
  intro off
  have hconfigured : (Operation.runAll configuring off).device.isConfigured = true := by
    decide +kernel
  obtain ⟨before, reset, since, hsplit, _, _, harmed, _⟩ :=
    configured_armed ({} : Descriptors) ({} : WaitBudget) ({} : FifoController) configuring
      hconfigured
  exact ⟨hconfigured, before, reset, since, hsplit, harmed⟩

end Bench

end FlashProgrammer.Usb

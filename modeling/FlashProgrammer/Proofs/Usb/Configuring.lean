import FlashProgrammer.Bench.Host
import FlashProgrammer.Proofs.Usb.ControlHistory

/-!
# How a device comes to be configured

A device enters its configuration when a control transfer completes, and the transfer
should be the one that chose the configuration.

`Recorded` ties a device to the history of its transfers.  Each operation preserves it,
with the events that the operation adds, and so does a run.  `configured_exact` says
which transfers bring a device to its configuration: whichever completes first on a
device with an address, after a choice.  It is the one that chose exactly if no choice
was left over from a transfer that had been cut off or completed before.
-/

namespace FlashProgrammer.Usb

/-! ## Operations -/

/-- What can happen to a device and its hardware. -/
inductive Operation (ω : Type) where
  | attach
  | detach
  | interrupt
  | takeWork
  | rxPending (ep : UInt8)
  | readPacket (ep : UInt8) (room : Nat)
  | fill (ep : UInt8) (buffer : List UInt8)
  | write (ep : UInt8) (data : List UInt8)
  | stallEndpoint (ep : UInt8) (dir : Direction)
  /-- Packets arrive, interrupts are raised, or whatever else the hardware does by itself. -/
  | outside (f : ω → ω)

namespace Operation

variable {ω : Type} [Controller ω]

def run (op : Operation ω) (p : Link ω) : Link ω :=
  match op with
  | attach => p.attach
  | detach => p.detach
  | interrupt => p.onInterrupt
  | takeWork => p.takeWork.2
  | rxPending ep => (p.rxPending ep).2
  | readPacket ep room => (p.readPacket ep room).2
  | fill ep buffer => (p.fill ep buffer).2.2
  | write ep data => (p.write ep data).2
  | stallEndpoint ep dir => p.stallEndpoint ep dir
  | outside f => { p with hw := f p.hw }

/-- What an operation does to the control transfers. -/
def events (op : Operation ω) (p : Link ω) : List TransferEvent :=
  match op with
  | detach => [.reset]
  | interrupt => p.interruptEvents
  | _ => []

/-- The operation brings the device to its configuration. -/
def Enters (op : Operation ω) (p : Link ω) : Prop :=
  p.device.lifecycle ≠ .configured ∧ (op.run p).device.lifecycle = .configured

instance (op : Operation ω) (p : Link ω) : Decidable (op.Enters p) :=
  inferInstanceAs (Decidable (_ ∧ _))

/-- The device after some operations. -/
def runAll (ops : List (Operation ω)) (p : Link ω) : Link ω :=
  ops.foldl (fun p op => op.run p) p

/-- Each of some operations, with the link that it comes to. -/
def steps : List (Operation ω) → Link ω → List (Operation ω × Link ω)
  | [], _ => []
  | op :: ops, p => (op, p) :: steps ops (op.run p)

theorem steps_append (before after : List (Operation ω)) (p : Link ω) :
    steps (before ++ after) p = steps before p ++ steps after (runAll before p) := by
  induction before generalizing p with
  | nil => rfl
  | cons op before ih => exact congrArg _ (ih (op.run p))

/-- The history of some operations. -/
def history : List (Operation ω) → Link ω → List TransferEvent
  | [], _ => []
  | op :: ops, p => op.events p ++ history ops (op.run p)

/-- The operation moves bulk data, or asks for it. -/
def MovesBulk : Operation ω → Prop
  | rxPending _ | readPacket .. | fill .. | write .. => True
  | _ => False

/-- Moving bulk data leaves the device alone. -/
theorem talks_run {op : Operation ω} (h : op.MovesBulk) (p : Link ω) : Talks p (op.run p) := by
  cases op with
  | rxPending ep => exact talks_rxPending ep p
  | readPacket ep room => exact talks_readPacket ep room p
  | fill ep buffer => exact talks_fill ep buffer p
  | write ep data => exact talks_write ep data p
  | attach | detach | interrupt | takeWork | stallEndpoint | outside => exact h.elim

/-- Most operations are none of endpoint 0's business. -/
theorem progress_run {op : Operation ω} (p : Link ω) (hinterrupt : op ≠ .interrupt)
    (hdetach : op ≠ .detach) :
    op.events p = [] ∧ ∃ lifecycle,
      (lifecycle = .configured → p.device.lifecycle = .configured) ∧
      (op.run p).device.progress = { p.device.progress with lifecycle } := by
  have hsame : ∀ q : Link ω, q.device.progress = p.device.progress → ∃ lifecycle,
      (lifecycle = .configured → p.device.lifecycle = .configured) ∧
      q.device.progress = { p.device.progress with lifecycle } :=
    fun q hq => ⟨p.device.lifecycle, id, hq⟩
  cases op with
  | attach => exact ⟨rfl, .attached, nofun, rfl⟩
  | detach => exact absurd rfl hdetach
  | interrupt => exact absurd rfl hinterrupt
  | takeWork => exact ⟨rfl, hsame _ rfl⟩
  | rxPending | readPacket | fill | write =>
    exact ⟨rfl, hsame _ (congrArg Device.progress (talks_run (by trivial) p).device_eq)⟩
  | stallEndpoint ep dir =>
    refine ⟨rfl, hsame _ ?_⟩
    show (p.stallEndpoint ep dir).device.progress = p.device.progress
    rw [Link.stallEndpoint]
    split <;> rfl
  | outside f => exact ⟨rfl, hsame _ rfl⟩

end Operation

/-! ## Devices with a history -/

/-- A device that offers a configuration and the history of its transfers belong together. -/
structure Recorded (offered : UInt8) (past : List TransferEvent) (x : Progress) : Prop where
  offered_eq : x.offered = offered
  /-- The last choice is in force. -/
  configuration_eq : x.configuration = chosen x.offered past
  /-- A transfer in flight began last, and nothing happened to it since. -/
  underway : x.stage ≠ .idle → ∃ before s addressed, past = before ++ [.began s addressed]
  /-- An accepted choice waits for its handshake. -/
  awaits : ∀ before s addressed, past = before ++ [.began s addressed] →
    (s.choice? x.offered addressed).isSome → x.stage = .status
  /-- A transfer with an accepted choice ends before another one begins. -/
  ends : ∀ before s addressed s' addressed' since,
    past = before ++ .began s addressed :: .began s' addressed' :: since →
      s.choice? x.offered addressed = none

section Recording

variable {offered : UInt8} {past : List TransferEvent} {x : Progress}

theorem recorded_start (lifecycle : Lifecycle) (offered : UInt8) :
    Recorded offered [] ⟨lifecycle, 0, .idle, offered⟩ where
  offered_eq := rfl
  configuration_eq := rfl
  underway := fun h => absurd rfl h
  awaits := fun _ _ _ h => by simp at h
  ends := fun _ _ _ _ _ _ h => by simp at h

/-- A transfer that begins is preceded by the end of an accepted choice, if it is preceded by
one at all. -/
theorem Recorded.ends_append (h : Recorded offered past x) (e : TransferEvent)
    (hlast : ∀ s' addressed', e = .began s' addressed' → x.stage ≠ .status) :
    ∀ before s addressed s' addressed' since,
      past ++ [e] = before ++ .began s addressed :: .began s' addressed' :: since →
        s.choice? x.offered addressed = none := by
  intro before s addressed s' addressed' since hsplit
  rcases List.eq_nil_or_concat since with rfl | ⟨since', last, rfl⟩
  · have hshape : past ++ [e] = (before ++ [.began s addressed]) ++ [.began s' addressed'] := by
      simpa using hsplit
    obtain ⟨hpast, he⟩ := List.append_inj' hshape rfl
    have hstage := hlast s' addressed' (List.singleton_inj.mp he)
    cases hchoice : s.choice? x.offered addressed with
    | none => rfl
    | some v => exact absurd (h.awaits before s addressed hpast (by simp [hchoice])) hstage
  · have hshape : past ++ [e] =
        (before ++ .began s addressed :: .began s' addressed' :: since') ++ [last] := by
      simpa using hsplit
    exact h.ends _ _ _ _ _ _ (List.append_inj' hshape rfl).1

/-- What ends a transfer leaves nothing in flight. -/
theorem Recorded.stop (h : Recorded offered past x) {e : TransferEvent} (lifecycle : Lifecycle)
    (he : ∀ s addressed, e ≠ .began s addressed) :
    Recorded offered (past ++ [e])
      ⟨lifecycle, e.choose x.offered x.configuration, .idle, x.offered⟩ where
  offered_eq := h.offered_eq
  configuration_eq := by rw [chosen_append, h.configuration_eq]
  underway := fun hidle => absurd rfl hidle
  awaits := fun before s addressed hsplit _ =>
    absurd (List.singleton_inj.mp (List.append_inj' hsplit rfl).2) (he s addressed)
  ends := h.ends_append e fun s addressed heq => absurd heq (he s addressed)

/-- A transfer begins when nothing is in flight. -/
theorem Recorded.begin (h : Recorded offered past x) (hidle : x.stage = .idle) (s : Setup)
    (addressed : Bool) (stage : ControlStage)
    (hstatus : (s.choice? x.offered addressed).isSome → stage = .status) :
    Recorded offered (past ++ [.began s addressed])
      { x with configuration := (s.choice? x.offered addressed).getD x.configuration, stage } where
  offered_eq := h.offered_eq
  configuration_eq := by rw [chosen_append, h.configuration_eq]; rfl
  underway := fun _ => ⟨past, s, addressed, rfl⟩
  awaits := fun before s' addressed' hsplit hsome => by
    have heq := List.singleton_inj.mp (List.append_inj' hsplit rfl).2
    cases heq
    exact hstatus hsome
  ends := h.ends_append _ fun _ _ _ => by rw [hidle]; decide

/-- A data stage goes on, or ends. -/
theorem Recorded.goOn (h : Recorded offered past x) (hidle : x.stage ≠ .idle)
    (hstatus : x.stage ≠ .status) (stage : ControlStage) :
    Recorded offered past { x with stage } where
  offered_eq := h.offered_eq
  configuration_eq := h.configuration_eq
  underway := fun _ => h.underway hidle
  awaits := fun before s addressed hsplit hsome =>
    absurd (h.awaits before s addressed hsplit hsome) hstatus
  ends := h.ends

theorem Recorded.moveTo (h : Recorded offered past x) (lifecycle : Lifecycle) :
    Recorded offered past { x with lifecycle } :=
  ⟨h.offered_eq, h.configuration_eq, h.underway, h.awaits, h.ends⟩

end Recording

section Operations

variable {ω : Type} [Controller ω] {offered : UInt8} {past : List TransferEvent} {p : Link ω}

/-- What was latched about endpoint 0 is recorded, and no handshake is waited for any more. -/
theorem Recorded.caughtUp (h : Recorded offered past p.device.progress) :
    Recorded offered (past ++ p.caughtEvents) p.caughtUp.device.progress ∧
      p.caughtUp.device.stage ≠ .status := by
  rcases p.progress_caughtUp with
    ⟨hevents, hcaught⟩ | ⟨hevents, _, hcaught⟩ | ⟨hevents, hstage, hcaught⟩
  · have hstage : p.caughtUp.device.stage = .idle := congrArg Progress.stage hcaught
    rw [hevents, hcaught, hstage]
    exact ⟨h.stop p.device.lifecycle nofun, by decide⟩
  · have hstage : p.caughtUp.device.stage = .idle := congrArg Progress.stage hcaught
    rw [hevents, hcaught, hstage]
    exact ⟨h.stop p.device.settled nofun, by decide⟩
  · have hsame : p.caughtUp.device.stage = p.device.stage := congrArg Progress.stage hcaught
    rw [hevents, hcaught, hsame, List.append_nil]
    exact ⟨h, hstage⟩

theorem Recorded.serviceControl (h : Recorded offered past p.device.progress) :
    Recorded offered (past ++ p.controlEvents) p.serviceControl.device.progress := by
  obtain ⟨hcaught, hstatus⟩ := h.caughtUp
  rw [Link.controlEvents, ← List.append_assoc]
  rcases p.progress_serviceControl with
    ⟨htaken, hidle, stage, hserved⟩ | ⟨hidle, s, stage, htaken, hserved, hchoice⟩
  · rw [htaken, List.append_nil]
    by_cases hstage : p.caughtUp.device.stage = .idle
    · rw [hidle hstage]
      exact hcaught
    · rw [hserved]
      exact hcaught.goOn hstage hstatus stage
  · rw [htaken, hserved]
    exact hcaught.begin hidle s _ stage hchoice

/-- Whatever happens to a device is recorded. -/
theorem Operation.recorded (op : Operation ω) (h : Recorded offered past p.device.progress) :
    Recorded offered (past ++ op.events p) (op.run p).device.progress := by
  by_cases hinterrupt : op = .interrupt
  · subst hinterrupt
    show Recorded offered (past ++ p.interruptEvents) p.onInterrupt.device.progress
    rcases p.progress_onInterrupt with
      ⟨hevents, lifecycle, _, hserved⟩ | ⟨hevents, hserved⟩ | ⟨q, hq, _, hevents, hserved⟩
    · rw [hevents, hserved]
      exact h.stop lifecycle nofun
    · rw [hevents, hserved, List.append_nil]
      exact h.moveTo _
    · rw [hevents, hserved]
      rw [← hq] at h
      exact h.serviceControl
  · by_cases hdetach : op = .detach
    · subst hdetach
      exact h.stop .detached nofun
    · obtain ⟨hevents, lifecycle, _, hrun⟩ := op.progress_run p hinterrupt hdetach
      rw [hevents, hrun, List.append_nil]
      exact h.moveTo lifecycle

theorem Operation.recorded_history (ops : List (Operation ω))
    (h : Recorded offered past p.device.progress) :
    Recorded offered (past ++ history ops p) (runAll ops p).device.progress := by
  induction ops generalizing past p with
  | nil =>
    rw [history, List.append_nil]
    exact h
  | cons op ops ih =>
    rw [history, ← List.append_assoc]
    exact ih (op.recorded h)

/-! ## Entering the configuration -/

/-- Serving endpoint 0 configures a device exactly if it completes a transfer there and the
handshake brings the device to its configuration. -/
theorem serviceControl_configures_iff (h : p.device.lifecycle ≠ .configured) :
    p.serviceControl.device.lifecycle = .configured ↔
      (∃ rest, p.controlEvents = .completed :: rest) ∧ p.device.settled = .configured := by
  have hlifecycle : p.serviceControl.device.lifecycle = p.caughtUp.device.lifecycle := by
    rcases p.progress_serviceControl with ⟨_, _, stage, hserved⟩ | ⟨_, s, stage, _, hserved, _⟩
    · exact congrArg Progress.lifecycle hserved
    · exact congrArg Progress.lifecycle hserved
  rw [hlifecycle, Link.controlEvents]
  rcases p.progress_caughtUp with
    ⟨hevents, hcaught⟩ | ⟨hevents, _, hcaught⟩ | ⟨hevents, _, hcaught⟩
  · have hsame : p.caughtUp.device.lifecycle = p.device.lifecycle :=
      congrArg Progress.lifecycle hcaught
    rw [hsame, hevents]
    simp [h]
  · have hsettled : p.caughtUp.device.lifecycle = p.device.settled :=
      congrArg Progress.lifecycle hcaught
    rw [hsettled, hevents]
    simp
  · have hsame : p.caughtUp.device.lifecycle = p.device.lifecycle :=
      congrArg Progress.lifecycle hcaught
    rw [hsame, hevents, List.nil_append]
    rcases p.progress_serviceControl with ⟨htaken, _⟩ | ⟨_, s, stage, htaken, _⟩ <;>
      simp [h, htaken]

theorem Operation.configures_iff (op : Operation ω) (h : p.device.lifecycle ≠ .configured) :
    (op.run p).device.lifecycle = .configured ↔
      (∃ rest, op.events p = .completed :: rest) ∧ p.device.settled = .configured := by
  by_cases hinterrupt : op = .interrupt
  · subst hinterrupt
    show p.onInterrupt.device.lifecycle = .configured ↔
      (∃ rest, p.interruptEvents = .completed :: rest) ∧ p.device.settled = .configured
    rcases p.progress_onInterrupt with
      ⟨hevents, lifecycle, hne, hserved⟩ | ⟨hevents, hserved⟩ | ⟨q, hq, hsettled, hevents, hserved⟩
    · have hnow : p.onInterrupt.device.lifecycle = lifecycle :=
        congrArg Progress.lifecycle hserved
      rw [hevents, hnow]
      simp [hne]
    · have hnow : p.onInterrupt.device.lifecycle =
          if p.device.lifecycle = .attached then .powered else p.device.lifecycle :=
        congrArg Progress.lifecycle hserved
      rw [hevents, hnow]
      split <;> simp [h]
    · have hnow : p.onInterrupt.device.lifecycle = q.serviceControl.device.lifecycle :=
        congrArg Progress.lifecycle hserved
      have hbefore : q.device.lifecycle = p.device.lifecycle := congrArg Progress.lifecycle hq
      rw [hevents, hnow, ← hsettled]
      rw [← hbefore] at h
      exact serviceControl_configures_iff h
  · by_cases hdetach : op = .detach
    · subst hdetach
      show Lifecycle.detached = .configured ↔
        (∃ rest, [TransferEvent.reset] = .completed :: rest) ∧ _
      simp
    · obtain ⟨hevents, lifecycle, hconfigured, hrun⟩ := op.progress_run p hinterrupt hdetach
      have hnow : (op.run p).device.lifecycle = lifecycle := congrArg Progress.lifecycle hrun
      rw [hevents, hnow]
      constructor
      · exact fun hnew => absurd (hconfigured hnew) h
      · exact fun ⟨⟨_, hnil⟩, _⟩ => by cases hnil

/-- A completed transfer was in flight, so it is the one that began last. -/
theorem Operation.underway_of_completed (op : Operation ω)
    (h : Recorded offered past p.device.progress) {rest : List TransferEvent}
    (hevents : op.events p = .completed :: rest) :
    ∃ before s addressed, past = before ++ [.began s addressed] := by
  cases op with
  | interrupt =>
    rcases p.progress_onInterrupt with ⟨hreset, _⟩ | ⟨hnone, _⟩ | ⟨q, hq, _, hcontrol, _⟩
    · rw [show p.interruptEvents = _ from hevents] at hreset
      cases hreset
    · rw [show p.interruptEvents = _ from hevents] at hnone
      cases hnone
    · rw [show p.interruptEvents = _ from hevents, Link.controlEvents] at hcontrol
      rcases q.progress_caughtUp with ⟨hcut, _⟩ | ⟨_, hstage, _⟩ | ⟨hquiet, _⟩
      · rw [hcut] at hcontrol
        cases hcontrol
      · refine h.underway ?_
        rw [← hq, show q.device.progress.stage = .status from hstage]
        decide
      · rw [hquiet, List.nil_append] at hcontrol
        rcases q.progress_serviceControl with ⟨htaken, _⟩ | ⟨_, s, stage, htaken, _⟩ <;>
          · rw [htaken] at hcontrol
            cases hcontrol
  | _ => cases hevents

end Operations

/-- The choice in force was made by a transfer that was cut off or completed since, and nothing
decided otherwise after that. -/
def LeftOver (offered : UInt8) (past : List TransferEvent) : Prop :=
  ∃ before s addressed ended since, past = before ++ .began s addressed :: ended :: since ∧
    (∃ v, s.choice? offered addressed = some v ∧ v ≠ 0) ∧ (ended = .cut ∨ ended = .completed) ∧
    ∀ e ∈ since, ¬e.Decides offered

/-- The transfer in flight made the choice in force exactly if that is not left over. -/
theorem Recorded.chooses_iff {offered : UInt8} {before : List TransferEvent} {s : Setup}
    {addressed : Bool} {x : Progress} (h : Recorded offered (before ++ [.began s addressed]) x)
    (hchosen : x.configuration ≠ 0) :
    (∃ v, s.choice? offered addressed = some v ∧ v ≠ 0) ↔
      ¬LeftOver offered (before ++ [.began s addressed]) := by
  obtain rfl := h.offered_eq
  constructor
  · rintro ⟨v, hv, _⟩ ⟨before', s', addressed', ended, since, hsplit, _, hended, hsince⟩
    rcases List.eq_nil_or_concat since with rfl | ⟨since', last, rfl⟩
    · have hshape : before ++ [TransferEvent.began s addressed] =
          (before' ++ [.began s' addressed']) ++ [ended] := by
        simpa using hsplit
      have hlast := List.singleton_inj.mp (List.append_inj' hshape rfl).2
      rcases hended with rfl | rfl <;> cases hlast
    · have hshape : before ++ [TransferEvent.began s addressed] =
          (before' ++ .began s' addressed' :: ended :: since') ++ [last] := by
        simpa using hsplit
      have hlast := List.singleton_inj.mp (List.append_inj' hshape rfl).2
      refine hsince last (by simp) ?_
      rw [← hlast]
      show (s.choice? x.offered addressed).isSome
      rw [hv]
      rfl
  · intro hleft
    rw [h.configuration_eq] at hchosen
    obtain ⟨before', s', addressed', since, hsplit, hchoice, hsince⟩ := exists_choice hchosen
    -- Unless the choice was made last, something ended its transfer.
    cases since with
    | nil =>
      cases List.singleton_inj.mp (List.append_inj' hsplit rfl).2
      exact ⟨_, hchoice, hchosen⟩
    | cons e since =>
      have hafter : ∀ e' ∈ since, ¬e'.Decides x.offered :=
        fun e' he' => hsince e' (List.mem_cons_of_mem e he')
      refine absurd ?_ hleft
      cases e with
      | reset => exact absurd trivial (hsince .reset (by simp))
      | began s'' addressed'' =>
        have hnone := h.ends _ _ _ _ _ _ hsplit
        rw [hchoice] at hnone
        cases hnone
      | cut =>
        exact ⟨before', s', addressed', .cut, since, hsplit, ⟨_, hchoice, hchosen⟩, .inl rfl,
          hafter⟩
      | completed =>
        exact ⟨before', s', addressed', .completed, since, hsplit, ⟨_, hchoice, hchosen⟩, .inr rfl,
          hafter⟩

/-- When a device comes to be configured.

From power-on some operations led to `p`, on any hardware, with the history `past`.  The next one
configures the device exactly if it completes a control transfer, the device has an address then,
and a configuration is chosen.  The transfer that it completes is the one that began last, and it is
itself the accepted choice exactly if no choice was left over from a transfer that had been cut off
or completed before. -/
theorem configured_exact {ω : Type} [Controller ω] (descriptors : Descriptors)
    (budget : WaitBudget) (w : ω) (ops : List (Operation ω)) (op : Operation ω) :
    let p := Operation.runAll ops ⟨{ descriptors, budget }, w⟩
    let past := Operation.history ops ⟨{ descriptors, budget }, w⟩
    let offered := descriptors.configurationValue
    (op.Enters p ↔ p.device.lifecycle ≠ .configured ∧
      (∃ rest, op.events p = .completed :: rest) ∧
      Lifecycle.addressed ≤ p.device.readdressed ∧ chosen offered past ≠ 0) ∧
    (op.Enters p → ∃ before s addressed, past = before ++ [.began s addressed] ∧
      ((∃ v, s.choice? offered addressed = some v ∧ v ≠ 0) ↔ ¬LeftOver offered past)) := by
  intro p past offered
  have hstart : Recorded offered [] (Link.mk { descriptors, budget } w).device.progress :=
    recorded_start .detached offered
  have hrecorded : Recorded offered past p.device.progress := Operation.recorded_history ops hstart
  have hconfiguration : p.device.configuration = chosen offered past := by
    rw [← hrecorded.offered_eq]
    exact hrecorded.configuration_eq
  have henters : op.Enters p ↔ p.device.lifecycle ≠ .configured ∧
      (∃ rest, op.events p = .completed :: rest) ∧
      Lifecycle.addressed ≤ p.device.readdressed ∧ chosen offered past ≠ 0 := by
    rw [← hconfiguration, ← Device.settled_eq_configured_iff]
    exact and_congr_right fun hne => op.configures_iff hne
  refine ⟨henters, fun h => ?_⟩
  obtain ⟨_, ⟨rest, hevents⟩, _, hchosen⟩ := henters.mp h
  obtain ⟨before, s, addressed, hsplit⟩ := op.underway_of_completed hrecorded hevents
  refine ⟨before, s, addressed, hsplit, ?_⟩
  rw [hsplit] at hrecorded ⊢
  refine hrecorded.chooses_iff ?_
  show p.device.configuration ≠ 0
  rw [hconfiguration]
  exact hchosen

/-! ## On the bench -/

section Bench

open Bench

/-- The host sends a packet to endpoint 0. -/
def hostSends (packet : List UInt8) : List (Operation FifoController) :=
  [.outside (Driven.deliver .control packet), .outside (Driven.raise { rx := 1 }), .interrupt]

/-- The host collects a packet of endpoint 0, or its closing handshake. -/
def hostCollects : List (Operation FifoController) :=
  [.outside (Driven.raise { tx := 1 }), .interrupt]

/-- The SETUP packet that asks for the status of the device. -/
def statusSetup : Setup :=
  { requestType := 0x80, request := 0, value := 0, index := 0, length := 2 }

/-- The device is plugged in and given an address. -/
def addressing : List (Operation FifoController) :=
  [.attach, .interrupt, .outside (Driven.raise { bus := { reset := true } }), .interrupt] ++
    hostSends (addressSetup 5).toBytes ++ hostCollects

/-- Then a configuration is chosen, but the host cuts the transfer short and asks for the status,
which it is about to acknowledge. -/
def cuttingShort : List (Operation FifoController) :=
  addressing ++ hostSends (configurationSetup 1).toBytes ++
    [.outside (Driven.latch { setupEnd := true })] ++ hostSends statusSetup.toBytes ++
    [.outside (Driven.raise { tx := 1 })]

/-- Then the device is configured, sent back to address 0 and given another address, which the host
is about to acknowledge. -/
def readdressing : List (Operation FifoController) :=
  addressing ++ hostSends (configurationSetup 1).toBytes ++ hostCollects ++
    hostSends (addressSetup 0).toBytes ++ hostCollects ++ hostSends (addressSetup 7).toBytes ++
    [.outside (Driven.raise { tx := 1 })]

/-- A device is configured by the end of a transfer that only asked for its status, because a
SET_CONFIGURATION was cut off before, and by the end of one that only gave it an address, because it
had been configured before. -/
theorem left_over_choice_configures :
    let off : Link FifoController := ⟨{}, {}⟩
    (Operation.Enters .interrupt (Operation.runAll cuttingShort off) ∧
      Operation.history cuttingShort off =
        [.reset, .began (addressSetup 5) false, .completed, .began (configurationSetup 1) true,
          .cut, .began statusSetup true] ∧
      statusSetup.choice? 1 true = none) ∧
    (Operation.Enters .interrupt (Operation.runAll readdressing off) ∧
      Operation.history readdressing off =
        [.reset, .began (addressSetup 5) false, .completed, .began (configurationSetup 1) true,
          .completed, .began (addressSetup 0) true, .completed, .began (addressSetup 7) false] ∧
      (addressSetup 7).choice? 1 false = none) := by
  decide +kernel

end Bench

end FlashProgrammer.Usb

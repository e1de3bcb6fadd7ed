import FlashProgrammer.Proofs.Usb.NotableActions
import FlashProgrammer.Proofs.Usb.QueuedWork

/-!
# The routine of a device

Nearly all that a device asks of its controller is routine: it reads and acknowledges, moves
bytes, takes addresses, sets up endpoints and refuses transfers on endpoint 0.  What it listens for
on the bus and the halts that it sets and clears are not.

`Asks w as w'` says that the controller was asked for `as` and otherwise for routine actions.  A
control transfer asks for one such thing at most, the halt that its SETUP packet names, and bulk
transfers ask for none.  So whoever asks about halts or about bus events needs no account of the
transfers: `Asks.view_eq` says what is left of a view of the hardware.

Apart from the control transfers, an interrupt only attends to the bus (`Link.attends_onInterrupt`).
-/

namespace FlashProgrammer.Usb

/-- An action that neither chooses bus events nor halts a bulk endpoint nor clears a halt. -/
def Action.routine : Action → Bool
  | enableEvents _ | clearStall .. => false
  | stall ep _ => ep = .control
  | _ => true

/-- The halt of an endpoint is set or cleared. -/
structure HaltCommand where
  endpoint : Endpoint
  direction : Direction
  halts : Bool
deriving DecidableEq, Repr

/-- What the controller is asked for then. -/
def HaltCommand.action (c : HaltCommand) : Action :=
  if c.halts then .stall c.endpoint c.direction else .clearStall c.endpoint c.direction

/-- The halt that a SETUP packet sets or clears, if it is an accepted SET_FEATURE or
CLEAR_FEATURE. -/
def Setup.haltCommand? (s : Setup) : Option HaltCommand :=
  if s.kind = .standard ∧ s.recipient = .endpoint ∧ s.value = endpointHalt then
    match StandardRequest.ofByte? s.request, s.endpoint? with
    | some .clearFeature, some (ep, dir) => some ⟨ep, dir, false⟩
    | some .setFeature, some (ep, dir) => if ep = .control then none else some ⟨ep, dir, true⟩
    | _, _ => none
  else none

theorem Setup.haltCommand?_of_not {s : Setup} (h : ¬(s.kind = .standard ∧ s.recipient = .endpoint ∧
    s.value = endpointHalt ∧ (StandardRequest.ofByte? s.request = some .clearFeature ∨
      StandardRequest.ofByte? s.request = some .setFeature))) : s.haltCommand? = none := by
  rw [haltCommand?]
  split
  · next hfeature =>
    obtain ⟨hkind, hrecipient, hvalue⟩ := hfeature
    split
    · next hclear _ => exact absurd ⟨hkind, hrecipient, hvalue, .inl hclear⟩ h
    · next hset _ => exact absurd ⟨hkind, hrecipient, hvalue, .inr hset⟩ h
    · rfl
  · rfl

namespace Link

variable {ω : Type} [Controller ω]

/-- Sets or clears a halt, on both sides. -/
def obey (c : HaltCommand) (p : Link ω) : Link ω :=
  if c.halts then p.halt c.endpoint c.direction else p.clearHalt c.endpoint c.direction

/-- A request sets or clears the halt that it names, or chooses a configuration, or leaves the
controller and the records of the endpoints alone. -/
theorem standardRequest_cases {s : Setup} (hkind : s.kind = .standard) (p : Link ω) :
    (∃ c, s.haltCommand? = some c ∧ (p.standardRequest s).2 = p.obey c) ∨
    (StandardRequest.ofByte? s.request = some .setConfiguration ∧ s.recipient = .device ∧
      Lifecycle.addressed ≤ p.device.lifecycle ∧
      (p.standardRequest s).2 = (p.setConfiguration s.value).2) ∨
    (s.haltCommand? = none ∧
      (∀ offered, s.choice? offered (decide (Lifecycle.addressed ≤ p.device.lifecycle)) = none) ∧
      (p.standardRequest s).2.hw = p.hw ∧
      (p.standardRequest s).2.device.endpoints = p.device.endpoints) := by
  rw [standardRequest]
  split
  case h_4 hrequest hrecipient => -- CLEAR_FEATURE
    have hchoice : ∀ offered addressed, s.choice? offered addressed = none :=
      fun _ _ => if_neg (by simp [hrecipient])
    rw [Setup.haltCommand?, hrequest, hrecipient, hkind]
    by_cases hvalue : s.value = endpointHalt
    · rw [if_pos hvalue, if_pos ⟨rfl, rfl, hvalue⟩]
      cases s.endpoint? with
      | none => exact .inr (.inr ⟨rfl, fun _ => hchoice _ _, rfl, rfl⟩)
      | some e => exact .inl ⟨_, rfl, rfl⟩
    · rw [if_neg hvalue, if_neg fun h => hvalue h.2.2]
      exact .inr (.inr ⟨rfl, fun _ => hchoice _ _, rfl, rfl⟩)
  case h_5 hrequest hrecipient => -- SET_FEATURE
    have hchoice : ∀ offered addressed, s.choice? offered addressed = none :=
      fun _ _ => if_neg (by simp [hrecipient])
    rw [Setup.haltCommand?, hrequest, hrecipient, hkind]
    by_cases hvalue : s.value = endpointHalt
    · rw [if_pos hvalue, if_pos ⟨rfl, rfl, hvalue⟩]
      cases s.endpoint? with
      | none => exact .inr (.inr ⟨rfl, fun _ => hchoice _ _, rfl, rfl⟩)
      | some e =>
        simp only
        split
        · exact .inr (.inr ⟨rfl, fun _ => hchoice _ _, rfl, rfl⟩)
        · exact .inl ⟨_, rfl, rfl⟩
    · rw [if_neg hvalue, if_neg fun h => hvalue h.2.2]
      exact .inr (.inr ⟨rfl, fun _ => hchoice _ _, rfl, rfl⟩)
  case h_10 hrequest hrecipient => -- SET_CONFIGURATION
    by_cases haddressed : Lifecycle.addressed ≤ p.device.lifecycle
    · rw [if_pos haddressed]
      exact .inr (.inl ⟨hrequest, hrecipient, haddressed, rfl⟩)
    · rw [if_neg haddressed]
      refine .inr (.inr ⟨Setup.haltCommand?_of_not (by simp [hrecipient]), fun _ => ?_, rfl, rfl⟩)
      exact if_neg fun h => haddressed (decide_eq_true_iff.mp h.2.2.2)
  -- The others are none of these requests.
  all_goals
    refine .inr (.inr ⟨Setup.haltCommand?_of_not ?_, fun _ => if_neg ?_, ?_⟩)
    · rintro ⟨_, hrecipient, _, hrequest | hrequest⟩ <;> simp_all
    · rintro ⟨_, hrequest, hrecipient, _⟩
      simp_all
    · repeat' split
      all_goals exact ⟨rfl, rfl⟩

theorem hw_obey (c : HaltCommand) (p : Link ω) : (p.obey c).hw = Usb.tell c.action p.hw := by
  rw [obey, HaltCommand.action]
  split <;> rfl

omit [Controller ω] in
theorem hw_setConfiguration (value : UInt16) (p : Link ω) :
    (p.setConfiguration value).2.hw = p.hw := by
  rw [setConfiguration]
  repeat' split
  all_goals rfl

end Link

/-- Between two moments the controller was asked for these actions, and for routine ones. -/
inductive Asks {ω : Type} [Controller ω] (w : ω) : List Action → ω → Prop where
  | refl : Asks w [] w
  | routine {as : List Action} {w' : ω} (h : Asks w as w') {a : Action} (ha : a.routine = true) :
      Asks w as (Controller.perform a w').2
  | asked {as : List Action} {w' : ω} (h : Asks w as w') (a : Action) :
      Asks w (as ++ [a]) (Controller.perform a w').2

variable {ω : Type} [Controller ω]

namespace Asks

theorem trans {as bs : List Action} {u v w : ω} (huv : Asks u as v) (hvw : Asks v bs w) :
    Asks u (as ++ bs) w := by
  induction hvw with
  | refl =>
    rw [List.append_nil]
    exact huv
  | routine _ ha ih => exact .routine ih ha
  | asked _ a ih =>
    rw [← List.append_assoc]
    exact .asked ih a

/-- Routine before what is asked. -/
theorem after {as : List Action} {u v w : ω} (hvw : Asks v as w) (huv : Asks u [] v) :
    Asks u as w := huv.trans hvw

/-- Routine behind what is asked. -/
theorem before {as : List Action} {u v w : ω} (huv : Asks u as v) (hvw : Asks v [] w) :
    Asks u as w := by
  have hboth := huv.trans hvw
  rwa [List.append_nil] at hboth

/-- What is seen of the hardware changes with what was asked for, if every action shows there and
the routine ones make no difference. -/
theorem view_eq {σ : Type} (view : ω → σ) {step : σ → Action → σ}
    (hstep : ∀ a w, view (Controller.perform a w).2 = step (view w) a)
    (hroutine : ∀ a : Action, a.routine = true → ∀ x, step x a = x) {as : List Action} {w w' : ω}
    (h : Asks w as w') : view w' = as.foldl step (view w) := by
  induction h with
  | refl => rfl
  | routine _ ha ih => rw [hstep, hroutine _ ha, ih]
  | asked _ a ih => rw [hstep, ih, List.foldl_append, List.foldl_cons, List.foldl_nil]

end Asks

theorem asks_routine {a : Action} (ha : a.routine = true) (w : ω) :
    Asks w [] (Controller.perform a w).2 := .routine .refl ha

theorem asks_perform (a : Action) (w : ω) : Asks w [a] (Controller.perform a w).2 := .asked .refl a

theorem asks_of_used {w w' : ω} (h : UsedFor (fun a => a.routine = true) w w') : Asks w [] w' :=
  h.relates (fun _ => .refl) Asks.trans asks_routine

/-! ## FIFOs -/

theorem asks_readFifo (ep : Endpoint) (n : Nat) (w : ω) : Asks w [] (readFifo ep n w).2 :=
  asks_of_used (usedFor_readFifo (fun _ => rfl) n w)

theorem asks_writeFifo (ep : Endpoint) (data : List UInt8) (w : ω) :
    Asks w [] (writeFifo ep data w) :=
  asks_of_used (usedFor_writeFifo (fun _ _ => rfl) data w)

namespace Link

/-! ## Data stages -/

theorem asks_tell {a : Action} (ha : a.routine = true) (p : Link ω) : Asks p.hw [] (p.tell a).hw :=
  asks_routine ha p.hw

theorem asks_ask {a : Action} (ha : a.routine = true) (p : Link ω) : Asks p.hw [] (p.ask a).2.hw :=
  asks_routine ha p.hw

theorem asks_stallControl (p : Link ω) : Asks p.hw [] p.stallControl.hw :=
  asks_routine (a := .stall .control .toHost) rfl p.hw

theorem asks_continueIn (p : Link ω) : Asks p.hw [] p.continueIn.hw := by
  have hask := p.asks_ask (a := .txBusy .control) rfl
  rw [continueIn_eq]
  generalize p.ask (.txBusy .control) = asked at hask ⊢
  obtain ⟨_ | _, q⟩ := asked
  · exact (hask.trans (asks_writeFifo .control q.device.nextPacket q.hw)).trans
      (asks_routine (a := .txReady .control q.device.nextIsLast) rfl _)
  · exact hask

theorem asks_dataOutComplete (p : Link ω) : Asks p.hw [] p.dataOutComplete.hw := by
  rw [dataOutComplete]
  simp only
  split
  · exact asks_stallControl _
  · exact .refl

theorem asks_continueOut (p : Link ω) : Asks p.hw [] p.continueOut.hw := by
  have hready := p.asks_ask (a := .rxReady .control) rfl
  rw [continueOut_eq]
  generalize p.ask (.rxReady .control) = asked at hready ⊢
  obtain ⟨_ | _, q⟩ := asked
  · exact hready
  · have hcount : Asks q.hw [] q.counted.2.hw := q.asks_ask (a := .rxCount .control) rfl
    simp only [if_true]
    generalize q.counted = counted at hcount ⊢
    obtain ⟨n, r⟩ := counted
    have hreceived : Asks p.hw [] (r.receiveNext n).hw :=
      ((hready.trans hcount).trans (asks_readFifo .control n r.hw)).trans
        (asks_routine (a := .rxDone .control _) rfl _)
    simp only
    split
    · exact hreceived.trans (asks_dataOutComplete _)
    · exact hreceived

/-! ## Requests -/

theorem asks_carryOut (s : Setup) (reply : ControlReply) (p : Link ω) :
    Asks p.hw [] (p.carryOut s reply).hw := by
  have hreleased : ∀ last, Asks p.hw [] (p.tell (.rxDone .control last)).hw :=
    fun last => p.asks_tell (a := .rxDone .control last) rfl
  cases reply with
  | noData => exact hreleased true
  | stall => exact (hreleased true).trans (asks_stallControl _)
  | data payload =>
    rw [carryOut_data]
    split
    · exact hreleased true
    · exact (hreleased false).trans (asks_continueIn (p.dataInStage s payload))
  | receive =>
    rw [carryOut_receive]
    split
    · exact (hreleased true).trans (asks_dataOutComplete _)
    · exact hreleased false

/-- A request asks the controller to set or clear the halt that it names, and for nothing else. -/
theorem asks_standardRequest {s : Setup} (hkind : s.kind = .standard) (p : Link ω) :
    Asks p.hw (s.haltCommand?.map HaltCommand.action).toList (p.standardRequest s).2.hw := by
  rcases standardRequest_cases hkind p with ⟨c, hcommand, hobeyed⟩ |
      ⟨_, hrecipient, _, hchosen⟩ | ⟨hcommand, _, hsame, _⟩
  · rw [hcommand, hobeyed, hw_obey]
    exact asks_perform c.action p.hw
  · have hcommand : s.haltCommand? = none := Setup.haltCommand?_of_not (by simp [hrecipient])
    rw [hcommand, hchosen, hw_setConfiguration]
    exact .refl
  · rw [hcommand, hsame]
    exact .refl

theorem asks_handleSetup (s : Setup) (p : Link ω) :
    Asks p.hw (s.haltCommand?.map HaltCommand.action).toList (p.handleSetup s).hw := by
  rw [handleSetup]
  by_cases hkind : s.kind = .standard
  · simp only [hkind]
    exact (asks_standardRequest hkind { p with device.setup := some s }).before
      (asks_carryOut s _ _)
  · have hnone : s.haltCommand? = none := Setup.haltCommand?_of_not fun hfeature => hkind hfeature.1
    have hrefused : Asks p.hw [] (carryOut s .stall { p with device.setup := some s }).hw :=
      asks_carryOut s .stall _
    rw [hnone]
    cases hk : s.kind with
    | standard => exact absurd hk hkind
    | deviceClass | vendor | reserved => exact hrefused

/-! ## Endpoint 0 -/

/-- The closing handshake takes an address and arms endpoints. -/
theorem usedFor_completeStatus {kind : Action → Prop}
    (haddress : ∀ address, kind (.setAddress address))
    (harm : ∀ ep dir, kind (.configure ep dir maxPacket true)) (p : Link ω) :
    UsedFor kind p.hw p.completeStatus.hw := by
  have harmed : ∀ (es : List (Endpoint × Direction)) (q : Link ω),
      UsedFor kind q.hw (es.foldl armEndpoint q).hw := by
    intro es
    induction es with
    | nil => exact fun _ => .refl
    | cons e es ih =>
      intro q
      have hone : UsedFor kind q.hw (armEndpoint q e).hw := by
        rw [armEndpoint]
        split
        · exact usedFor_perform (harm e.1 e.2) q.hw
        · exact .refl
      exact hone.trans (ih (armEndpoint q e))
  have htaken : UsedFor kind p.hw p.takeAddress.hw := by
    rw [takeAddress]
    cases p.device.pendingAddress with
    | none => exact .refl
    | some address => exact usedFor_perform (haddress address) p.hw
  have hsettled : p.takeAddress.settleConfiguration.hw = p.takeAddress.hw := by
    rw [settleConfiguration]
    split <;> rfl
  have hdone : p.completeStatus.hw =
      (bulkEndpoints.foldl armEndpoint p.takeAddress.settleConfiguration).hw := by
    rw [completeStatus]
  have hbulk := harmed bulkEndpoints p.takeAddress.settleConfiguration
  rw [hsettled] at hbulk
  rw [hdone]
  exact htaken.trans hbulk

theorem asks_completeStatus (p : Link ω) : Asks p.hw [] p.completeStatus.hw :=
  asks_of_used (usedFor_completeStatus (fun _ => rfl) (fun _ _ => rfl) p)

theorem asks_caughtUp (p : Link ω) : Asks p.hw [] p.caughtUp.hw := by
  have hask := p.asks_ask (a := .controlEvents) rfl
  rcases p.caughtUp_cases with ⟨_, hcaught⟩ | ⟨_, _, hcaught⟩ | ⟨_, _, hcaught⟩
  · rw [hcaught]
    exact hask
  · rw [hcaught]
    exact hask.trans (asks_completeStatus _)
  · rw [hcaught]
    exact hask

theorem asks_offered {p q : Link ω} {s : Setup} (h : p.offered? = some (s, q)) :
    Asks p.hw [] q.hw := by
  have hcount := p.asks_ask (a := .rxCount .control) rfl
  rw [offered?] at h
  simp only at h
  split at h
  · cases h
    exact hcount.trans (asks_readFifo .control Setup.size _)
  · cases h

/-- What serving endpoint 0 asks for beside the routine. -/
def controlAsks (p : Link ω) : List Action :=
  ((p.takenSetup?.bind fun taken => taken.1.haltCommand?).map HaltCommand.action).toList

/-- A control transfer asks for the halt that its SETUP packet names, and for nothing else. -/
theorem asks_serviceControl (p : Link ω) : Asks p.hw p.controlAsks p.serviceControl.hw := by
  have hcaught := p.asks_caughtUp
  have hready := p.caughtUp.asks_ask (a := .rxReady .control) rfl
  rw [controlAsks]
  rcases p.serviceControl_shapes with ⟨_, htaken, hserved⟩ | ⟨_, htaken, hserved⟩ |
      ⟨_, htaken, hserved | hserved⟩ | ⟨_, s, q, htaken, hoffered, hserved⟩
  · rw [htaken, hserved]
    exact hcaught.trans (asks_continueIn _)
  · rw [htaken, hserved]
    exact hcaught.trans (asks_continueOut _)
  · rw [htaken, hserved]
    exact hcaught.trans hready
  · rw [htaken, hserved]
    have hcount := (p.caughtUp.ask (.rxReady .control)).2.asks_ask (a := .rxCount .control) rfl
    have hreleased := asks_tell (a := .rxDone .control true) rfl
      ((p.caughtUp.ask (.rxReady .control)).2.ask (.rxCount .control)).2
    exact (((hcaught.trans hready).trans hcount).trans hreleased).trans (asks_stallControl _)
  · rw [htaken, hserved]
    exact (q.asks_handleSetup s).after ((hcaught.trans hready).trans (asks_offered hoffered))

end Link

/-! ## Bulk transfers -/

/-- Moving bulk data is routine. -/
theorem Operation.asks_bulk {op : Operation ω} (h : op.MovesBulk) (p : Link ω) :
    Asks p.hw [] (op.run p).hw := by
  have htakes : ∀ a : Action, a.TakesBulk → a.routine = true := by
    rintro _ ⟨e, _, ha⟩
    cases ha <;> rfl
  have hsends : ∀ a : Action, a.SendsBulk → a.routine = true := by
    rintro _ ⟨e, _, ha⟩
    cases ha <;> rfl
  cases op with
  | rxPending ep => exact asks_of_used (talksFor_rxPending (fun _ => rfl) ep p).used
  | readPacket ep room => exact asks_of_used ((talksFor_readPacket ep room p).used.mono htakes)
  | fill ep buffer =>
    exact asks_of_used ((talksFor_gather ep buffer.length buffer.length p).used.mono htakes)
  | write ep data => exact asks_of_used ((talksFor_write ep data p).used.mono hsends)
  | attach | detach | interrupt | takeWork | stallEndpoint | outside => exact h.elim

/-! ## Interrupts -/

/-- An action that attends to the bus, and moves no packet and touches no halt. -/
def Action.attends : Action → Bool
  | interrupts | enableEvents _ | connect | disconnect | setAddress _ | configure .. => true
  | _ => false

/-- Between two moments the controller was only asked to attend to the bus. -/
inductive Attends {ω : Type} [Controller ω] (w : ω) : ω → Prop where
  | refl : Attends w w
  | step {w' : ω} (h : Attends w w') {a : Action} (ha : a.attends = true) :
      Attends w (Controller.perform a w').2

theorem Attends.trans {u v w : ω} (huv : Attends u v) (hvw : Attends v w) : Attends u w := by
  induction hvw with
  | refl => exact huv
  | step _ ha ih => exact .step ih ha

theorem attends_perform {a : Action} (ha : a.attends = true) (w : ω) :
    Attends w (Controller.perform a w).2 := .step .refl ha

theorem attends_of_used {w w' : ω} (h : UsedFor (fun a => a.attends = true) w w') :
    Attends w w' := by
  induction h with
  | refl => exact .refl
  | step _ ha ih => exact .step ih ha

namespace Link

theorem attends_completeStatus (p : Link ω) : Attends p.hw p.completeStatus.hw :=
  attends_of_used (usedFor_completeStatus (fun _ => rfl) (fun _ _ => rfl) p)

theorem attends_roused (p : Link ω) : Attends p.hw p.roused.2.hw := by
  have hask : Attends p.hw (p.ask .interrupts).2.hw := attends_perform rfl p.hw
  rw [roused]
  generalize p.ask .interrupts = asked at hask ⊢
  obtain ⟨status, q⟩ := asked
  have hpowered : Attends p.hw q.powerUp.hw := by
    rw [powerUp]
    split
    · exact hask.step (a := .enableEvents _) rfl
    · exact hask
  simp only
  split
  · exact hpowered.step (a := .enableEvents _) rfl
  · exact hpowered

theorem attends_dozed (p : Link ω) : Attends p.hw p.dozed.hw := by
  rw [dozed]
  split
  · exact p.attends_roused.step (a := .enableEvents _) rfl
  · exact p.attends_roused

theorem attends_busReset (p : Link ω) : Attends p.hw p.busReset.hw :=
  ((attends_perform (a := .setAddress 0) rfl p.hw).step
    (a := .configure .control .toDevice maxPacket false) rfl).step
    (a := .configure .control .toHost maxPacket false) rfl

/-- An interrupt attends to the bus, and then it may serve endpoint 0. -/
theorem attends_onInterrupt (p : Link ω) :
    (Attends p.hw p.onInterrupt.hw ∧ (p.interruptEvents = [] ∨ p.interruptEvents = [.reset])) ∨
      ∃ q : Link ω, Attends p.hw q.hw ∧ p.onInterrupt.hw = q.serviceControl.hw ∧
        p.interruptEvents = q.controlEvents := by
  rcases p.onInterrupt_cases with ⟨_, _, hevents, hserved⟩ | ⟨_, _, hevents, hserved⟩ |
      ⟨_, _, hevents, q, works, hq, hserved⟩ | ⟨q, works, _, _, _, hq, hevents, hserved⟩
  · refine .inl ⟨?_, .inr hevents⟩
    rw [hserved]
    exact (attends_perform (a := .interrupts) rfl p.hw).step (a := .disconnect) rfl
  · refine .inl ⟨?_, .inr hevents⟩
    rw [hserved]
    exact p.attends_roused.trans (attends_busReset _)
  · refine .inl ⟨?_, .inl hevents⟩
    rw [hserved, hw_foldl_note]
    rcases hq with rfl | rfl
    · exact p.attends_roused
    · exact p.attends_dozed
  · refine .inr ⟨q, ?_, ?_, hevents⟩
    · rw [hq]
      exact p.attends_dozed
    · rw [hserved, hw_foldl_note]

end Link

/-! ## Nothing but the controller -/

theorem Asks.used {as : List Action} {w w' : ω} (h : Asks w as w') : Used w w' := by
  induction h with
  | refl => exact .refl
  | routine _ _ ih | asked _ _ ih => exact .step ih _

theorem Attends.used {w w' : ω} (h : Attends w w') : Used w w' := by
  induction h with
  | refl => exact .refl
  | step _ _ ih => exact .step ih _

/-- An interrupt is served with the controller only. -/
theorem Link.used_onInterrupt (p : Link ω) : Used p.hw p.onInterrupt.hw := by
  rcases p.attends_onInterrupt with ⟨hattends, _⟩ | ⟨q, hattends, hserved, _⟩
  · exact hattends.used
  · rw [hserved]
    exact hattends.used.trans q.asks_serviceControl.used

/-- Whatever a device does, it does with the controller. -/
theorem Operation.used_run {op : Operation ω} (hop : ∀ f, op ≠ .outside f) (p : Link ω) :
    Used p.hw (op.run p).hw := by
  cases op with
  | attach =>
    exact (talks_tell .connect p).used.trans (used_perform (.enableEvents _) _)
  | detach =>
    exact (talks_tell .disconnect p).used.trans (used_perform (.enableEvents _) _)
  | interrupt => exact p.used_onInterrupt
  | takeWork => exact .refl
  | rxPending | readPacket | fill | write => exact (talks_run (by trivial) p).used
  | stallEndpoint ep dir => exact used_stallEndpoint ep dir p
  | outside f => exact absurd rfl (hop f)

end FlashProgrammer.Usb

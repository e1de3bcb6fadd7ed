import FlashProgrammer.Proofs.Trace.Sightings
import FlashProgrammer.Proofs.Trace.TracedOperations
import FlashProgrammer.Proofs.Usb.EndpointZero

/-!
# What a device tells its controller

Most of what a device asks of its controller is routine.  Notable are the addresses it
takes, the endpoints it sets up and what it sends on endpoint 0.

Those it tells its controller in three places only: a bus reset, the closing handshake and
the packets of a data stage.  `notable_asked` says so of every run, on any hardware, and
names the actions one by one.
-/

namespace FlashProgrammer.Usb

open Trace

/-- An action that gives the device an address, sets up an endpoint or sends on endpoint 0. -/
def Action.notable : Action → Bool
  | setAddress _ | configure .. => true
  | fifoWrite ep .. | txReady ep _ => ep = .control
  | _ => false

/-- Sending on another endpoint than endpoint 0 is not notable. -/
theorem Action.notable_of_sendsBulk {a : Action} (h : a.SendsBulk) : a.notable = false := by
  obtain ⟨e, he, ha⟩ := h
  cases ha with
  | txBusy => rfl
  | fifoWrite _ _ => exact decide_eq_false he
  | txReady _ => exact decide_eq_false he

/-! ## What is told -/

/-- What a bus reset tells the controller. -/
def resetActions : List Action :=
  [.setAddress 0, .configure .control .toDevice maxPacket false,
    .configure .control .toHost maxPacket false]

namespace Device

/-- The endpoints that wait to be armed. -/
def unarmed (d : Device) : List (Endpoint × Direction) :=
  Link.bulkEndpoints.filter fun e => (d.endpoints.get e.1 e.2).needsArming

/-- What the closing handshake tells the controller. -/
def handshakeActions (d : Device) : List Action :=
  (d.pendingAddress.map Action.setAddress).toList ++
    d.unarmed.map fun e => .configure e.1 e.2 maxPacket true

/-- What the next packet of a data stage tells the controller. -/
def packetActions (d : Device) : List Action :=
  fifoWrites .control d.nextPacket ++ [.txReady .control d.nextIsLast]

end Device

namespace Link

variable {ω : Type} [Controller ω]

/-- The device that sends the next packet of a data stage, if the last one has been collected. -/
def freeToSend? (p : Link ω) : Option Device :=
  if (p.ask (.txBusy .control)).1 then none else some p.device

/-- The device that sends a packet when endpoint 0 is served, if one is sent. -/
def sender? (p : Link ω) : Option Device := p.sends?.bind freeToSend?

/-- What serving endpoint 0 tells the controller. -/
def controlActions (p : Link ω) : List Action :=
  (if p.caughtEvents = [.completed] then p.device.handshakeActions else []) ++
    p.sender?.elim [] Device.packetActions

/-- A bus reset is served. -/
def servesReset (p : Link ω) : Bool :=
  !p.roused.1.bus.disconnect && !p.roused.2.device.suspended && p.roused.1.bus.reset

/-- The link when endpoint 0 is served, if an interrupt comes to it. -/
def atControl? (p : Link ω) : Option (Link ω) :=
  p.reached?.bind fun (s, q) =>
    if s.pending 0 then some { q with device.current := some ⟨0, .toDevice⟩ } else none

/-- What an interrupt tells the controller. -/
def interruptActions (p : Link ω) : List Action :=
  if p.servesReset then resetActions else p.atControl?.elim [] controlActions

/-! ## The shape of an interrupt -/

/-- The link when an interrupt comes to the endpoints. -/
def dozed (p : Link ω) : Link ω :=
  if p.roused.1.bus.suspend then p.roused.2.sleep else p.roused.2

theorem onInterrupt_of_awake {p : Link ω} (hdisconnect : p.roused.1.bus.disconnect = false)
    (hawake : p.roused.2.device.suspended = false) (hreset : p.roused.1.bus.reset = false) :
    p.onInterrupt = p.dozed.serviceEndpoints p.roused.1 := by
  rw [onInterrupt_eq, hdisconnect, hawake, serviceBus_of_no_reset hreset]
  rfl

/-- A device that was not reset has no endpoints to serve. -/
theorem onInterrupt_of_below {p : Link ω} (hdisconnect : p.roused.1.bus.disconnect = false)
    (hawake : p.roused.2.device.suspended = false) (hreset : p.roused.1.bus.reset = false)
    (h : p.dozed.device.lifecycle < .waiting) : p.onInterrupt = p.dozed := by
  rw [onInterrupt_of_awake hdisconnect hawake hreset]
  exact if_pos h

/-- An interrupt clears everything, or comes to endpoint 0, or does nothing of this kind. -/
theorem onInterrupt_cases (p : Link ω) :
    (p.servesReset = false ∧ p.atControl? = none ∧ p.interruptEvents = [.reset] ∧
      p.onInterrupt = (p.ask .interrupts).2.unplug) ∨
    (p.servesReset = true ∧ p.atControl? = none ∧ p.interruptEvents = [.reset] ∧
      p.onInterrupt = p.roused.2.busReset) ∨
    (p.servesReset = false ∧ p.atControl? = none ∧ p.interruptEvents = [] ∧
      ∃ (q : Link ω) (works : List Work), (q = p.roused.2 ∨ q = p.dozed) ∧
        p.onInterrupt = works.foldl note q) ∨
    (∃ (q : Link ω) (works : List Work), p.servesReset = false ∧ p.atControl? = some q ∧
      ¬p.device.lifecycle < .waiting ∧ q = { p.dozed with device.current := some ⟨0, .toDevice⟩ } ∧
      p.interruptEvents = q.controlEvents ∧ p.onInterrupt = works.foldl note q.serviceControl) := by
  have hkept := progress_roused_of_waiting (p := p)
  rw [onInterrupt_eq, interruptEvents, servesReset, atControl?, reached?, dozed]
  generalize p.roused = roused at hkept ⊢
  obtain ⟨status, r⟩ := roused
  simp only
  cases hdisconnect : status.bus.disconnect with
  | true => exact .inl ⟨rfl, rfl, rfl, rfl⟩
  | false =>
    cases hsuspended : r.device.suspended with
    | true => exact .inr (.inr (.inl ⟨rfl, rfl, rfl, r, [], .inl rfl, rfl⟩))
    | false =>
      cases hreset : status.bus.reset with
      | true =>
        refine .inr (.inl ⟨rfl, rfl, rfl, ?_⟩)
        rw [serviceBus, hreset]
        rfl
      | false =>
        rw [serviceBus_of_no_reset hreset]
        have hlifecycle : (if status.bus.suspend then r.sleep else r).device.lifecycle =
            r.device.lifecycle := by
          split <;> rfl
        generalize (if status.bus.suspend then r.sleep else r) = q at hlifecycle ⊢
        simp only [Bool.false_eq_true, if_false, Bool.or_self, serviceEndpoints]
        by_cases hwaiting : q.device.lifecycle < .waiting
        · simp only [hwaiting, if_true]
          exact .inr (.inr (.inl ⟨rfl, rfl, trivial, q, [], .inr rfl, rfl⟩))
        · simp only [hwaiting, if_false, serviceEndpointZero, Option.bind_some]
          rw [hlifecycle] at hwaiting
          have hsame : r.device.lifecycle = p.device.lifecycle :=
            congrArg Progress.lifecycle (hkept hwaiting)
          cases status.pending 0 with
          | false =>
            exact .inr (.inr (.inl ⟨rfl, rfl, rfl, q, bulkWork status, .inr rfl, rfl⟩))
          | true =>
            exact .inr (.inr (.inr ⟨_, bulkWork status, rfl, rfl, hsame ▸ hwaiting, rfl, rfl, rfl⟩))

/-- What was latched cut the transfer off, or it was completed, or it goes on. -/
theorem caughtUp_cases (p : Link ω) :
    (p.caughtEvents = [.cut] ∧ p.caughtUp = (p.ask .controlEvents).2.abortControl) ∨
    (p.caughtEvents = [.completed] ∧ p.device.stage = .status ∧
      p.caughtUp = (p.ask .controlEvents).2.completeStatus) ∨
    (p.caughtEvents = [] ∧ p.device.stage ≠ .status ∧
      p.caughtUp = (p.ask .controlEvents).2) := by
  have hdevice := (talks_ask .controlEvents p).device_eq
  rw [caughtEvents, caughtUp, ← hdevice]
  generalize p.ask .controlEvents = asked
  obtain ⟨events, q⟩ := asked
  simp only
  cases events.sentStall || events.setupEnd with
  | true => exact .inl ⟨rfl, rfl⟩
  | false =>
    simp only [Bool.false_eq_true, if_false]
    by_cases hstatus : q.device.stage = .status
    · rw [if_pos hstatus, if_pos hstatus]
      exact .inr (.inl ⟨rfl, hstatus, rfl⟩)
    · rw [if_neg hstatus, if_neg hstatus]
      exact .inr (.inr ⟨rfl, hstatus, rfl⟩)

/-- Then no handshake is waited for. -/
theorem stage_caughtUp (p : Link ω) : p.caughtUp.device.stage ≠ .status := by
  rcases p.caughtUp_cases with ⟨_, hcaught⟩ | ⟨_, _, hcaught⟩ | ⟨_, hstage, hcaught⟩
  · rw [hcaught]
    exact nofun
  · rw [hcaught]
    exact nofun
  · rw [hcaught]
    exact hstage

/-- Then a data stage goes on, or nothing is in flight and maybe a SETUP packet is acted on. -/
theorem serviceControl_shapes (p : Link ω) :
    (p.caughtUp.device.stage = .dataIn ∧ p.takenSetup? = none ∧
      p.serviceControl = p.caughtUp.continueIn) ∨
    (p.caughtUp.device.stage = .dataOut ∧ p.takenSetup? = none ∧
      p.serviceControl = p.caughtUp.continueOut) ∨
    (p.caughtUp.device.stage = .idle ∧ p.takenSetup? = none ∧
      (p.serviceControl = (p.caughtUp.ask (.rxReady .control)).2 ∨
        p.serviceControl = (((p.caughtUp.ask (.rxReady .control)).2.ask (.rxCount .control)).2.tell
          (.rxDone .control true)).stallControl)) ∨
    (p.caughtUp.device.stage = .idle ∧ ∃ s q, p.takenSetup? = some (s, q) ∧
      (p.caughtUp.ask (.rxReady .control)).2.offered? = some (s, q) ∧
      p.serviceControl = q.handleSetup s) := by
  rw [serviceControl_eq, takenSetup?]
  have hstatus := p.stage_caughtUp
  generalize p.caughtUp = c at hstatus ⊢
  cases hstage : c.device.stage with
  | dataIn => exact .inl ⟨rfl, rfl, rfl⟩
  | dataOut => exact .inr (.inl ⟨rfl, rfl, rfl⟩)
  | status => exact absurd hstage hstatus
  | idle =>
    simp only
    generalize c.ask (.rxReady .control) = asked
    obtain ⟨_ | _, q⟩ := asked
    · exact .inr (.inr (.inl ⟨trivial, rfl, .inl rfl⟩))
    · simp only [if_true]
      rw [receiveSetup_eq]
      cases q.offered? with
      | none => exact .inr (.inr (.inl ⟨trivial, rfl, .inr rfl⟩))
      | some offered => exact .inr (.inr (.inr ⟨trivial, offered.1, offered.2, rfl, rfl, rfl⟩))

/-! ## What a trace shows -/

section Trace

theorem unseen_ask {a : Action} (h : a.notable = false) (p : Link (Traced ω)) :
    Sees Action.notable [] p.hw (p.ask a).2.hw := unseen_perform h p.hw

section Rousing

variable {look : Action → Bool} (hread : look .interrupts = false)
  (hlisten : ∀ events, look (.enableEvents events) = false)

include hread hlisten

/-- Power and a wake-up only show in what is listened for. -/
theorem unseen_roused (p : Link (Traced ω)) : Sees look [] p.hw p.roused.2.hw := by
  have hask : Sees look [] p.hw (p.ask .interrupts).2.hw :=
    unseen_perform (a := .interrupts) hread p.hw
  rw [roused]
  generalize p.ask .interrupts = asked at hask ⊢
  obtain ⟨status, q⟩ := asked
  have hpowered : Sees look [] p.hw q.powerUp.hw := by
    rw [powerUp]
    split
    · exact hask.trans (unseen_perform (a := .enableEvents _) (hlisten _) q.hw)
    · exact hask
  simp only
  split
  · exact hpowered.trans (unseen_perform (a := .enableEvents _) (hlisten _) q.powerUp.hw)
  · exact hpowered

theorem unseen_dozed (p : Link (Traced ω)) : Sees look [] p.hw p.dozed.hw := by
  have hroused := unseen_roused hread hlisten p
  rw [dozed]
  split
  · exact hroused.trans (unseen_perform (a := .enableEvents _) (hlisten _) p.roused.2.hw)
  · exact hroused

end Rousing

/-- A bus reset takes address 0 and sets endpoint 0 up in both directions. -/
theorem drives_busReset (p : Link (Traced ω)) : Drives resetActions p.hw p.busReset.hw :=
  ((drives_perform (.setAddress 0) p.hw).trans
    (drives_perform (.configure .control .toDevice maxPacket false) _)).trans
    (drives_perform (.configure .control .toHost maxPacket false) _)

/-- A packet is told of as a whole. -/
theorem sees_sendNext (p : Link (Traced ω)) :
    Sees Action.notable p.device.packetActions p.hw p.sendNext.hw := by
  have hnotable : ∀ width value, (Action.fifoWrite .control width value).notable = true :=
    fun _ _ => rfl
  have hwritten := sees_writeFifo hnotable p.device.nextPacket p.hw
  exact hwritten.trans (sees_perform (a := .txReady .control p.device.nextIsLast) rfl _)

theorem sees_continueIn (p : Link (Traced ω)) :
    Sees Action.notable (p.freeToSend?.elim [] Device.packetActions) p.hw p.continueIn.hw := by
  have hask := p.unseen_ask (a := .txBusy .control) rfl
  rw [continueIn_eq, freeToSend?]
  split
  · exact hask
  · exact (sees_sendNext (p.ask (.txBusy .control)).2).after hask

theorem unseen_dataOutComplete (p : Link (Traced ω)) :
    Sees Action.notable [] p.hw p.dataOutComplete.hw := by
  rw [dataOutComplete]
  simp only
  split
  · exact unseen_perform (a := .stall .control .toHost) rfl p.hw
  · exact sees_refl p.hw

theorem unseen_continueOut (p : Link (Traced ω)) :
    Sees Action.notable [] p.hw p.continueOut.hw := by
  have hready := p.unseen_ask (a := .rxReady .control) rfl
  rw [continueOut_eq]
  generalize p.ask (.rxReady .control) = asked at hready ⊢
  obtain ⟨_ | _, q⟩ := asked
  · exact hready
  · have hcount : Sees Action.notable [] q.hw q.counted.2.hw :=
      q.unseen_ask (a := .rxCount .control) rfl
    simp only [if_true]
    generalize q.counted = counted at hcount ⊢
    obtain ⟨n, r⟩ := counted
    have hreceived : Sees Action.notable [] p.hw (r.receiveNext n).hw :=
      ((hready.trans hcount).trans (unseen_readFifo (fun _ => rfl) n r.hw)).trans
        (unseen_perform (a := .rxDone .control _) rfl _)
    simp only
    split
    · exact hreceived.trans (unseen_dataOutComplete _)
    · exact hreceived

theorem unseen_standardRequest (s : Setup) (p : Link (Traced ω)) :
    Sees Action.notable [] p.hw (p.standardRequest s).2.hw := by
  have hconfigured : Sees Action.notable [] p.hw (p.setConfiguration s.value).2.hw := by
    rw [setConfiguration]
    repeat' split
    all_goals exact sees_refl p.hw
  rw [standardRequest]
  repeat' split
  all_goals first
    | exact sees_refl p.hw
    | exact unseen_perform (a := .clearStall _ _) rfl p.hw
    | exact unseen_perform (a := .stall _ _) rfl p.hw
    | exact hconfigured

/-- Acting on a SETUP packet tells of the first packet of an answer and of nothing else. -/
theorem sees_handleSetup (s : Setup) (p : Link (Traced ω)) :
    Sees Action.notable (((p.answers? s).bind freeToSend?).elim [] Device.packetActions) p.hw
      (p.handleSetup s).hw := by
  have hanswered := unseen_standardRequest s { p with device.setup := some s }
  have hreleased : ∀ (q : Link (Traced ω)) last, Sees Action.notable [] p.hw q.hw →
      Sees Action.notable [] p.hw (q.tell (.rxDone .control last)).hw :=
    fun q last h => h.trans (unseen_perform (a := .rxDone .control last) rfl q.hw)
  have hstalled : ∀ q : Link (Traced ω), Sees Action.notable [] p.hw q.hw →
      Sees Action.notable [] p.hw q.stallControl.hw :=
    fun q h => h.trans (unseen_perform (a := .stall .control .toHost) rfl q.hw)
  rw [handleSetup, answers?]
  cases s.kind with
  | standard =>
    simp only
    generalize standardRequest s { p with device.setup := some s } = answered at hanswered ⊢
    obtain ⟨reply, q⟩ := answered
    have hdone := hreleased q true hanswered
    cases reply with
    | noData => exact hdone
    | stall => exact hstalled _ hdone
    | data payload =>
      simp only [carryOut_data]
      split
      · exact hdone
      · exact (sees_continueIn (q.dataInStage s payload)).after (hreleased q false hanswered)
    | receive =>
      simp only [carryOut_receive]
      split
      · exact hdone.trans (unseen_dataOutComplete _)
      · exact hreleased q false hanswered
  | deviceClass | vendor | reserved => exact hstalled _ (hreleased p true (sees_refl p.hw))

/-- Arming tells of each endpoint that waited for it. -/
theorem sees_arming {es : List (Endpoint × Direction)} (hes : es.Nodup) (p : Link (Traced ω)) :
    Sees Action.notable
      ((es.filter fun e => (p.device.endpoints.get e.1 e.2).needsArming).map fun e =>
        .configure e.1 e.2 maxPacket true)
      p.hw (es.foldl armEndpoint p).hw := by
  induction es generalizing p with
  | nil => exact sees_refl p.hw
  | cons e es ih =>
    obtain ⟨hfirst, hrest⟩ := List.nodup_cons.mp hes
    have hkept : ∀ e' ∈ es, ((armEndpoint p e).device.endpoints.get e'.1 e'.2).needsArming =
        (p.device.endpoints.get e'.1 e'.2).needsArming := by
      intro e' he'
      have hother : ¬(e.1 = e'.1 ∧ e.2 = e'.2) :=
        fun hsame => hfirst (Prod.ext hsame.1 hsame.2 ▸ he')
      rw [armEndpoint]
      split
      · rw [tell, setStatus, PerDirection.get_modify, if_neg hother]
      · rfl
    have hothers := ih hrest (armEndpoint p e)
    rw [List.filter_congr hkept] at hothers
    rw [List.foldl_cons, List.filter_cons]
    split
    · next hwaits =>
      have harmed : Sees Action.notable [.configure e.1 e.2 maxPacket true] p.hw
          (armEndpoint p e).hw := by
        rw [armEndpoint, if_pos hwaits]
        exact sees_perform rfl p.hw
      exact harmed.trans hothers
    · next hready =>
      have hsame : armEndpoint p e = p := by rw [armEndpoint, if_neg hready]
      rw [hsame] at hothers ⊢
      exact hothers

/-- The address is told of, and then each endpoint that waited to be armed. -/
theorem sees_completeStatus (p : Link (Traced ω)) :
    Sees Action.notable p.device.handshakeActions p.hw p.completeStatus.hw := by
  have htaken : Sees Action.notable (p.device.pendingAddress.map Action.setAddress).toList p.hw
      p.takeAddress.hw := by
    rw [takeAddress]
    cases p.device.pendingAddress with
    | none => exact sees_refl p.hw
    | some address => exact sees_perform (a := .setAddress address) rfl p.hw
  have hsettled : p.takeAddress.settleConfiguration.hw = p.takeAddress.hw ∧
      p.takeAddress.settleConfiguration.device.endpoints = p.device.endpoints := by
    rw [settleConfiguration, takeAddress]
    cases p.device.pendingAddress <;> (simp only; split <;> exact ⟨rfl, rfl⟩)
  have hdistinct : bulkEndpoints.Nodup := by decide
  have harmed := sees_arming hdistinct p.takeAddress.settleConfiguration
  have hdone : p.completeStatus.hw =
      (bulkEndpoints.foldl armEndpoint p.takeAddress.settleConfiguration).hw := by
    rw [completeStatus]
  rw [hsettled.1, hsettled.2] at harmed
  rw [hdone, Device.handshakeActions, Device.unarmed]
  exact htaken.trans harmed

/-- Serving endpoint 0 tells of a completed transfer and of a packet for the host. -/
theorem sees_serviceControl (p : Link (Traced ω)) :
    Sees Action.notable p.controlActions p.hw p.serviceControl.hw := by
  have hask := p.unseen_ask (a := .controlEvents) rfl
  have hcaught : Sees Action.notable
      (if p.caughtEvents = [.completed] then p.device.handshakeActions else []) p.hw
      p.caughtUp.hw := by
    rcases p.caughtUp_cases with ⟨hevents, hc⟩ | ⟨hevents, _, hc⟩ | ⟨hevents, _, hc⟩
    · rw [hevents, hc]
      exact hask
    · rw [hevents, hc]
      exact (sees_completeStatus (p.ask .controlEvents).2).after hask
    · rw [hevents, hc]
      exact hask
  have hready := p.caughtUp.unseen_ask (a := .rxReady .control) rfl
  refine hcaught.trans ?_
  rw [sender?, sends?]
  rcases p.serviceControl_shapes with ⟨hstage, htaken, hserved⟩ | ⟨hstage, htaken, hserved⟩ |
      ⟨hstage, htaken, hserved | hserved⟩ | ⟨hstage, s, q, htaken, hoffered, hserved⟩
  · rw [if_pos hstage, hserved]
    exact sees_continueIn p.caughtUp
  · rw [if_neg (by rw [hstage]; decide), htaken, hserved]
    exact unseen_continueOut p.caughtUp
  · rw [if_neg (by rw [hstage]; decide), htaken, hserved]
    exact hready
  · rw [if_neg (by rw [hstage]; decide), htaken, hserved]
    exact ((hready.trans (unseen_ask (a := .rxCount .control) rfl _)).trans
      (unseen_perform (a := .rxDone .control true) rfl _)).trans
      (unseen_perform (a := .stall .control .toHost) rfl _)
  · rw [if_neg (by rw [hstage]; decide), htaken, hserved]
    have hread : Sees Action.notable [] p.caughtUp.hw q.hw := by
      have hcount := unseen_ask (a := .rxCount .control) rfl (p.caughtUp.ask (.rxReady .control)).2
      rw [offered?] at hoffered
      simp only at hoffered
      split at hoffered
      · cases hoffered
        exact (hready.trans hcount).trans (unseen_readFifo (fun _ => rfl) Setup.size _)
      · cases hoffered
    exact (sees_handleSetup s q).after hread

theorem sees_onInterrupt (p : Link (Traced ω)) :
    Sees Action.notable p.interruptActions p.hw p.onInterrupt.hw := by
  have hnote : ∀ (works : List Work) (q : Link (Traced ω)), (works.foldl note q).hw = q.hw := by
    intro works
    induction works with
    | nil => exact fun _ => rfl
    | cons work works ih => exact fun q => ih (q.note work)
  rw [interruptActions]
  rcases p.onInterrupt_cases with ⟨hreset, hcontrol, _, hserved⟩ | ⟨hreset, _, _, hserved⟩ |
      ⟨hreset, hcontrol, _, q, works, hq, hserved⟩ |
      ⟨q, works, hreset, hcontrol, _, hq, _, hserved⟩
  · rw [hreset, hcontrol, hserved]
    exact (p.unseen_ask (a := .interrupts) rfl).trans (unseen_perform (a := .disconnect) rfl _)
  · rw [hreset, hserved]
    exact (p.roused.2.drives_busReset.sees Action.notable).after
      (unseen_roused rfl (fun _ => rfl) p)
  · rw [hreset, hcontrol, hserved, hnote]
    rcases hq with rfl | rfl
    · exact unseen_roused rfl (fun _ => rfl) p
    · exact unseen_dozed rfl (fun _ => rfl) p
  · rw [hreset, hcontrol, hserved, hnote]
    refine (sees_serviceControl q).after ?_
    rw [hq]
    exact unseen_dozed rfl (fun _ => rfl) p

/-! ### Bulk transfers -/

theorem unseen_stallEndpoint (ep : UInt8) (dir : Direction) (p : Link (Traced ω)) :
    Sees Action.notable [] p.hw (p.stallEndpoint ep dir).hw := by
  rw [stallEndpoint]
  split
  · exact sees_refl p.hw
  · next e _ => exact unseen_perform (a := .stall e dir) rfl p.hw

end Trace

/-! ## The trace is left out -/

theorem atControl_untraced (p : Link (Traced ω)) :
    (untraced p).atControl? = p.atControl?.map untraced := by
  rw [atControl?, atControl?, reached_untraced]
  cases p.reached? with
  | none => rfl
  | some reached =>
    simp only [Option.map_some, Option.bind_some]
    rw [apply_ite (Option.map _)]
    rfl

theorem answers_untraced (s : Setup) (p : Link (Traced ω)) :
    (untraced p).answers? s = (p.answers? s).map untraced := by
  have hanswered := standardRequest_untraced s { p with device.setup := some s }
  have hsame : standardRequest s { untraced p with device.setup := some s } = _ := hanswered
  rw [answers?, answers?, hsame]
  generalize standardRequest s { p with device.setup := some s } = answered
  obtain ⟨reply, q⟩ := answered
  cases s.kind with
  | standard =>
    cases reply with
    | data payload =>
      simp only
      rw [apply_ite (Option.map _)]
      rfl
    | noData | stall | receive => rfl
  | deviceClass | vendor | reserved => rfl

theorem sender_untraced (p : Link (Traced ω)) : (untraced p).sender? = p.sender? := by
  have hsends : (untraced p).sends? = p.sends?.map untraced := by
    rw [sends?, sends?, caughtUp_untraced, takenSetup_untraced, apply_ite (Option.map untraced)]
    refine ite_congr rfl (fun _ => rfl) fun _ => ?_
    cases p.takenSetup? with
    | none => rfl
    | some taken => exact answers_untraced taken.1 taken.2
  rw [sender?, sender?, hsends]
  cases p.sends? <;> rfl

theorem interruptActions_untraced (p : Link (Traced ω)) :
    (untraced p).interruptActions = p.interruptActions := by
  have hreset : (untraced p).servesReset = p.servesReset := by
    rw [servesReset, servesReset, roused_untraced]
    rfl
  rw [interruptActions, interruptActions, hreset, atControl_untraced]
  cases p.atControl? with
  | none => rfl
  | some q =>
    simp only [Option.map_some, Option.elim_some, controlActions, sender_untraced]
    rfl

end Link

/-! ## Operations -/

namespace Operation

variable {ω : Type} [Controller ω]

/-- What an operation tells the controller. -/
def tells (op : Operation ω) (p : Link ω) : List Action :=
  match op with
  | interrupt => p.interruptActions
  | _ => []

/-- An operation serves a bus reset. -/
def servesReset (op : Operation ω) (p : Link ω) : Bool :=
  match op with
  | interrupt => p.servesReset
  | _ => false

/-- What some operations tell the controller. -/
def told : List (Operation ω) → Link ω → List Action
  | [], _ => []
  | op :: ops, p => op.tells p ++ told ops (op.run p)

theorem sees_run (op : Operation ω) (p : Link (Traced ω)) :
    Sees Action.notable (op.tells (untraced p)) p.hw (op.onTraced.run p).hw := by
  have hreceives : ∀ w : Traced ω, Receives p.hw w → Sees Action.notable [] p.hw w :=
    fun w h => h.unseen fun a ha => by cases a <;> first | rfl | cases ha
  cases op with
  | attach =>
    exact (unseen_perform (a := .connect) rfl p.hw).trans
      (unseen_perform (a := .enableEvents _) rfl _)
  | detach =>
    exact (unseen_perform (a := .disconnect) rfl p.hw).trans
      (unseen_perform (a := .enableEvents _) rfl _)
  | interrupt =>
    rw [tells, p.interruptActions_untraced]
    exact p.sees_onInterrupt
  | takeWork => exact sees_refl p.hw
  | rxPending ep => exact unseen_rxPending (fun _ => rfl) ep p
  | readPacket ep room => exact hreceives _ (receives_readPacket ep room p)
  | fill ep buffer => exact hreceives _ (receives_gather ep buffer.length buffer.length p)
  | write ep data =>
    exact unseen_of_used ((talksFor_write ep data p).used.mono fun _ => Action.notable_of_sendsBulk)
  | stallEndpoint ep dir => exact p.unseen_stallEndpoint ep dir
  | outside f => exact sees_refl p.hw

/-- Of what some operations ask of the controller, this is notable. -/
theorem notable_asked (ops : List (Operation ω)) (p : Link ω) :
    (asked ops p).filter Action.notable = told ops p := by
  have key : ∀ (ops : List (Operation ω)) (p : Link (Traced ω)),
      Sees Action.notable (told ops (untraced p)) p.hw (runAll (ops.map onTraced) p).hw := by
    intro ops
    induction ops with
    | nil => exact fun p => sees_refl p.hw
    | cons op ops ih =>
      intro p
      have hrest := ih (op.onTraced.run p)
      rw [← run_untraced] at hrest
      exact (sees_run op p).trans hrest
  exact (key ops (traced p)).filter_eq

end Operation

end FlashProgrammer.Usb

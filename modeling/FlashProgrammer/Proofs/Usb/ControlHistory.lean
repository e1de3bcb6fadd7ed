import FlashProgrammer.Proofs.Usb.BulkMoves
import FlashProgrammer.Proofs.Usb.TakenSetup

/-!
# The history of the control transfers

A SETUP packet begins a control transfer, the closing handshake completes it, and a
stall or a new SETUP cuts it off.  `interruptEvents` is what an interrupt does of
this, in order.

The device keeps the configuration that was chosen last and not the transfer that
chose it.  `Recorded` ties the device to the history: the configuration is the last
choice since the last reset, whatever became of the transfer that made it.
-/

namespace FlashProgrammer.Usb

/-! ## Choices -/

/-- The configuration that a SETUP packet chooses if it is an accepted SET_CONFIGURATION, on a
device that offers one configuration.  Choosing 0 is choosing none. -/
def Setup.choice? (offered : UInt8) (addressed : Bool) (s : Setup) : Option UInt8 :=
  if s.kind = .standard ∧ StandardRequest.ofByte? s.request = some .setConfiguration ∧
      s.recipient = .device ∧ addressed then
    if s.value = 0 then some 0 else if s.value.toNat = offered.toNat then some offered else none
  else none

/-- What happens to the control transfers of a device. -/
inductive TransferEvent where
  /-- Every transfer was put back to its state at power-on. -/
  | reset
  /-- The transfer in flight was answered with a stall, or the host gave it up. -/
  | cut
  /-- The closing handshake was done. -/
  | completed
  /-- A SETUP packet was acted on, by a device with an address or without one. -/
  | began (s : Setup) (addressed : Bool)
deriving DecidableEq, Repr

namespace TransferEvent

/-- The chosen configuration after an event. -/
def choose (offered : UInt8) (chosen : UInt8) : TransferEvent → UInt8
  | reset => 0
  | began s addressed => (s.choice? offered addressed).getD chosen
  | _ => chosen

/-- The event makes or withdraws a choice. -/
def Decides (offered : UInt8) : TransferEvent → Prop
  | reset => True
  | began s addressed => (s.choice? offered addressed).isSome
  | _ => False

theorem choose_of_not_decides {offered chosen : UInt8} {e : TransferEvent}
    (h : ¬e.Decides offered) : e.choose offered chosen = chosen := by
  cases e with
  | reset => exact absurd trivial h
  | began s addressed =>
    simp only [Decides, Bool.not_eq_true, Option.isSome_eq_false_iff,
      Option.isNone_iff_eq_none] at h
    simp only [choose, h, Option.getD_none]
  | cut | completed => rfl

end TransferEvent

/-- The configuration that a history chose last, or 0. -/
def chosen (offered : UInt8) (history : List TransferEvent) : UInt8 :=
  history.foldl (fun c e => e.choose offered c) 0

theorem chosen_append (offered : UInt8) (history : List TransferEvent) (e : TransferEvent) :
    chosen offered (history ++ [e]) = e.choose offered (chosen offered history) := by
  simp [chosen]

/-- A configuration in force was chosen by a SETUP packet, and nothing decided otherwise since. -/
theorem exists_choice {offered : UInt8} {history : List TransferEvent}
    (h : chosen offered history ≠ 0) :
    ∃ before s addressed since, history = before ++ .began s addressed :: since ∧
      s.choice? offered addressed = some (chosen offered history) ∧
      ∀ e ∈ since, ¬e.Decides offered := by
  -- On the last event: it is the choice, or the choice was made before it.
  have key : ∀ reversed : List TransferEvent, chosen offered reversed.reverse ≠ 0 →
      ∃ before s addressed since, reversed.reverse = before ++ .began s addressed :: since ∧
        s.choice? offered addressed = some (chosen offered reversed.reverse) ∧
        ∀ e ∈ since, ¬e.Decides offered := by
    intro reversed
    induction reversed with
    | nil => exact fun hzero => absurd rfl hzero
    | cons e older ih =>
      intro hne
      rw [List.reverse_cons, chosen_append] at hne ⊢
      by_cases hdecides : e.Decides offered
      · cases e with
        | reset => exact absurd rfl hne
        | began s addressed =>
          obtain ⟨v, hv⟩ := Option.isSome_iff_exists.mp hdecides
          refine ⟨older.reverse, s, addressed, [], rfl, ?_, by simp⟩
          simp only [TransferEvent.choose, hv, Option.getD_some]
        | cut | completed => exact hdecides.elim
      · rw [TransferEvent.choose_of_not_decides hdecides] at hne ⊢
        obtain ⟨before, s, addressed, since, hsplit, hchoice, hsince⟩ := ih hne
        refine ⟨before, s, addressed, since ++ [e], by simp [hsplit], hchoice, ?_⟩
        intro e' he'
        rcases List.mem_append.mp he' with hold | hlast
        · exact hsince e' hold
        · rw [List.mem_singleton.mp hlast]
          exact hdecides
  have hlast := key history.reverse
  rw [List.reverse_reverse] at hlast
  exact hlast h

namespace Link

variable {ω : Type} [Controller ω]

/-! ## The events of an interrupt -/

/-- What the controller latched about endpoint 0 does to the transfer in flight. -/
def caughtEvents (p : Link ω) : List TransferEvent :=
  let (events, p) := p.ask .controlEvents
  if events.sentStall || events.setupEnd then [.cut]
  else if p.device.stage = .status then [.completed] else []

/-- The transfer that endpoint 0 begins. -/
def takenEvents (p : Link ω) : List TransferEvent :=
  match p.takenSetup? with
  | some (s, q) => [.began s (decide (Lifecycle.addressed ≤ q.device.lifecycle))]
  | none => []

/-- What serving endpoint 0 does. -/
def controlEvents (p : Link ω) : List TransferEvent := p.caughtEvents ++ p.takenEvents

/-- What an interrupt does. -/
def interruptEvents (p : Link ω) : List TransferEvent :=
  if p.roused.1.bus.disconnect then [.reset]
  else if p.roused.2.device.suspended then []
  else if p.roused.1.bus.reset then [.reset]
  else
    match p.reached? with
    | some (s, q) =>
      if s.pending 0 then { q with device.current := some ⟨0, .toDevice⟩ }.controlEvents else []
    | none => []

end Link

/-! ## Progress -/

/-- How far a device has come, and its control transfer. -/
structure Progress where
  lifecycle : Lifecycle
  configuration : UInt8
  stage : ControlStage
  /-- The configuration that the device has. -/
  offered : UInt8

namespace Device

def progress (d : Device) : Progress where
  lifecycle := d.lifecycle
  configuration := d.configuration
  stage := d.stage
  offered := d.descriptors.configurationValue

/-- Where the address that waits for the closing handshake brings the device. -/
def readdressed (d : Device) : Lifecycle :=
  match d.pendingAddress with
  | none => d.lifecycle
  | some address => if address = 0 then .waiting else .addressed

/-- Where the closing handshake brings the device. -/
def settled (d : Device) : Lifecycle :=
  if Lifecycle.addressed ≤ d.readdressed then
    if d.configuration = 0 then .addressed else .configured
  else d.readdressed

/-- Only the lifecycle, the configuration and the address that waits matter for that. -/
theorem settled_congr {d d' : Device} (hprogress : d.progress = d'.progress)
    (haddress : d.pendingAddress = d'.pendingAddress) : d.settled = d'.settled := by
  have hlifecycle : d.lifecycle = d'.lifecycle := congrArg Progress.lifecycle hprogress
  have hconfiguration : d.configuration = d'.configuration :=
    congrArg Progress.configuration hprogress
  rw [settled, settled, readdressed, readdressed, haddress, hlifecycle, hconfiguration]

theorem settled_eq_configured_iff (d : Device) :
    d.settled = .configured ↔ Lifecycle.addressed ≤ d.readdressed ∧ d.configuration ≠ 0 := by
  rw [settled]
  split
  · next haddressed =>
    by_cases hzero : d.configuration = 0
    · simp [hzero]
    · simp [hzero, haddressed]
  · next haddressed =>
    constructor
    · intro hconfigured
      rw [hconfigured] at haddressed
      exact absurd (by decide) haddressed
    · exact fun h => absurd h.1 haddressed

end Device

namespace Link

variable {ω : Type} [Controller ω]

/-! ### Transfers -/

theorem progress_continueIn (p : Link ω) :
    ∃ stage, p.continueIn.device.progress = { p.device.progress with stage } := by
  have hask := congrArg Device.progress (talks_ask (.txBusy .control) p).device_eq
  rw [continueIn]
  generalize p.ask (.txBusy .control) = asked at hask ⊢
  obtain ⟨busy, q⟩ := asked
  simp only at hask ⊢
  rw [← hask]
  split
  · exact ⟨q.device.stage, rfl⟩
  · split
    · exact ⟨.status, rfl⟩
    · exact ⟨q.device.stage, rfl⟩

theorem progress_dataOutComplete (p : Link ω) :
    ∃ stage, p.dataOutComplete.device.progress = { p.device.progress with stage } := by
  rw [dataOutComplete]
  simp only
  split
  · exact ⟨.idle, rfl⟩
  · exact ⟨.status, rfl⟩

theorem progress_continueOut (p : Link ω) :
    ∃ stage, p.continueOut.device.progress = { p.device.progress with stage } := by
  have hready := congrArg Device.progress (talks_ask (.rxReady .control) p).device_eq
  rw [continueOut]
  generalize p.ask (.rxReady .control) = asked at hready ⊢
  obtain ⟨ready, q⟩ := asked
  simp only at hready ⊢
  split
  · have hcount := congrArg Device.progress (talks_ask (.rxCount .control) q).device_eq
    generalize q.ask (.rxCount .control) = counted at hcount ⊢
    obtain ⟨available, q'⟩ := counted
    simp only at hcount ⊢
    rw [← hready, ← hcount]
    split
    · exact progress_dataOutComplete _
    · exact ⟨q'.device.stage, rfl⟩
  · exact ⟨p.device.stage, hready⟩

theorem progress_carryOut (s : Setup) (reply : ControlReply) (p : Link ω) :
    ∃ stage, (p.carryOut s reply).device.progress = { p.device.progress with stage } ∧
      (reply = .noData → stage = .status) := by
  cases reply with
  | noData => exact ⟨.status, rfl, fun _ => rfl⟩
  | stall => exact ⟨.idle, rfl, nofun⟩
  | data payload =>
    rw [carryOut]
    split
    · exact ⟨.status, rfl, nofun⟩
    · obtain ⟨stage, hstage⟩ := progress_continueIn
        { (p.tell (.rxDone .control false)).setStatus .control .toHost fun e =>
            { e with
              payload
              count := 0
              total := min (payload.length % 65536) s.length.toNat } with
          device.stage := .dataIn }
      exact ⟨stage, hstage, nofun⟩
  | receive =>
    rw [carryOut]
    split
    · obtain ⟨stage, hstage⟩ := progress_dataOutComplete (p.tell (.rxDone .control true))
      exact ⟨stage, hstage, nofun⟩
    · exact ⟨.dataOut, rfl, nofun⟩

/-! ### Requests -/

/-- An accepted SET_CONFIGURATION changes the configuration at once, and brings no data. -/
theorem progress_standardRequest {s : Setup} (hkind : s.kind = .standard) (p : Link ω) :
    (p.standardRequest s).2.device.progress =
        { p.device.progress with
          configuration :=
            (s.choice? p.device.progress.offered
              (decide (Lifecycle.addressed ≤ p.device.lifecycle))).getD p.device.configuration } ∧
      ((s.choice? p.device.progress.offered
          (decide (Lifecycle.addressed ≤ p.device.lifecycle))).isSome →
        (p.standardRequest s).1 = .noData) := by
  by_cases hset : StandardRequest.ofByte? s.request = some .setConfiguration ∧
      s.recipient = .device
  · obtain ⟨hrequest, hrecipient⟩ := hset
    simp only [standardRequest, hrequest, hrecipient]
    by_cases haddressed : Lifecycle.addressed ≤ p.device.lifecycle
    · simp only [Setup.choice?, hkind, hrequest, hrecipient, haddressed, decide_true, and_self,
        if_true, setConfiguration]
      by_cases hzero : s.value = 0
      · simp only [hzero, if_true]
        exact ⟨rfl, fun _ => trivial⟩
      · by_cases hoffered : s.value.toNat = p.device.descriptors.configurationValue.toNat
        · have hvalue : UInt8.ofNat s.value.toNat = p.device.descriptors.configurationValue := by
            rw [hoffered, UInt8.ofNat_toNat]
          simp only [hzero, if_false, Device.progress, hoffered, if_true]
          rw [← hoffered, hvalue]
          exact ⟨rfl, fun _ => trivial⟩
        · simp only [hzero, if_false, Device.progress, hoffered]
          exact ⟨rfl, nofun⟩
    · simp only [haddressed, if_false, Setup.choice?, decide_false, Bool.false_eq_true, and_false]
      exact ⟨rfl, nofun⟩
  · have hnone : s.choice? p.device.progress.offered
        (decide (Lifecycle.addressed ≤ p.device.lifecycle)) = none := by
      rw [Setup.choice?, if_neg fun h => hset ⟨h.2.1, h.2.2.1⟩]
    refine ⟨?_, by simp [hnone]⟩
    rw [hnone]
    show _ = p.device.progress
    rw [standardRequest]
    repeat' split
    all_goals first | rfl | exact absurd ⟨‹_›, ‹_›⟩ hset

theorem progress_handleSetup (s : Setup) (p : Link ω) :
    ∃ stage, (p.handleSetup s).device.progress =
        { p.device.progress with
          configuration :=
            (s.choice? p.device.progress.offered
              (decide (Lifecycle.addressed ≤ p.device.lifecycle))).getD p.device.configuration
          stage } ∧
      ((s.choice? p.device.progress.offered
          (decide (Lifecycle.addressed ≤ p.device.lifecycle))).isSome →
        stage = .status) := by
  rw [handleSetup]
  by_cases hkind : s.kind = .standard
  · obtain ⟨hprogress, hnodata⟩ :=
      progress_standardRequest hkind { p with device.setup := some s }
    simp only [hkind]
    generalize standardRequest s { p with device.setup := some s } = answered at hprogress hnodata ⊢
    obtain ⟨reply, q⟩ := answered
    obtain ⟨stage, hcarried, hstatus⟩ := progress_carryOut s reply q
    simp only at hprogress hnodata ⊢
    refine ⟨stage, ?_, fun hsome => hstatus (hnodata hsome)⟩
    rw [hcarried, hprogress]
    rfl
  · have hnone : s.choice? p.device.progress.offered
        (decide (Lifecycle.addressed ≤ p.device.lifecycle)) = none := by
      rw [Setup.choice?, if_neg fun h => hkind h.1]
    rw [hnone]
    refine ⟨.idle, ?_, nofun⟩
    cases hk : s.kind with
    | standard => exact absurd hk hkind
    | deviceClass | vendor | reserved => rfl

/-! ### The closing handshake -/

theorem progress_completeStatus (p : Link ω) :
    p.completeStatus.device.progress =
      { p.device.progress with lifecycle := p.device.settled, stage := .idle } := by
  have hone : ∀ e (q : Link ω), (armEndpoint q e).device.progress = q.device.progress := by
    intro e q
    rw [armEndpoint]
    split <;> rfl
  have harm : ∀ q : Link ω,
      (bulkEndpoints.foldl armEndpoint q).device.progress = q.device.progress :=
    armEndpoints_same (f := fun q => q.device.progress) hone bulkEndpoints
  have htake : p.takeAddress.device.progress =
      { p.device.progress with lifecycle := p.device.readdressed } := by
    simp only [takeAddress, Device.readdressed]
    cases p.device.pendingAddress <;> rfl
  have hsettle : p.takeAddress.settleConfiguration.device.progress =
      { p.device.progress with lifecycle := p.device.settled } := by
    have hlifecycle : p.takeAddress.device.lifecycle = p.device.readdressed :=
      congrArg Progress.lifecycle htake
    have hconfiguration : p.takeAddress.device.configuration = p.device.configuration :=
      congrArg Progress.configuration htake
    have henter : ∀ lifecycle, (p.takeAddress.enter lifecycle).device.progress =
        { p.device.progress with lifecycle } := by
      intro lifecycle
      have hentered : (p.takeAddress.enter lifecycle).device.progress =
          { p.takeAddress.device.progress with lifecycle } := rfl
      rw [hentered, htake]
    rw [settleConfiguration, Device.settled, hlifecycle, hconfiguration]
    split
    · exact henter _
    · exact htake
  have hdone : ∀ q : Link ω,
      { q.device with stage := .idle, setup := none }.progress =
        { q.device.progress with stage := .idle } := fun _ => rfl
  rw [completeStatus]
  simp only [hdone, harm, hsettle]

/-! ### Endpoint 0 -/

/-- What was latched cut the transfer off, or it was completed, or it goes on. -/
theorem progress_caughtUp (p : Link ω) :
    (p.caughtEvents = [.cut] ∧
      p.caughtUp.device.progress = { p.device.progress with stage := .idle }) ∨
    (p.caughtEvents = [.completed] ∧ p.device.stage = .status ∧
      p.caughtUp.device.progress =
        { p.device.progress with lifecycle := p.device.settled, stage := .idle }) ∨
    (p.caughtEvents = [] ∧ p.device.stage ≠ .status ∧
      p.caughtUp.device.progress = p.device.progress) := by
  have hdevice := (talks_ask .controlEvents p).device_eq
  rw [caughtEvents, caughtUp, ← hdevice]
  generalize p.ask .controlEvents = asked
  obtain ⟨events, q⟩ := asked
  simp only
  cases events.sentStall || events.setupEnd with
  | true => exact .inl ⟨rfl, rfl⟩
  | false =>
    simp only [Bool.false_eq_true, if_false]
    by_cases hstatus : q.device.stage = .status
    · rw [if_pos hstatus, if_pos hstatus]
      exact .inr (.inl ⟨rfl, hstatus, progress_completeStatus q⟩)
    · rw [if_neg hstatus, if_neg hstatus]
      exact .inr (.inr ⟨rfl, hstatus, rfl⟩)

/-- Looking at the packet that waits changes nothing. -/
theorem progress_offered {p q : Link ω} {s : Setup} (h : p.offered? = some (s, q)) :
    q.device.progress = p.device.progress := by
  rw [offered?] at h
  simp only at h
  split at h
  · cases h
    rfl
  · cases h

/-- A packet that is no SETUP packet is refused, and nothing was in flight. -/
theorem progress_refused {p : Link ω} (hstage : p.device.stage = .idle) :
    (((p.ask (.rxCount .control)).2.tell (.rxDone .control true)).stallControl).device.progress =
      p.device.progress := by
  have hidle : p.device.progress = { p.device.progress with stage := .idle } := by
    rw [← hstage]
    rfl
  rw [hidle]
  rfl

/-- Then a transfer goes on, or nothing is in flight and maybe another one begins. -/
theorem progress_serviceControl (p : Link ω) :
    (p.takenEvents = [] ∧ (p.caughtUp.device.stage = .idle →
        p.serviceControl.device.progress = p.caughtUp.device.progress) ∧
      ∃ stage, p.serviceControl.device.progress = { p.caughtUp.device.progress with stage }) ∨
    (p.caughtUp.device.stage = .idle ∧ ∃ s stage,
      p.takenEvents =
        [.began s (decide (Lifecycle.addressed ≤ p.caughtUp.device.lifecycle))] ∧
      p.serviceControl.device.progress =
        { p.caughtUp.device.progress with
          configuration :=
            (s.choice? p.caughtUp.device.progress.offered
              (decide (Lifecycle.addressed ≤ p.caughtUp.device.lifecycle))).getD
              p.caughtUp.device.configuration
          stage } ∧
      ((s.choice? p.caughtUp.device.progress.offered
          (decide (Lifecycle.addressed ≤ p.caughtUp.device.lifecycle))).isSome →
        stage = .status)) := by
  rw [serviceControl_eq, takenEvents, takenSetup?]
  simp only
  generalize p.caughtUp = c
  cases hstage : c.device.stage with
  | dataIn => exact .inl ⟨rfl, (fun h => by cases h), progress_continueIn c⟩
  | dataOut => exact .inl ⟨rfl, (fun h => by cases h), progress_continueOut c⟩
  | status => exact .inl ⟨rfl, (fun h => by cases h), _, rfl⟩
  | idle =>
    have hasked := congrArg Device.progress (talks_ask (.rxReady .control) c).device_eq
    simp only
    generalize c.ask (.rxReady .control) = asked at hasked ⊢
    obtain ⟨ready, q⟩ := asked
    simp only at hasked ⊢
    cases ready with
    | false => exact .inl ⟨rfl, fun _ => hasked, c.device.stage, hasked⟩
    | true =>
      simp only [if_true]
      rw [receiveSetup_eq]
      cases hoffered : q.offered? with
      | none =>
        have hidle : q.device.stage = .idle := (congrArg Progress.stage hasked).trans hstage
        have hrefused := (progress_refused hidle).trans hasked
        exact .inl ⟨rfl, fun _ => hrefused, c.device.stage, hrefused⟩
      | some offered =>
        obtain ⟨s, r⟩ := offered
        have htaken : r.device.progress = c.device.progress :=
          (progress_offered hoffered).trans hasked
        have hlifecycle : r.device.lifecycle = c.device.lifecycle :=
          congrArg Progress.lifecycle htaken
        have hconfiguration : r.device.configuration = c.device.configuration :=
          congrArg Progress.configuration htaken
        obtain ⟨stage, hhandled, hstatus⟩ := progress_handleSetup s r
        rw [htaken, hlifecycle, hconfiguration] at hhandled
        rw [htaken, hlifecycle] at hstatus
        simp only [hlifecycle]
        exact .inr ⟨trivial, s, stage, rfl, hhandled, hstatus⟩

/-! ### Interrupts -/

/-- Only power is noticed before an interrupt comes to the endpoints. -/
theorem progress_roused (p : Link ω) :
    p.roused.2.device.progress =
        { p.device.progress with
          lifecycle := if p.device.lifecycle = .attached then .powered else p.device.lifecycle } ∧
      p.roused.2.device.pendingAddress = p.device.pendingAddress := by
  have hdevice := (talks_ask .interrupts p).device_eq
  rw [roused, ← hdevice]
  generalize p.ask .interrupts = asked
  obtain ⟨status, q⟩ := asked
  simp only [powerUp]
  split <;> split <;> exact ⟨rfl, rfl⟩

/-- Of its lifecycle, a device notices power and nothing more. -/
theorem lifecycle_roused (p : Link ω) :
    p.roused.2.device.lifecycle =
      if p.device.lifecycle = .attached then .powered else p.device.lifecycle :=
  congrArg Progress.lifecycle p.progress_roused.1

/-- Power is not noticed any more on a device that the host has reset. -/
theorem progress_roused_of_waiting {p : Link ω} (h : ¬p.roused.2.device.lifecycle < .waiting) :
    p.roused.2.device.progress = p.device.progress := by
  have hreached : p.device.lifecycle ≠ .attached := by
    intro hattached
    rw [lifecycle_roused, if_pos hattached] at h
    exact h (by decide)
  rw [p.progress_roused.1, if_neg hreached]
  rfl

/-- Falling asleep touches neither the transfer nor the address. -/
theorem progress_dozed (sleeps : Bool) (p : Link ω) :
    (if sleeps then p.sleep else p).device.progress = p.device.progress ∧
      (if sleeps then p.sleep else p).device.pendingAddress = p.device.pendingAddress := by
  cases sleeps <;> exact ⟨rfl, rfl⟩

omit [Controller ω] in
theorem progress_note (works : List Work) (p : Link ω) :
    (works.foldl note p).device.progress = p.device.progress := by
  induction works generalizing p with
  | nil => rfl
  | cons work works ih => exact ih _

theorem progress_serviceEndpoints (s : InterruptStatus) (p : Link ω) :
    (p.serviceEndpoints s).device.progress =
      if p.device.lifecycle < .waiting then p.device.progress
      else if s.pending 0 then
        { p with device.current := some ⟨0, .toDevice⟩ }.serviceControl.device.progress
      else p.device.progress := by
  rw [serviceEndpoints]
  split
  · rfl
  · rw [progress_note, serviceEndpointZero]
    split <;> rfl

/-- An interrupt resets the transfers, or comes to endpoint 0, or does nothing of this kind. -/
theorem progress_onInterrupt (p : Link ω) :
    (p.interruptEvents = [.reset] ∧ ∃ lifecycle, lifecycle ≠ .configured ∧
      p.onInterrupt.device.progress = ⟨lifecycle, 0, .idle, p.device.progress.offered⟩) ∨
    (p.interruptEvents = [] ∧
      p.onInterrupt.device.progress =
        { p.device.progress with
          lifecycle := if p.device.lifecycle = .attached then .powered else p.device.lifecycle }) ∨
    (∃ q : Link ω, q.device.progress = p.device.progress ∧ q.device.settled = p.device.settled ∧
      p.interruptEvents = q.controlEvents ∧
      p.onInterrupt.device.progress = q.serviceControl.device.progress) := by
  obtain ⟨hroused, hpending⟩ := progress_roused p
  have hkept := progress_roused_of_waiting (p := p)
  have hdetached := (talks_ask .interrupts p).device_eq
  rw [onInterrupt_eq, interruptEvents, reached?]
  generalize p.roused = roused at hroused hpending hkept ⊢
  obtain ⟨status, r⟩ := roused
  simp only at hroused hpending hkept ⊢
  cases hdisconnect : status.bus.disconnect with
  | true =>
    refine .inl ⟨rfl, .detached, by decide, ?_⟩
    rw [← hdetached]
    rfl
  | false =>
    cases hsuspended : r.device.suspended with
    | true => exact .inr (.inl ⟨rfl, hroused⟩)
    | false =>
      cases hreset : status.bus.reset with
      | true =>
        refine .inl ⟨rfl, .waiting, by decide, ?_⟩
        have hoffered : r.device.progress.offered = p.device.progress.offered := by rw [hroused]
        rw [serviceBus, hreset, ← hoffered]
        rfl
      | false =>
        obtain ⟨hprogress, haddress⟩ := progress_dozed status.bus.suspend r
        simp only [Bool.false_eq_true, if_false, Bool.or_self]
        rw [serviceBus_of_no_reset hreset, progress_serviceEndpoints]
        generalize (if status.bus.suspend then r.sleep else r) = q at hprogress haddress ⊢
        by_cases hwaiting : q.device.lifecycle < .waiting
        · rw [if_pos hwaiting, if_pos hwaiting]
          exact .inr (.inl ⟨rfl, hprogress.trans hroused⟩)
        · rw [if_neg hwaiting, if_neg hwaiting]
          simp only
          cases status.pending 0 with
          | false => exact .inr (.inl ⟨rfl, hprogress.trans hroused⟩)
          | true =>
            have hlifecycle : q.device.lifecycle = r.device.lifecycle :=
              congrArg Progress.lifecycle hprogress
            have hsame : q.device.progress = p.device.progress :=
              hprogress.trans (hkept (by rwa [← hlifecycle]))
            refine .inr (.inr ⟨{ q with device.current := some ⟨0, .toDevice⟩ }, hsame, ?_, rfl,
              rfl⟩)
            exact Device.settled_congr hsame (haddress.trans hpending)

end Link

end FlashProgrammer.Usb

import FlashProgrammer.Proofs.Usb.NotableActions

/-!
# What waits for the closing handshake

Two things that a request asks for are left until its transfer completes: the address that
SET_ADDRESS names, and the arming of the endpoints that SET_CONFIGURATION chooses.
`Awaiting` is what a device keeps of them, and the lemmas below say what each function
does to it.

Only acting on a SETUP packet leaves anything for the handshake, and only the handshake
itself, a transfer that is cut off and a reset take it away.
-/

namespace FlashProgrammer.Usb

/-- The address that a SETUP packet names if it is an accepted SET_ADDRESS. -/
def Setup.address? (s : Setup) : Option UInt8 :=
  if s.kind = .standard ∧ StandardRequest.ofByte? s.request = some .setAddress ∧
      s.recipient = .device ∧ s.value < 0x80 then some s.valueLow
  else none

theorem Setup.address?_of_not {s : Setup} (h : ¬(s.kind = .standard ∧
    StandardRequest.ofByte? s.request = some .setAddress ∧ s.recipient = .device)) :
    s.address? = none :=
  if_neg fun haccepted => h ⟨haccepted.1, haccepted.2.1, haccepted.2.2.1⟩

theorem Setup.choice?_of_not {s : Setup} {offered : UInt8} {addressed : Bool}
    (h : ¬(s.kind = .standard ∧ StandardRequest.ofByte? s.request = some .setConfiguration ∧
      s.recipient = .device)) : s.choice? offered addressed = none :=
  if_neg fun haccepted => h ⟨haccepted.1, haccepted.2.1, haccepted.2.2.1⟩

/-- What a device keeps until the closing handshake. -/
structure Awaiting where
  stage : ControlStage
  /-- The address to take. -/
  address : Option UInt8
  /-- The endpoints to arm. -/
  arms : Endpoint → Direction → Bool

namespace Awaiting

/-- The transfer was cut off. -/
def cut (a : Awaiting) : Awaiting := { a with stage := .idle, address := none }

/-- A transfer goes on, or only its handshake is missing, or it was cut off. -/
def Advances (a b : Awaiting) : Prop := b = a ∨ b = { a with stage := .status } ∨ b = a.cut

/-- A request named an address or chose a configuration, or neither. -/
def leave (a : Awaiting) (address choice : Option UInt8) : Awaiting where
  stage := a.stage
  address := address.or a.address
  arms ep dir := (choice.any (· != 0) && ep == .flash) || a.arms ep dir

theorem leave_none (a : Awaiting) : a.leave none none = a := rfl

end Awaiting

def Device.awaiting (d : Device) : Awaiting where
  stage := d.stage
  address := d.pendingAddress
  arms ep dir := (d.endpoints.get ep dir).needsArming

/-- A record that is written without its arming leaves what is to be armed alone. -/
theorem arms_modify {f : EndpointStatus → EndpointStatus}
    (h : ∀ s, (f s).needsArming = s.needsArming) (t : PerDirection EndpointStatus) (ep : Endpoint)
    (dir : Direction) :
    (fun ep' dir' => ((t.modify ep dir f).get ep' dir').needsArming) =
      fun ep' dir' => (t.get ep' dir').needsArming := by
  funext ep' dir'
  rw [PerDirection.get_modify]
  split
  · next hsame =>
    obtain ⟨rfl, rfl⟩ := hsame
    exact h _
  · rfl

namespace Link

variable {ω : Type} [Controller ω]

omit [Controller ω] in
theorem awaiting_setStatus {f : EndpointStatus → EndpointStatus}
    (h : ∀ s, (f s).needsArming = s.needsArming) (ep : Endpoint) (dir : Direction) (p : Link ω) :
    (p.setStatus ep dir f).device.awaiting = p.device.awaiting :=
  congrArg (Awaiting.mk p.device.stage p.device.pendingAddress)
    (arms_modify h p.device.endpoints ep dir)

/-! ## Transfers -/

omit [Controller ω] in
theorem awaiting_abortControl (p : Link ω) :
    p.abortControl.device.awaiting = p.device.awaiting.cut := by
  have hfinish : ∀ s : EndpointStatus, s.finish.needsArming = s.needsArming := fun _ => rfl
  have hboth := (arms_modify hfinish (p.device.endpoints.modify .control .toDevice .finish)
    .control .toHost).trans (arms_modify hfinish p.device.endpoints .control .toDevice)
  exact congrArg (Awaiting.mk .idle none) hboth

theorem awaiting_stallControl (p : Link ω) :
    p.stallControl.device.awaiting = p.device.awaiting.cut := awaiting_abortControl _

theorem awaiting_continueIn (p : Link ω) :
    p.continueIn.device.awaiting = p.device.awaiting ∨
      p.continueIn.device.awaiting = { p.device.awaiting with stage := .status } := by
  rw [continueIn_eq]
  split
  · exact .inl rfl
  · rw [sendNext, Device.advanced]
    have hfinish : ∀ s : EndpointStatus, s.finish.needsArming = s.needsArming := fun _ => rfl
    split
    · exact .inr (congrArg (Awaiting.mk .status p.device.pendingAddress)
        (arms_modify hfinish p.device.endpoints .control .toHost))
    · refine .inl (congrArg (Awaiting.mk p.device.stage p.device.pendingAddress)
        (arms_modify ?_ p.device.endpoints .control .toHost))
      exact fun _ => rfl

theorem awaiting_dataOutComplete (p : Link ω) :
    p.dataOutComplete.device.awaiting = { p.device.awaiting with stage := .status } ∨
      p.dataOutComplete.device.awaiting = p.device.awaiting.cut := by
  have hcounted : (p.setStatus .control .toDevice fun s =>
      { s with count := 0 }).device.awaiting = p.device.awaiting := by
    refine awaiting_setStatus ?_ _ _ p
    exact fun _ => rfl
  rw [dataOutComplete]
  simp only
  split
  · rw [awaiting_stallControl, hcounted]
    exact .inr rfl
  · exact .inl (congrArg (fun a : Awaiting => { a with stage := .status }) hcounted)

theorem awaiting_continueOut (p : Link ω) :
    p.device.awaiting.Advances p.continueOut.device.awaiting := by
  have hcounted : (p.ask (.rxReady .control)).2.counted.2.device = p.device := rfl
  rw [continueOut_eq]
  split
  · generalize (p.ask (.rxReady .control)).2.counted = counted at hcounted ⊢
    obtain ⟨n, q⟩ := counted
    have hreceived : (q.receiveNext n).device.awaiting = p.device.awaiting := by
      rw [← hcounted]
      refine congrArg (Awaiting.mk q.device.stage q.device.pendingAddress)
        (arms_modify ?_ q.device.endpoints .control .toDevice)
      exact fun _ => rfl
    rw [← hreceived]
    simp only
    split
    · rcases (q.receiveNext n).awaiting_dataOutComplete with hdone | hdone
      · exact .inr (.inl hdone)
      · exact .inr (.inr hdone)
    · exact .inl rfl
  · exact .inl rfl

/-! ## Requests -/

omit [Controller ω] in
/-- Both directions of the flash endpoint are to be armed for a configuration that the device
has. -/
theorem awaiting_setConfiguration (value : UInt16) (p : Link ω) :
    (p.setConfiguration value).2.device.awaiting =
      p.device.awaiting.leave none
        (if value = 0 then some 0
          else if value.toNat = p.device.descriptors.configurationValue.toNat then
            some p.device.descriptors.configurationValue
          else none) := by
  rw [setConfiguration]
  by_cases hzero : value = 0
  · rw [if_pos hzero, if_pos hzero]
    rfl
  · rw [if_neg hzero, if_neg hzero]
    by_cases hoffered : value.toNat = p.device.descriptors.configurationValue.toNat
    · rw [if_pos hoffered, if_pos hoffered]
      have hchosen : p.device.descriptors.configurationValue ≠ 0 := by
        intro hnone
        rw [hnone] at hoffered
        exact hzero (UInt16.toNat_inj.mp hoffered)
      refine congrArg (Awaiting.mk p.device.stage p.device.pendingAddress) ?_
      funext ep dir
      have hany : (some p.device.descriptors.configurationValue).any (· != 0) = true := by
        simpa using hchosen
      rw [hany, Bool.true_and]
      by_cases hflash : ep = .flash
      · subst hflash
        cases dir <;> simp [setStatus, PerDirection.get_modify]
      · simp [setStatus, PerDirection.get_modify, hflash, Ne.symm hflash, Device.awaiting]
    · rw [if_neg hoffered, if_neg hoffered]
      rfl

/-- A request names an address, or chooses a configuration, or leaves nothing for the handshake. -/
theorem awaiting_standardRequest {s : Setup} (hkind : s.kind = .standard) (p : Link ω) :
    (p.standardRequest s).2.device.awaiting =
        p.device.awaiting.leave s.address?
          (s.choice? p.device.descriptors.configurationValue
            (decide (Lifecycle.addressed ≤ p.device.lifecycle))) ∧
      (s.address?.isSome → (p.standardRequest s).1 = .noData) := by
  by_cases haddress : StandardRequest.ofByte? s.request = some .setAddress ∧ s.recipient = .device
  · obtain ⟨hrequest, hrecipient⟩ := haddress
    have hchoice : ∀ offered addressed, s.choice? offered addressed = none :=
      fun _ _ => Setup.choice?_of_not (by simp [hrequest])
    simp only [standardRequest, hrequest, hrecipient, hchoice, Setup.address?, hkind, true_and]
    by_cases hvalue : s.value < 0x80
    · simp only [hvalue, if_true]
      exact ⟨rfl, fun _ => trivial⟩
    · simp only [hvalue, if_false]
      exact ⟨rfl, by simp⟩
  · rw [Setup.address?_of_not fun h => haddress h.2]
    refine ⟨?_, by simp⟩
    by_cases hset : StandardRequest.ofByte? s.request = some .setConfiguration ∧
        s.recipient = .device
    · obtain ⟨hrequest, hrecipient⟩ := hset
      simp only [standardRequest, hrequest, hrecipient, Setup.choice?, hkind, true_and]
      by_cases haddressed : Lifecycle.addressed ≤ p.device.lifecycle
      · simp only [haddressed, if_true, decide_true]
        exact awaiting_setConfiguration s.value p
      · simp only [haddressed, if_false, decide_false, Bool.false_eq_true]
        rfl
    · have hchoice : ∀ offered addressed, s.choice? offered addressed = none :=
        fun _ _ => Setup.choice?_of_not fun h => hset h.2
      have hclear : ∀ ep dir, (p.clearHalt ep dir).device.awaiting = p.device.awaiting := by
        intro ep dir
        refine awaiting_setStatus ?_ ep dir _
        exact fun _ => rfl
      have hhalt : ∀ ep dir, (p.halt ep dir).device.awaiting = p.device.awaiting := by
        intro ep dir
        refine awaiting_setStatus ?_ ep dir _
        exact fun _ => rfl
      rw [hchoice, Awaiting.leave_none, standardRequest]
      split
      case h_4 => -- CLEAR_FEATURE
        repeat' split
        · exact hclear _ _
        · rfl
        · rfl
      case h_5 => -- SET_FEATURE
        repeat' split
        · rfl
        · exact hhalt _ _
        · rfl
        · rfl
      case h_6 hrequest hrecipient => -- SET_ADDRESS
        exact absurd ⟨hrequest, hrecipient⟩ haddress
      case h_10 hrequest hrecipient => -- SET_CONFIGURATION
        exact absurd ⟨hrequest, hrecipient⟩ hset
      -- The others answer and write nothing.
      all_goals
        repeat' split
        all_goals rfl

/-- Carrying out a reply moves the stage, and a transfer that is refused takes the address away. -/
theorem awaiting_carryOut (s : Setup) (reply : ControlReply) (p : Link ω) :
    ∃ stage address, (p.carryOut s reply).device.awaiting =
        { p.device.awaiting with stage, address } ∧
      (address = p.device.pendingAddress ∨ (stage = .idle ∧ address = none)) ∧
      (reply = .noData → stage = .status) := by
  cases reply with
  | noData => exact ⟨.status, _, rfl, .inl rfl, fun _ => rfl⟩
  | stall =>
    exact ⟨.idle, none, awaiting_stallControl (p.tell (.rxDone .control true)),
      .inr ⟨rfl, rfl⟩, by simp⟩
  | data payload =>
    rw [carryOut_data]
    split
    · exact ⟨.status, _, rfl, .inl rfl, fun _ => rfl⟩
    · have hstage : (p.dataInStage s payload).device.awaiting =
          { p.device.awaiting with stage := .dataIn } := by
        refine congrArg (Awaiting.mk .dataIn p.device.pendingAddress)
          (arms_modify ?_ p.device.endpoints .control .toHost)
        exact fun _ => rfl
      rcases (p.dataInStage s payload).awaiting_continueIn with hmore | hlast
      · exact ⟨.dataIn, _, hmore.trans hstage, .inl rfl, by simp⟩
      · rw [hlast, hstage]
        exact ⟨.status, _, rfl, .inl rfl, by simp⟩
  | receive =>
    rw [carryOut_receive]
    split
    · rcases (p.tell (.rxDone .control true)).awaiting_dataOutComplete with hdone | hdone
      · exact ⟨.status, _, hdone, .inl rfl, by simp⟩
      · exact ⟨.idle, none, hdone, .inr ⟨rfl, rfl⟩, by simp⟩
    · refine ⟨.dataOut, _, ?_, .inl rfl, by simp⟩
      refine congrArg (Awaiting.mk .dataOut p.device.pendingAddress)
        (arms_modify ?_ p.device.endpoints .control .toDevice)
      exact fun _ => rfl

/-- Acting on a SETUP packet leaves what the request asks for, unless it is refused and with it
every address.  An accepted SET_ADDRESS has no data stage. -/
theorem awaiting_handleSetup (s : Setup) (p : Link ω) :
    let left := p.device.awaiting.leave s.address?
      (s.choice? p.device.descriptors.configurationValue
        (decide (Lifecycle.addressed ≤ p.device.lifecycle)))
    ∃ stage address, (p.handleSetup s).device.awaiting = { left with stage, address } ∧
      (address = left.address ∨ (stage = .idle ∧ address = none)) ∧
      (s.address?.isSome → stage = .status) := by
  intro left
  rw [handleSetup]
  by_cases hkind : s.kind = .standard
  · obtain ⟨hleft, hnodata⟩ := awaiting_standardRequest hkind { p with device.setup := some s }
    simp only [hkind]
    generalize standardRequest s { p with device.setup := some s } = answered at hleft hnodata ⊢
    obtain ⟨reply, q⟩ := answered
    obtain ⟨stage, address, hafter, hkept, hstatus⟩ := q.awaiting_carryOut s reply
    have hsame : q.device.awaiting = left := hleft
    rw [hsame] at hafter
    rw [show q.device.pendingAddress = left.address from congrArg Awaiting.address hsame] at hkept
    exact ⟨stage, address, hafter, hkept, fun hsome => hstatus (hnodata hsome)⟩
  · have hnone : s.address? = none := Setup.address?_of_not fun h => hkind h.1
    have hchoice : ∀ offered addressed, s.choice? offered addressed = none :=
      fun _ _ => Setup.choice?_of_not fun h => hkind h.1
    have hleft : left = p.device.awaiting := by
      show p.device.awaiting.leave _ _ = p.device.awaiting
      rw [hnone, hchoice, Awaiting.leave_none]
    obtain ⟨stage, address, hafter, hkept, _⟩ :=
      ({ p with device.setup := some s } : Link ω).awaiting_carryOut s .stall
    rw [hleft, hnone]
    refine ⟨stage, address, ?_, hkept, by simp⟩
    cases hk : s.kind with
    | standard => exact absurd hk hkind
    | deviceClass | vendor | reserved => exact hafter

/-- The closing handshake leaves nothing in flight and no address. -/
theorem awaiting_completeStatus (p : Link ω) :
    p.completeStatus.device.awaiting.stage = .idle ∧
      p.completeStatus.device.awaiting.address = none := by
  have hclosed := transfer_completeStatus p
  generalize p.completeStatus = q at hclosed ⊢
  exact ⟨congrArg Transfer.stage hclosed, congrArg Transfer.pendingAddress hclosed⟩

/-! ## Endpoint 0 -/

theorem device_offered {p q : Link ω} {s : Setup} (h : p.offered? = some (s, q)) :
    q.device = p.device := by
  rw [offered?] at h
  simp only at h
  split at h
  · cases h
    rfl
  · cases h

/-- After what was latched about endpoint 0, a transfer goes on or a SETUP packet is acted on. -/
theorem serviceControl_advances (p : Link ω) :
    (p.takenEvents = [] ∧
      p.caughtUp.device.awaiting.Advances p.serviceControl.device.awaiting ∧
      (p.caughtUp.device.stage = .idle → p.serviceControl.device.stage = .idle)) ∨
    (p.caughtUp.device.stage = .idle ∧ ∃ (s : Setup) (q : Link ω),
      q.device = p.caughtUp.device ∧
      p.takenEvents = [.began s (decide (Lifecycle.addressed ≤ p.caughtUp.device.lifecycle))] ∧
      p.serviceControl = q.handleSetup s) := by
  rw [takenEvents]
  rcases p.serviceControl_shapes with ⟨hstage, htaken, hserved⟩ | ⟨hstage, htaken, hserved⟩ |
      ⟨hstage, htaken, hserved | hserved⟩ | ⟨hstage, s, q, htaken, hoffered, hserved⟩
  · rw [htaken, hserved]
    refine .inl ⟨rfl, ?_, fun hidle => absurd (hstage.symm.trans hidle) (by decide)⟩
    rcases p.caughtUp.awaiting_continueIn with hsame | hlast
    · exact .inl hsame
    · exact .inr (.inl hlast)
  · rw [htaken, hserved]
    exact .inl ⟨rfl, awaiting_continueOut _,
      fun hidle => absurd (hstage.symm.trans hidle) (by decide)⟩
  · rw [htaken, hserved]
    exact .inl ⟨rfl, .inl rfl, id⟩
  · rw [htaken, hserved]
    exact .inl ⟨rfl, .inr (.inr (awaiting_stallControl _)), fun _ => rfl⟩
  · have hdevice : q.device = (p.caughtUp.ask (.rxReady .control)).2.device :=
      device_offered hoffered
    rw [show (p.caughtUp.ask (.rxReady .control)).2.device = p.caughtUp.device from rfl] at hdevice
    rw [htaken, ← hdevice]
    exact .inr ⟨hdevice ▸ hstage, s, q, rfl, rfl, hserved⟩

/-! ## Interrupts -/

/-- An interrupt comes to endpoint 0 with all that a control transfer needs as before. -/
theorem awaiting_dozed (p : Link ω) :
    p.roused.2.device.awaiting = p.device.awaiting ∧
      p.dozed.device.awaiting = p.device.awaiting ∧
      p.dozed.device.progress = p.roused.2.device.progress := by
  have hdevice := (talks_ask .interrupts p).device_eq
  have hroused : p.roused.2.device.awaiting = p.device.awaiting := by
    rw [roused, ← hdevice]
    generalize p.ask .interrupts = asked
    obtain ⟨status, q⟩ := asked
    simp only [powerUp]
    split <;> split <;> rfl
  rw [dozed]
  split
  · exact ⟨hroused, hroused, rfl⟩
  · exact ⟨hroused, hroused, rfl⟩

omit [Controller ω] in
theorem awaiting_notes (works : List Work) (p : Link ω) :
    (works.foldl note p).device.awaiting = p.device.awaiting := by
  induction works generalizing p with
  | nil => rfl
  | cons work works ih => exact ih _

end Link

/-! ## Operations -/

namespace Operation

variable {ω : Type} [Controller ω]

omit [Controller ω] in
theorem awaiting_resetTransfers (p : Link ω) :
    p.resetTransfers.device.awaiting = ⟨.idle, none, fun _ _ => false⟩ := by
  refine congrArg (Awaiting.mk .idle none) ?_
  funext ep dir
  simp [Link.resetTransfers, Device.resetTransfers]

/-- What an operation does to a device. -/
inductive Effect (op : Operation ω) (p : Link ω) : Prop where
  /-- It clears everything. -/
  | cleared (events_eq : op.events p = [.reset])
    (tells_eq : op.tells p = if op.servesReset p then resetActions else [])
    (awaiting_eq : (op.run p).device.awaiting = ⟨.idle, none, fun _ _ => false⟩)
    (progress_eq : (op.run p).device.progress =
      ⟨if op.servesReset p then .waiting else .detached, 0, .idle, p.device.progress.offered⟩)
  /-- It leaves the control transfer alone. -/
  | kept (lifecycle : Lifecycle) (resetless : op.servesReset p = false)
    (events_eq : op.events p = []) (tells_eq : op.tells p = [])
    (awaiting_eq : (op.run p).device.awaiting = p.device.awaiting)
    (lifecycle_cases : lifecycle = p.device.lifecycle ∨ lifecycle < .waiting)
    (progress_eq : (op.run p).device.progress = { p.device.progress with lifecycle })
  /-- It serves endpoint 0. -/
  | served (q : Link ω) (resetless : op.servesReset p = false)
    (waiting : ¬p.device.lifecycle < .waiting)
    (awaiting_before : q.device.awaiting = p.device.awaiting)
    (progress_before : q.device.progress = p.device.progress)
    (events_eq : op.events p = q.controlEvents) (tells_eq : op.tells p = q.controlActions)
    (awaiting_eq : (op.run p).device.awaiting = q.serviceControl.device.awaiting)
    (progress_eq : (op.run p).device.progress = q.serviceControl.device.progress)

theorem effect_interrupt (p : Link ω) : Effect .interrupt p := by
  obtain ⟨hroused, _⟩ := p.progress_roused
  obtain ⟨hawaiting, hdozed, hsame⟩ := p.awaiting_dozed
  have htells : p.atControl? = none →
      p.interruptActions = if p.servesReset then resetActions else [] := by
    intro hcontrol
    rw [Link.interruptActions, hcontrol]
    rfl
  rcases p.onInterrupt_cases with ⟨hreset, hcontrol, hevents, hserved⟩ |
      ⟨hreset, hcontrol, hevents, hserved⟩ | ⟨hreset, hcontrol, hevents, q, works, hq, hserved⟩ |
      ⟨q, works, hreset, hcontrol, hwaiting, rfl, hevents, hserved⟩
  · -- The cable was pulled.
    refine .cleared hevents (htells hcontrol) ?_ ?_ <;>
      simp only [run, servesReset, hserved, hreset]
    · exact awaiting_resetTransfers (p.ask .interrupts).2
    · rfl
  · have hoffered : p.roused.2.device.progress.offered = p.device.progress.offered := by
      rw [hroused]
    refine .cleared hevents (htells hcontrol) ?_ ?_ <;>
      simp only [run, servesReset, hserved, hreset, ← hoffered]
    · exact awaiting_resetTransfers p.roused.2
    · rfl
  · have hleft : q.device.awaiting = p.device.awaiting ∧
        q.device.progress = p.roused.2.device.progress := by
      rcases hq with rfl | rfl
      · exact ⟨hawaiting, rfl⟩
      · exact ⟨hdozed, hsame⟩
    have hquiet := htells hcontrol
    rw [hreset] at hquiet
    refine .kept (if p.device.lifecycle = .attached then .powered else p.device.lifecycle) hreset
      hevents hquiet ?_ ?_ ?_
    · simp only [run, hserved, Link.awaiting_notes, hleft.1]
    · split
      · exact .inr (by decide)
      · exact .inl rfl
    · simp only [run, hserved, Link.progress_note, hleft.2, hroused]
  · have hpowered : p.device.lifecycle ≠ .attached := by
      intro hattached
      rw [hattached] at hwaiting
      exact hwaiting (by decide)
    rw [if_neg hpowered] at hroused
    refine .served { p.dozed with device.current := some ⟨0, .toDevice⟩ } hreset hwaiting hdozed
      (hsame.trans hroused) hevents ?_ ?_ ?_
    · simp only [tells, Link.interruptActions, hreset, hcontrol]
      rfl
    · simp only [run, hserved, Link.awaiting_notes]
    · simp only [run, hserved, Link.progress_note]

/-- Every operation has one of these effects. -/
theorem effect (op : Operation ω) (p : Link ω) : op.Effect p := by
  have hbelow : Lifecycle.attached < .waiting := by decide
  cases op with
  | attach => exact .kept .attached rfl rfl rfl rfl (.inr hbelow) rfl
  | detach => exact .cleared rfl rfl (awaiting_resetTransfers p) rfl
  | takeWork | outside => exact .kept p.device.lifecycle rfl rfl rfl rfl (.inl rfl) rfl
  | rxPending | readPacket | fill | write =>
    refine .kept p.device.lifecycle rfl rfl rfl (congrArg Device.awaiting ?_) (.inl rfl)
      (congrArg Device.progress ?_) <;>
    exact (talks_run (by trivial) p).device_eq
  | stallEndpoint ep dir =>
    have hhalted : (p.stallEndpoint ep dir).device.awaiting = p.device.awaiting ∧
        (p.stallEndpoint ep dir).device.progress = p.device.progress := by
      rw [Link.stallEndpoint]
      split
      · exact ⟨rfl, rfl⟩
      · next e _ =>
        refine ⟨Link.awaiting_setStatus ?_ e dir _, rfl⟩
        exact fun _ => rfl
    exact .kept p.device.lifecycle rfl rfl rfl hhalted.1 (.inl rfl) hhalted.2
  | interrupt => exact effect_interrupt p

/-- Only an operation that clears everything serves a bus reset. -/
theorem cleared_of_servesReset {op : Operation ω} {p : Link ω} (h : op.servesReset p = true) :
    op.events p = [.reset] ∧
      (op.run p).device.progress = ⟨.waiting, 0, .idle, p.device.progress.offered⟩ := by
  cases op.effect p with
  | cleared hevents _ _ hprogress =>
    rw [h] at hprogress
    exact ⟨hevents, hprogress⟩
  | kept _ hno | served _ hno =>
    rw [hno] at h
    cases h

end Operation

end FlashProgrammer.Usb

import FlashProgrammer.Proofs.Usb.Configuring
import FlashProgrammer.Proofs.Usb.TransferRecord

/-!
# Endpoint 0

The parts of a control transfer are written in many functions and must fit together.
`Transfer.Sound` says how they fit, with one case for each stage and one more for an address
that waits.

Each function on the way of an interrupt takes a sound transfer to a sound one.  All other
operations leave the transfer alone, as long as nothing but the host halts endpoint 0.  So
`control_transfer_sound` holds of every run, and the counts of a data stage never leave
sixteen bits.
-/

namespace FlashProgrammer.Usb

/-! ## Sound transfers -/

/-- What is still to be sent ends within what the host asked for and within the payload, and every
packet so far was full. -/
structure Movement.Sends (m : Movement) (s : Setup) : Prop where
  asked : 0 < s.length
  count_le : m.count ≤ m.total
  total_le : m.total ≤ s.length.toNat
  total_le_payload : m.total ≤ m.payload.length
  full : maxPacket ∣ m.count

/-- The host has announced new descriptors and not sent all of them. -/
structure Movement.Receives (m : Movement) (s : Setup) : Prop where
  standard : s.kind = .standard
  request_eq : StandardRequest.ofByte? s.request = some .setDescriptor
  total_eq : m.total = s.length.toNat
  count_lt : m.count < m.total

/-- The parts of a transfer fit together. -/
inductive Transfer.Sound : Transfer → Prop where
  | idle : Sound {}
  | dataIn (s : Setup) (sending : Movement) (h : sending.Sends s) :
    Sound { stage := .dataIn, setup := some s, sending }
  | dataOut (s : Setup) (receiving : Movement) (h : receiving.Receives s) :
    Sound { stage := .dataOut, setup := some s, receiving }
  | status (s : Setup) : Sound { stage := .status, setup := some s }
  /-- Only SET_ADDRESS leaves something for the closing handshake of its transfer. -/
  | address (s : Setup) (standard : s.kind = .standard)
    (request_eq : StandardRequest.ofByte? s.request = some .setAddress) (value_lt : s.value < 0x80) :
    Sound { stage := .status, setup := some s, pendingAddress := some s.valueLow }

/-- Endpoint 0 has the number 0 only. -/
theorem Endpoint.ofByte?_eq_control {n : UInt8} (h : Endpoint.ofByte? n = some .control) : n = 0 := by
  rw [ofByte?] at h
  split at h
  · have hval : n.toNat = 0 := congrArg Fin.val (Option.some.inj h)
    exact UInt8.toNat_inj.mp hval
  · cases h

/-- An address that fits seven bits is the low byte of the argument that names it. -/
theorem Setup.valueLow_of_lt {s : Setup} (h : s.value < 0x80) :
    s.valueLow < 0x80 ∧ s.value.toNat = s.valueLow.toNat := by
  have hvalue : s.value.toNat < 0x80 := h
  have hlow : s.valueLow.toNat = s.value.toNat := by
    rw [valueLow, UInt8.toNat_ofNat']
    omega
  refine ⟨?_, hlow.symm⟩
  rw [UInt8.lt_iff_toNat_lt, hlow]
  exact hvalue

namespace Transfer.Sound

variable {t : Transfer}

theorem of_idle (h : t.Sound) (hstage : t.stage = .idle) : t = {} := by
  cases h with
  | idle => rfl
  | dataIn | dataOut | status | address => cases hstage

theorem of_dataIn (h : t.Sound) (hstage : t.stage = .dataIn) :
    ∃ s sending, sending.Sends s ∧ t = { stage := .dataIn, setup := some s, sending } := by
  cases h with
  | dataIn s sending h => exact ⟨s, sending, h, rfl⟩
  | idle | dataOut | status | address => cases hstage

theorem of_dataOut (h : t.Sound) (hstage : t.stage = .dataOut) :
    ∃ s receiving, receiving.Receives s ∧
      t = { stage := .dataOut, setup := some s, receiving } := by
  cases h with
  | dataOut s receiving h => exact ⟨s, receiving, h, rfl⟩
  | idle | dataIn | status | address => cases hstage

theorem idle_iff (h : t.Sound) : t.stage = .idle ↔ t.setup = none := by
  cases h with
  | idle => exact ⟨fun _ => rfl, fun _ => rfl⟩
  | dataIn | dataOut | status | address => exact ⟨nofun, nofun⟩

/-- An address waits for the closing handshake of the request that named it. -/
theorem of_address (h : t.Sound) {address : UInt8} (haddress : t.pendingAddress = some address) :
    t.stage = .status ∧ address < 0x80 ∧ ∃ s, t.setup = some s ∧ s.kind = .standard ∧
      StandardRequest.ofByte? s.request = some .setAddress ∧ s.value.toNat = address.toNat := by
  cases h with
  | address s hstandard hrequest hvalue =>
    obtain rfl := Option.some.inj haddress
    obtain ⟨hseven, hsame⟩ := Setup.valueLow_of_lt hvalue
    exact ⟨rfl, hseven, s, rfl, hstandard, hrequest, hsame⟩
  | idle | dataIn | dataOut | status => cases haddress

/-- The closing handshake leaves nothing behind. -/
theorem close (h : t.Sound) (hstage : t.stage = .status) :
    { t with stage := .idle, setup := none, pendingAddress := none } = ({} : Transfer) := by
  cases h with
  | status | address => rfl
  | idle | dataIn | dataOut => cases hstage

end Transfer.Sound

namespace Link

variable {ω : Type} [Controller ω]

/-! ## Serving endpoint 0 -/

theorem sound_continueIn {s : Setup} {m : Movement} (h : m.Sends s) {p : Link ω}
    (hp : p.device.transfer = { stage := .dataIn, setup := some s, sending := m }) :
    p.continueIn.device.transfer.Sound := by
  rcases p.transfer_continueIn with hsame | hlast | ⟨hfull, hmore⟩
  · rw [hsame, hp]
    exact .dataIn s m h
  · rw [hlast, hp]
    exact .status s
  · rw [hp] at hfull
    rw [hmore, hp]
    refine .dataIn s _ ⟨h.asked, ?_, h.total_le, h.total_le_payload, ?_⟩
    · have hcount := h.count_le
      have hpos : 0 < maxPacket := by decide
      simp only at hfull ⊢
      omega
    · exact Nat.dvd_add h.full (Nat.dvd_refl _)

theorem sound_continueOut {s : Setup} {m : Movement} (h : m.Receives s) {p : Link ω}
    (hp : p.device.transfer = { stage := .dataOut, setup := some s, receiving := m }) :
    p.continueOut.device.transfer.Sound := by
  have hsetup : p.device.setup = some s := congrArg Transfer.setup hp
  rcases p.transfer_continueOut with ⟨count, hcount, hmore⟩ | ⟨q, hq, hdone⟩
  · rw [hp] at hcount
    rw [hmore, hp]
    refine .dataOut s _ ⟨h.standard, h.request_eq, h.total_eq, ?_⟩
    rcases hcount with hsame | hless
    · rw [hsame]
      exact h.count_lt
    · exact hless
  · rw [hdone, transfer_dataOutComplete (hq.trans hsetup) h.request_eq]
    exact .idle

/-- An answer begins with nothing sent. -/
theorem sends_dataInStage {s : Setup} (hasked : s.length ≠ 0) (payload : Payload) :
    Movement.Sends ⟨payload, 0, min (payload.length % 65536) s.length.toNat⟩ s where
  asked := UInt16.pos_iff_ne_zero.mpr hasked
  count_le := Nat.zero_le _
  total_le := Nat.min_le_right _ _
  total_le_payload := Nat.le_trans (Nat.min_le_left _ _) (Nat.mod_le _ _)
  full := Nat.dvd_zero _

/-- A reply is carried out on a transfer that has only its SETUP packet. -/
theorem sound_carryOut {s : Setup} {reply : ControlReply} {p : Link ω}
    (hp : p.device.transfer = { setup := some s })
    (hreceive : reply = .receive →
      s.kind = .standard ∧ StandardRequest.ofByte? s.request = some .setDescriptor) :
    (p.carryOut s reply).device.transfer.Sound := by
  have hclose : ∀ release, { p.tell (.rxDone .control release) with
      device.stage := .status }.device.transfer = { stage := .status, setup := some s } :=
    fun _ => congrArg (fun t : Transfer => { t with stage := .status }) hp
  cases reply with
  | noData =>
    rw [carryOut, hclose]
    exact .status s
  | stall =>
    rw [carryOut, transfer_stallControl]
    exact .idle
  | data payload =>
    rw [carryOut_data]
    split
    · rw [hclose]
      exact .status s
    · next hasked =>
      refine sound_continueIn (sends_dataInStage hasked payload) ?_
      rw [transfer_dataInStage, hp]
  | receive =>
    obtain ⟨hstandard, hrequest⟩ := hreceive rfl
    rw [carryOut_receive]
    split
    · have hsetup : (p.tell (.rxDone .control true)).device.setup = some s :=
        congrArg Transfer.setup hp
      rw [transfer_dataOutComplete hsetup hrequest]
      exact .idle
    · next hasked =>
      rw [transfer_dataOutStage, hp]
      exact .dataOut s _ ⟨hstandard, hrequest, rfl, UInt16.pos_iff_ne_zero.mpr hasked⟩

/-- A SETUP packet is taken when nothing is in flight. -/
theorem sound_handleSetup (s : Setup) {p : Link ω} (hp : p.device.transfer = {}) :
    (p.handleSetup s).device.transfer.Sound := by
  have hstored : ({ p with device.setup := some s } : Link ω).device.transfer =
      { setup := some s } := congrArg (fun t : Transfer => { t with setup := some s }) hp
  rw [handleSetup]
  generalize ({ p with device.setup := some s } : Link ω) = q at hstored ⊢
  cases hkind : s.kind with
  | standard =>
    simp only
    rcases transfer_standardRequest s q with
      ⟨hsame, hreceive⟩ | ⟨hreply, hrequest, hvalue, haddress⟩
    · exact sound_carryOut (hsame.trans hstored) fun h => ⟨hkind, hreceive h⟩
    · -- The address is there already when the reply is carried out.
      rw [hreply]
      have hclosing : ((q.standardRequest s).2.carryOut s .noData).device.transfer =
          { (q.standardRequest s).2.device.transfer with stage := .status } := rfl
      rw [hclosing, haddress, hstored]
      exact .address s hkind hrequest hvalue
  | deviceClass | vendor | reserved =>
    exact sound_carryOut hstored fun hreceive => absurd hreceive (by decide)

/-- What was latched about endpoint 0 ends the transfer or leaves it alone. -/
theorem sound_caughtUp {p : Link ω} (h : p.device.transfer.Sound) :
    p.caughtUp.device.transfer.Sound ∧ p.caughtUp.device.stage ≠ .status := by
  have hdevice := (talks_ask .controlEvents p).device_eq
  rw [caughtUp]
  rw [← hdevice] at h
  generalize p.ask .controlEvents = asked at h
  obtain ⟨events, q⟩ := asked
  simp only at h ⊢
  have haborted : (if events.sentStall || events.setupEnd then q.abortControl
      else q).device.transfer.Sound := by
    split
    · rw [transfer_abortControl]
      exact .idle
    · exact h
  generalize (if events.sentStall || events.setupEnd then q.abortControl else q) = r
    at haborted ⊢
  split
  · next hstage =>
    have hdone : r.completeStatus.device.transfer = {} :=
      r.transfer_completeStatus.trans (haborted.close hstage)
    have hidle : r.completeStatus.device.stage = .idle := congrArg Transfer.stage hdone
    rw [hdone, hidle]
    exact ⟨.idle, by decide⟩
  · next hstage => exact ⟨haborted, hstage⟩

/-- Serving endpoint 0 goes on with a data stage, or takes a SETUP packet when nothing is in flight,
or finds nothing to do. -/
theorem serviceControl_cases {p : Link ω} (h : p.device.transfer.Sound) :
    (∃ (s : Setup) (sending : Movement), sending.Sends s ∧
      p.caughtUp.device.transfer = { stage := .dataIn, setup := some s, sending } ∧
      p.serviceControl = p.caughtUp.continueIn) ∨
    (∃ (s : Setup) (receiving : Movement), receiving.Receives s ∧
      p.caughtUp.device.transfer = { stage := .dataOut, setup := some s, receiving } ∧
      p.serviceControl = p.caughtUp.continueOut) ∨
    (∃ s q, p.caughtUp.device.stage = .idle ∧ p.takenSetup? = some (s, q) ∧
      q.device.transfer = {} ∧ p.serviceControl = q.handleSetup s) ∨
    (p.caughtUp.device.stage = .idle ∧ p.takenSetup? = none ∧
      p.serviceControl.device.transfer = {}) := by
  obtain ⟨hcaught, hstatus⟩ := sound_caughtUp h
  rw [serviceControl_eq, takenSetup?]
  generalize p.caughtUp = c at hcaught hstatus ⊢
  simp only
  cases hstage : c.device.stage with
  | dataIn =>
    obtain ⟨s, sending, hsends, hc⟩ := hcaught.of_dataIn hstage
    exact .inl ⟨s, sending, hsends, hc, rfl⟩
  | dataOut =>
    obtain ⟨s, receiving, hreceives, hc⟩ := hcaught.of_dataOut hstage
    exact .inr (.inl ⟨s, receiving, hreceives, hc, rfl⟩)
  | status => exact absurd hstage hstatus
  | idle =>
    have hquiet : (c.ask (.rxReady .control)).2.device.transfer = {} := by
      rw [(talks_ask (.rxReady .control) c).device_eq]
      exact hcaught.of_idle hstage
    simp only
    generalize c.ask (.rxReady .control) = asked at hquiet ⊢
    obtain ⟨ready, q⟩ := asked
    simp only at hquiet ⊢
    cases ready with
    | false => exact .inr (.inr (.inr ⟨trivial, rfl, hquiet⟩))
    | true =>
      simp only [if_true]
      rw [receiveSetup_eq]
      cases hoffered : q.offered? with
      | some offered =>
        obtain ⟨s, r⟩ := offered
        have hr := (transfer_offered hoffered).trans hquiet
        exact .inr (.inr (.inl ⟨s, r, trivial, rfl, hr, rfl⟩))
      | none => exact .inr (.inr (.inr ⟨trivial, rfl, transfer_stallControl _⟩))

theorem sound_serviceControl {p : Link ω} (h : p.device.transfer.Sound) :
    p.serviceControl.device.transfer.Sound := by
  rcases serviceControl_cases h with
    ⟨s, _, hsends, hc, hserved⟩ | ⟨s, _, hreceives, hc, hserved⟩ | ⟨s, q, _, _, hq, hserved⟩ |
      ⟨_, _, hquiet⟩
  · rw [hserved]
    exact sound_continueIn hsends hc
  · rw [hserved]
    exact sound_continueOut hreceives hc
  · rw [hserved]
    exact sound_handleSetup s hq
  · rw [hquiet]
    exact .idle

theorem sound_onInterrupt {p : Link ω} (h : p.device.transfer.Sound) :
    p.onInterrupt.device.transfer.Sound := by
  cases hreached : p.reached? with
  | none =>
    rcases transfer_onInterrupt_of_not_reached hreached with hsame | hclear
    · rwa [hsame]
    · rw [hclear]
      exact .idle
  | some reached =>
    obtain ⟨s, q⟩ := reached
    rw [← transfer_reached hreached] at h
    rw [onInterrupt_of_reached hreached, transfer_note, serviceEndpointZero]
    split
    · exact sound_serviceControl (p := { q with device.current := some ⟨0, .toDevice⟩ }) h
    · exact h

/-! ## Sending -/

/-- The link when the first packet of an answer is sent, if a SETUP packet is answered with data. -/
def answers? (s : Setup) (p : Link ω) : Option (Link ω) :=
  match s.kind, { p with device.setup := some s }.standardRequest s with
  | .standard, (.data payload, q) => if s.length = 0 then none else some (q.dataInStage s payload)
  | _, _ => none

/-- The link when endpoint 0 sends a packet, if it comes to that. -/
def sends? (p : Link ω) : Option (Link ω) :=
  if p.caughtUp.device.stage = .dataIn then some p.caughtUp
  else p.takenSetup?.bind fun (s, q) => q.answers? s

/-- The link when an interrupt sends a packet on endpoint 0, if it comes to that. -/
def interruptSends? (p : Link ω) : Option (Link ω) :=
  p.reached?.bind fun (s, q) =>
    if s.pending 0 then { q with device.current := some ⟨0, .toDevice⟩ }.sends? else none

theorem handleSetup_of_answers {s : Setup} {p q : Link ω} (h : p.answers? s = some q) :
    p.handleSetup s = q.continueIn := by
  rw [answers?] at h
  split at h
  · next payload r hkind hanswered =>
    split at h
    · cases h
    · next hasked =>
      cases h
      simp only [handleSetup, hkind, hanswered]
      rw [carryOut_data, if_neg hasked]
  · cases h

theorem sends_of_answers {s : Setup} {p q : Link ω} (hp : p.device.transfer = {})
    (h : p.answers? s = some q) :
    ∃ sending : Movement, sending.Sends s ∧
      q.device.transfer = { stage := .dataIn, setup := some s, sending } := by
  rw [answers?] at h
  split at h
  · next payload r _ hanswered =>
    split at h
    · cases h
    · next hasked =>
      cases h
      refine ⟨_, sends_dataInStage hasked payload, ?_⟩
      rcases transfer_standardRequest s { p with device.setup := some s } with
        ⟨hsame, _⟩ | ⟨hreply, _⟩
      · rw [hanswered] at hsame
        rw [transfer_dataInStage, hsame]
        exact congrArg (fun t : Transfer => { t with
          stage := .dataIn
          setup := some s
          sending := ⟨payload, 0, min (payload.length % 65536) s.length.toNat⟩ }) hp
      · rw [hanswered] at hreply
        cases hreply
  · cases h

theorem stage_dataOutComplete (p : Link ω) : p.dataOutComplete.device.stage ≠ .dataIn := by
  rw [dataOutComplete]
  simp only
  split
  · exact fun h => by cases h
  · exact fun h => by cases h

/-- Without data for the host no stage begins that sends it. -/
theorem stage_handleSetup_of_not_answers {s : Setup} {p : Link ω} (h : p.answers? s = none) :
    (p.handleSetup s).device.stage ≠ .dataIn := by
  rw [handleSetup]
  rw [answers?] at h
  cases hkind : s.kind with
  | standard =>
    simp only [hkind] at h ⊢
    generalize standardRequest s { p with device.setup := some s } = answered at h ⊢
    obtain ⟨reply, q⟩ := answered
    cases reply with
    | noData | stall => exact fun h => by cases h
    | data payload =>
      by_cases hasked : s.length = 0
      · simp only [carryOut_data, hasked, if_true]
        exact fun h => by cases h
      · simp [hasked] at h
    | receive =>
      simp only [carryOut_receive]
      split
      · exact stage_dataOutComplete _
      · exact fun h => by cases h
  | deviceClass | vendor | reserved => exact fun h => by cases h

/-- A packet is sent in a data stage that fits its SETUP packet, and without one no such stage is
left. -/
theorem serviceControl_sends {p : Link ω} (h : p.device.transfer.Sound) :
    (∃ q, p.sends? = some q ∧ p.serviceControl = q.continueIn ∧
      ∃ (s : Setup) (sending : Movement), sending.Sends s ∧
        q.device.transfer = { stage := .dataIn, setup := some s, sending }) ∨
    (p.sends? = none ∧ p.serviceControl.device.stage ≠ .dataIn) := by
  rw [sends?]
  rcases serviceControl_cases h with
    ⟨s, sending, hsends, hc, hserved⟩ | ⟨s, receiving, _, hc, hserved⟩ |
      ⟨s, q, hidle, htaken, hq, hserved⟩ | ⟨hidle, htaken, hquiet⟩
  · have hstage : p.caughtUp.device.stage = .dataIn := congrArg Transfer.stage hc
    rw [if_pos hstage]
    exact .inl ⟨_, rfl, hserved, s, sending, hsends, hc⟩
  · have hstage : p.caughtUp.device.stage = .dataOut := congrArg Transfer.stage hc
    have htaken : p.takenSetup? = none := by rw [takenSetup?, hstage]
    rw [if_neg (by rw [hstage]; decide), htaken, hserved]
    refine .inr ⟨rfl, ?_⟩
    rcases p.caughtUp.transfer_continueOut with ⟨count, _, hmore⟩ | ⟨q, _, hdone⟩
    · have hafter : p.caughtUp.continueOut.device.stage = p.caughtUp.device.stage :=
        congrArg Transfer.stage hmore
      rw [hafter, hstage]
      decide
    · rw [hdone]
      exact stage_dataOutComplete q
  · rw [if_neg (by rw [hidle]; decide), htaken, Option.bind_some]
    simp only
    cases hanswers : q.answers? s with
    | some r =>
      exact .inl ⟨r, rfl, hserved.trans (handleSetup_of_answers hanswers), s,
        sends_of_answers hq hanswers⟩
    | none =>
      rw [hserved]
      exact .inr ⟨rfl, stage_handleSetup_of_not_answers hanswers⟩
  · have hafter : p.serviceControl.device.stage = .idle := congrArg Transfer.stage hquiet
    rw [if_neg (by rw [hidle]; decide), htaken, hafter]
    exact .inr ⟨rfl, by decide⟩

/-- The same of an interrupt, except that it may leave a data stage alone. -/
theorem onInterrupt_sends {p : Link ω} (h : p.device.transfer.Sound) :
    (∃ q, p.interruptSends? = some q ∧
      (∃ status, p.onInterrupt = (bulkWork status).foldl note q.continueIn) ∧
      ∃ (s : Setup) (sending : Movement), sending.Sends s ∧
        q.device.transfer = { stage := .dataIn, setup := some s, sending }) ∨
    (p.interruptSends? = none ∧ (p.onInterrupt.device.stage = .dataIn →
      p.onInterrupt.device.transfer = p.device.transfer)) := by
  rw [interruptSends?]
  cases hreached : p.reached? with
  | none =>
    refine .inr ⟨rfl, fun hstage => ?_⟩
    rcases transfer_onInterrupt_of_not_reached hreached with hsame | hclear
    · exact hsame
    · have hidle : p.onInterrupt.device.stage = .idle := congrArg Transfer.stage hclear
      rw [hidle] at hstage
      cases hstage
  | some reached =>
    obtain ⟨status, q⟩ := reached
    have hq := transfer_reached hreached
    rw [← hq] at h ⊢
    rw [onInterrupt_of_reached hreached, serviceEndpointZero, Option.bind_some]
    simp only
    split
    · rcases serviceControl_sends (p := { q with device.current := some ⟨0, .toDevice⟩ }) h with
        ⟨r, hsends, hserved, hfits⟩ | ⟨hnone, hstage⟩
      · rw [hserved]
        exact .inl ⟨r, hsends, ⟨status, rfl⟩, hfits⟩
      · refine .inr ⟨hnone, fun hafter => absurd ?_ hstage⟩
        exact (congrArg Transfer.stage (transfer_note (bulkWork status) _)).symm.trans hafter
    · exact .inr ⟨rfl, fun _ => transfer_note _ q⟩

end Link

/-! ## Runs -/

namespace Operation

variable {ω : Type} [Controller ω]

omit [Controller ω] in
/-- The operation does not halt endpoint 0, as the main loop never does. -/
def SparesControl : Operation ω → Prop
  | stallEndpoint ep _ => ep ≠ 0
  | _ => True

instance (op : Operation ω) : Decidable op.SparesControl :=
  match op with
  | stallEndpoint ep _ => inferInstanceAs (Decidable (ep ≠ 0))
  | attach | detach | interrupt | takeWork | rxPending _ | readPacket _ _ | fill _ _ | write _ _
  | outside _ => .isTrue trivial

theorem sound_run {op : Operation ω} (hspares : op.SparesControl) {p : Link ω}
    (h : p.device.transfer.Sound) : (op.run p).device.transfer.Sound := by
  have htalks : ∀ q : Link ω, Talks p q → q.device.transfer.Sound := by
    intro q hq
    rwa [hq.device_eq]
  cases op with
  | attach => exact h
  | detach =>
    rw [run, Link.transfer_detach]
    exact .idle
  | interrupt => exact Link.sound_onInterrupt h
  | takeWork => exact h
  | rxPending | readPacket | fill | write => exact htalks _ (talks_run (by trivial) p)
  | stallEndpoint ep dir =>
    show (p.stallEndpoint ep dir).device.transfer.Sound
    rw [Link.stallEndpoint]
    split
    · exact h
    · next e he =>
      have hbulk : e ≠ .control := fun hcontrol => hspares (Endpoint.ofByte?_eq_control (hcontrol ▸ he))
      rwa [Link.transfer_halt hbulk]
  | outside f => exact h

theorem sound_runAll {ops : List (Operation ω)} (hspares : ∀ op ∈ ops, op.SparesControl)
    {p : Link ω} (h : p.device.transfer.Sound) : (runAll ops p).device.transfer.Sound := by
  induction ops generalizing p with
  | nil => exact h
  | cons op ops ih =>
    exact ih (fun op' hop' => hspares op' (List.mem_cons_of_mem op hop'))
      (sound_run (hspares op List.mem_cons_self) h)

end Operation

/-- What a packet brings the count to fits what was announced, and so sixteen bits. -/
theorem Movement.Sends.count_add_le {m : Movement} {s : Setup} (h : m.Sends s) :
    m.count + (m.payload.slice m.count (min (m.total - m.count) maxPacket)).length ≤
      s.length.toNat := by
  have hcount := h.count_le
  have htotal := h.total_le
  simp only [Payload.slice_eq, List.length_take]
  omega

/-- The control transfer of a device fits together.

From power-on some operations led to `p`, on any hardware, and none of them but the host's requests
halted endpoint 0.  Then the stage, the SETUP packet, the address that waits and the records of
endpoint 0 fit together.  If the next interrupt sends a packet on endpoint 0, then what is left is
counted and what was sent is added up within sixteen bits.  If it sends none, it neither begins nor
advances a data stage to the host. -/
theorem control_transfer_sound {ω : Type} [Controller ω] (descriptors : Descriptors)
    (budget : WaitBudget) (w : ω) (ops : List (Operation ω))
    (hspares : ∀ op ∈ ops, op.SparesControl) :
    let p := Operation.runAll ops ⟨{ descriptors, budget }, w⟩
    let d := p.device
    let record := d.endpoints.get .control
    (d.stage = .idle ↔ d.setup = none) ∧
    (d.stage = .idle → d.pendingAddress = none ∧
      ∀ dir, (record dir).payload = .empty ∧ (record dir).count = 0 ∧ (record dir).total = 0) ∧
    (∀ address, d.pendingAddress = some address →
      d.stage = .status ∧ address < 0x80 ∧ ∃ s, d.setup = some s ∧ s.kind = .standard ∧
        StandardRequest.ofByte? s.request = some .setAddress ∧ s.value.toNat = address.toNat) ∧
    (d.stage = .dataIn → ∃ s, d.setup = some s ∧ 0 < s.length ∧
      (record .toHost).count ≤ (record .toHost).total ∧
      (record .toHost).total ≤ s.length.toNat ∧
      (record .toHost).total ≤ (record .toHost).payload.length ∧ 64 ∣ (record .toHost).count) ∧
    (d.stage = .dataOut → ∃ s, d.setup = some s ∧ s.kind = .standard ∧
      StandardRequest.ofByte? s.request = some .setDescriptor ∧
      (record .toDevice).total = s.length.toNat ∧
      (record .toDevice).count < (record .toDevice).total) ∧
    (∀ q, p.interruptSends? = some q →
      let sent := q.device.endpoints.get .control .toHost
      let packet := sent.payload.slice sent.count (min (sent.total - sent.count) maxPacket)
      (∃ status, p.onInterrupt = (Link.bulkWork status).foldl Link.note q.continueIn) ∧
        sent.count ≤ sent.total ∧ sent.count + packet.length < 65536) ∧
    (p.interruptSends? = none → p.onInterrupt.device.stage = .dataIn →
      p.onInterrupt.device.transfer = d.transfer) := by
  intro p d record
  have hstart : (Link.mk ({ descriptors, budget } : Device) w).device.transfer.Sound := by
    have hidle : (Link.mk ({ descriptors, budget } : Device) w).device.transfer = {} := by
      simp [Device.transfer, EndpointStatus.movement]
    rw [hidle]
    exact .idle
  have hsound : d.transfer.Sound := Operation.sound_runAll hspares hstart
  refine ⟨hsound.idle_iff, fun hstage => ?_, fun address => hsound.of_address,
    fun hstage => ?_, fun hstage => ?_, fun q hq => ?_, fun hnone => ?_⟩
  · have hidle := hsound.of_idle hstage
    refine ⟨congrArg Transfer.pendingAddress hidle, fun dir => ?_⟩
    have hquiet : (record dir).movement = {} := by
      cases dir with
      | toHost => exact congrArg Transfer.sending hidle
      | toDevice => exact congrArg Transfer.receiving hidle
    exact ⟨congrArg Movement.payload hquiet, congrArg Movement.count hquiet,
      congrArg Movement.total hquiet⟩
  · obtain ⟨s, sending, hsends, ht⟩ := hsound.of_dataIn hstage
    obtain rfl : (record .toHost).movement = sending := congrArg Transfer.sending ht
    exact ⟨s, congrArg Transfer.setup ht, hsends.asked, hsends.count_le, hsends.total_le,
      hsends.total_le_payload, hsends.full⟩
  · obtain ⟨s, receiving, hreceives, ht⟩ := hsound.of_dataOut hstage
    obtain rfl : (record .toDevice).movement = receiving := congrArg Transfer.receiving ht
    exact ⟨s, congrArg Transfer.setup ht, hreceives.standard, hreceives.request_eq,
      hreceives.total_eq, hreceives.count_lt⟩
  · rcases Link.onInterrupt_sends hsound with ⟨q', hq', hstatus, s, sending, hsends, ht⟩ | ⟨hno, _⟩
    · obtain rfl : q' = q := Option.some.inj (hq'.symm.trans hq)
      obtain rfl : (q'.device.endpoints.get .control .toHost).movement = sending :=
        congrArg Transfer.sending ht
      exact ⟨hstatus, hsends.count_le, Nat.lt_of_le_of_lt hsends.count_add_le s.length.toNat_lt⟩
    · rw [hno] at hq
      cases hq
  · rcases Link.onInterrupt_sends hsound with ⟨q', hq', _⟩ | ⟨_, hkept⟩
    · rw [hq'] at hnone
      cases hnone
    · exact hkept

/-! ## On the bench -/

section Bench

open Bench

/-- A device with a text of a hundred bytes. -/
def wordy : Device :=
  { descriptors := { strings := [languageDescriptor, List.replicate 100 0x41] } }

/-- The SETUP packet that asks for the text. -/
def textSetup : Setup :=
  { requestType := 0x80, request := 0x06, value := 0x0301, index := 0, length := 255 }

/-- The host asks for the text and is about to collect its first packet. -/
def askingForText : List (Operation FifoController) :=
  addressing ++ hostSends textSetup.toBytes ++ [.stallEndpoint 1 .toHost] ++
    [.outside (Driven.raise { tx := 1 })]

/-- A full packet of the text was sent, and the next interrupt sends the rest. -/
theorem control_transfer_sound_halfway :
    let p := Operation.runAll askingForText ⟨wordy, {}⟩
    (∀ op ∈ askingForText, op.SparesControl) ∧ p.device.stage = .dataIn ∧
      (p.device.endpoints.get .control .toHost).count = 64 ∧
      (p.device.endpoints.get .control .toHost).total = 100 ∧ p.interruptSends?.isSome ∧
      (∃ s, p.device.setup = some s ∧ 64 ∣ (p.device.endpoints.get .control .toHost).count) ∧
      ∀ q, p.interruptSends? = some q →
        (q.device.endpoints.get .control .toHost).count ≤
          (q.device.endpoints.get .control .toHost).total := by
  intro p
  have hspares : ∀ op ∈ askingForText, op.SparesControl := by decide
  have hstage : p.device.stage = .dataIn := by decide +kernel
  obtain ⟨_, _, _, hdata, _, hsends, _⟩ :=
    control_transfer_sound wordy.descriptors {} {} askingForText hspares
  obtain ⟨s, hsetup, _, _, _, _, hfull⟩ := hdata hstage
  refine ⟨hspares, hstage, by decide +kernel, by decide +kernel, by decide +kernel,
    ⟨s, hsetup, hfull⟩, fun q hq => (hsends q hq).2.1⟩

end Bench

end FlashProgrammer.Usb

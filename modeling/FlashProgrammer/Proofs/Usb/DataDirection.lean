import FlashProgrammer.Proofs.Usb.DescriptorPackets
import FlashProgrammer.Proofs.Usb.Refusals

/-!
# The direction of a data stage

A SETUP packet says in one bit which way its data goes, and its request says so too, because the
data of a standard request goes one way only.  The device goes by the request and by the bytes that
are announced.  It never looks at the bit.

`handled` sorts what becomes of a SETUP packet: it is rejected, a data stage begins in the direction
of its request, or it is accepted without one.  `handleSetup_withDirection` says that the bit makes
no difference.  So a bit that contradicts the request goes unnoticed, and so does data that is
announced for a request without any.
-/

namespace FlashProgrammer.Usb

open Trace

/-! ## What a request calls for -/

/-- The direction in which the data of a request goes, if it has any. -/
def StandardRequest.dataDirection? : StandardRequest → Option Direction
  | getStatus | getDescriptor | getConfiguration | getInterface => some .toHost
  | setDescriptor => some .toDevice
  | clearFeature | setFeature | setAddress | setConfiguration | setInterface => none

/-- The direction in which a reply moves data, if it moves any. -/
def ControlReply.dataDirection? : ControlReply → Option Direction
  | data _ => some .toHost
  | receive => some .toDevice
  | noData | stall => none

namespace Setup

/-- The direction of the data that the request of a SETUP packet has. -/
def requestDirection? (s : Setup) : Option Direction :=
  (StandardRequest.ofByte? s.request).bind StandardRequest.dataDirection?

/-- The same SETUP packet with another direction bit. -/
def withDirection (dir : Direction) (s : Setup) : Setup :=
  { s with requestType := UInt8.ofNat (s.requestType.toNat % 128 + 128 * dir.index) }

theorem toNat_withDirection (dir : Direction) (s : Setup) :
    (s.withDirection dir).requestType.toNat = s.requestType.toNat % 128 + 128 * dir.index := by
  have hdir := dir.index_lt
  rw [withDirection, UInt8.toNat_ofNat']
  omega

@[simp] theorem kind_withDirection (dir : Direction) (s : Setup) :
    (s.withDirection dir).kind = s.kind := by
  have hsame : (s.requestType.toNat % 128 + 128 * dir.index) / 32 % 4 =
      s.requestType.toNat / 32 % 4 := by omega
  rw [kind, kind, toNat_withDirection, hsame]

@[simp] theorem recipient_withDirection (dir : Direction) (s : Setup) :
    (s.withDirection dir).recipient = s.recipient := by
  have hsame : (s.requestType.toNat % 128 + 128 * dir.index) % 32 = s.requestType.toNat % 32 := by
    omega
  rw [recipient, recipient, toNat_withDirection, hsame]

@[simp] theorem direction_withDirection (dir : Direction) (s : Setup) :
    (s.withDirection dir).direction = dir := by
  have hbit : (s.requestType.toNat % 128 + 128 * dir.index) / 128 % 2 = dir.index := by
    have hdir := dir.index_lt
    omega
  rw [direction, toNat_withDirection, Nat.testBit_eq_decide_div_mod_eq, hbit]
  cases dir <;> rfl

end Setup

namespace Link

section Replies

variable {ω : Type} [Controller ω]

/-! ## Replies -/

/-- What a SETUP packet is answered with, and the link when that is carried out. -/
def verdict (s : Setup) (p : Link ω) : ControlReply × Link ω :=
  match s.kind with
  | .standard => { p with device.setup := some s }.standardRequest s
  | _ => (.stall, { p with device.setup := some s })

theorem handleSetup_eq (s : Setup) (p : Link ω) :
    p.handleSetup s = (p.verdict s).2.carryOut s (p.verdict s).1 := by
  rw [handleSetup, verdict]
  cases s.kind <;> rfl

/-- A reply moves data in the direction of the request, or refuses it. -/
theorem dataDirection_standardRequest (s : Setup) (p : Link ω) :
    (p.standardRequest s).1 = .stall ∨
      (p.standardRequest s).1.dataDirection? = s.requestDirection? := by
  have hconfigured : (p.setConfiguration s.value).1 = .stall ∨
      (p.setConfiguration s.value).1.dataDirection? = none := by
    rw [setConfiguration]
    repeat' split
    · exact .inr rfl
    · exact .inr rfl
    · exact .inl rfl
  rw [standardRequest, Setup.requestDirection?]
  split
  case h_10 hrequest _ => -- SET_CONFIGURATION
    rw [hrequest]
    split
    · exact hconfigured
    · exact .inl rfl
  -- The others answer at once.
  all_goals
    try simp only [‹StandardRequest.ofByte? s.request = some _›]
    repeat' split
    all_goals first | exact .inl rfl | exact .inr rfl

theorem dataDirection_verdict (s : Setup) (p : Link ω) :
    (p.verdict s).1 = .stall ∨ (p.verdict s).1.dataDirection? = s.requestDirection? := by
  rw [verdict]
  cases s.kind with
  | standard => exact dataDirection_standardRequest s _
  | deviceClass | vendor | reserved => exact .inl rfl

/-- A request that is not accepted at once has changed nothing. -/
theorem verdict_outcome (s : Setup) (p : Link ω) :
    p.verdict s = (.stall, { p with device.setup := some s }) ∨
    (p.verdict s = (.receive, { p with device.setup := some s }) ∧
      StandardRequest.ofByte? s.request = some .setDescriptor) ∨
    (p.verdict s).1.accepts = true := by
  rw [verdict]
  cases s.kind with
  | standard => exact standardRequest_outcome s _
  | deviceClass | vendor | reserved => exact .inl rfl

/-- A request for data changes nothing. -/
theorem standardRequest_of_data {s : Setup} {p q : Link ω} {payload : Payload}
    (h : p.standardRequest s = (.data payload, q)) : q = p := by
  rw [standardRequest] at h
  simp only [setConfiguration] at h
  repeat' split at h
  all_goals
    cases h
    try rfl

theorem verdict_of_data {s : Setup} {p q : Link ω} {payload : Payload}
    (h : p.verdict s = (.data payload, q)) : q = { p with device.setup := some s } := by
  rw [verdict] at h
  cases hkind : s.kind with
  | standard =>
    rw [hkind] at h
    exact standardRequest_of_data h
  | deviceClass | vendor | reserved =>
    rw [hkind] at h
    cases h

/-- Data is sent for a reply with data, if the host has asked for any. -/
theorem answers?_eq (s : Setup) (p : Link ω) :
    p.answers? s =
      match p.verdict s with
      | (.data payload, q) => if s.length = 0 then none else some (q.dataInStage s payload)
      | _ => none := by
  rw [answers?, verdict]
  cases s.kind with
  | standard =>
    generalize standardRequest s { p with device.setup := some s } = answered
    obtain ⟨reply, q⟩ := answered
    cases reply <;> rfl
  | deviceClass | vendor | reserved => rfl

theorem setup_of_answers {s : Setup} {p q : Link ω} (h : p.answers? s = some q) :
    q.device.setup = some s := by
  rw [answers?_eq] at h
  generalize hanswered : p.verdict s = answered at h
  obtain ⟨reply, r⟩ := answered
  cases reply with
  | data payload =>
    simp only at h
    split at h
    · cases h
    · cases h
      rw [verdict_of_data hanswered]
      rfl
  | noData | receive | stall => cases h

/-- What is answered with data is asked for it. -/
theorem direction_of_answers {s : Setup} {p q : Link ω} (h : p.answers? s = some q) :
    s.length ≠ 0 ∧ s.requestDirection? = some .toHost := by
  have hdirection := p.dataDirection_verdict s
  rw [answers?_eq] at h
  generalize p.verdict s = verdict at hdirection h
  obtain ⟨reply, r⟩ := verdict
  cases reply with
  | data payload =>
    simp only at h
    split at h
    · cases h
    · next hlength =>
      rcases hdirection with hstall | hsame
      · cases hstall
      · exact ⟨hlength, hsame.symm⟩
  | noData | receive | stall => cases h

/-! ## Another direction bit -/

omit [Controller ω] in
/-- The same link, except that the SETUP packet on record has another direction bit. -/
def redirected (dir : Direction) (p : Link ω) : Link ω :=
  { p with device.setup := p.device.setup.map (Setup.withDirection dir) }

theorem sendNext_redirected (dir : Direction) (p : Link ω) :
    (p.redirected dir).sendNext = p.sendNext.redirected dir := by
  have hlast : (p.redirected dir).device.nextIsLast = p.device.nextIsLast := by
    simp only [Device.nextIsLast, redirected]
    cases p.device.setup <;> rfl
  have hadvanced : (p.redirected dir).device.advanced =
      { p.device.advanced with
        setup := p.device.advanced.setup.map (Setup.withDirection dir) } := by
    rw [Device.advanced, Device.advanced, hlast]
    split <;> rfl
  rw [sendNext, hlast, hadvanced]
  rfl

theorem continueIn_redirected (dir : Direction) (p : Link ω) :
    (p.redirected dir).continueIn = p.continueIn.redirected dir := by
  have hask : (p.redirected dir).ask (.txBusy .control) =
      ((p.ask (.txBusy .control)).1, (p.ask (.txBusy .control)).2.redirected dir) := rfl
  rw [continueIn_eq, continueIn_eq, hask, sendNext_redirected, apply_ite (redirected dir)]

theorem dataOutComplete_redirected (dir : Direction) (p : Link ω) :
    (p.redirected dir).dataOutComplete = p.dataOutComplete.redirected dir := by
  simp only [dataOutComplete, setStatus, redirected]
  cases p.device.setup with
  | none => rfl
  | some s =>
    simp only [Option.map_some, Option.bind_some, Setup.withDirection]
    split <;> rfl

/-- A request is answered without a look at the bit or at the record. -/
theorem standardRequest_redirected (dir : Direction) (s : Setup) (p : Link ω) :
    (p.redirected dir).standardRequest (s.withDirection dir) =
      ((p.standardRequest s).1, (p.standardRequest s).2.redirected dir) := by
  have hsame : (p.redirected dir).standardRequest (s.withDirection dir) =
      (p.redirected dir).standardRequest s := by
    rw [standardRequest, Setup.recipient_withDirection]
    rfl
  have hendpoints : (p.redirected dir).device.endpoints = p.device.endpoints := rfl
  have hdescriptors : (p.redirected dir).device.descriptors = p.device.descriptors := rfl
  have hlifecycle : (p.redirected dir).device.lifecycle = p.device.lifecycle := rfl
  have hconfigured : (p.redirected dir).device.isConfigured = p.device.isConfigured := rfl
  have hchosen : (p.redirected dir).setConfiguration s.value =
      ((p.setConfiguration s.value).1, (p.setConfiguration s.value).2.redirected dir) := by
    simp only [setConfiguration, hdescriptors]
    split
    · rfl
    · split <;> rfl
  rw [hsame]
  simp only [standardRequest, hendpoints, hdescriptors, hlifecycle, hconfigured, hchosen]
  split
  all_goals repeat' split
  all_goals rfl

theorem carryOut_redirected (dir : Direction) (s : Setup) (reply : ControlReply) (p : Link ω) :
    (p.redirected dir).carryOut (s.withDirection dir) reply =
      (p.carryOut s reply).redirected dir := by
  have hlength : (s.withDirection dir).length = s.length := rfl
  cases reply with
  | noData | stall => rfl
  | data payload =>
    have hstage : (p.redirected dir).dataInStage (s.withDirection dir) payload =
        (p.dataInStage s payload).redirected dir := rfl
    rw [carryOut_data, carryOut_data, hlength, hstage, continueIn_redirected,
      apply_ite (redirected dir)]
    rfl
  | receive =>
    have hstage : (p.redirected dir).dataOutStage (s.withDirection dir) =
        (p.dataOutStage s).redirected dir := rfl
    have hdone : ((p.redirected dir).tell (.rxDone .control true)).dataOutComplete =
        (p.tell (.rxDone .control true)).dataOutComplete.redirected dir :=
      dataOutComplete_redirected dir (p.tell (.rxDone .control true))
    rw [carryOut_receive, carryOut_receive, hlength, hstage, hdone, apply_ite (redirected dir)]

/-- Whatever the direction bit, the same is done. -/
theorem handleSetup_withDirection (dir : Direction) (s : Setup) (p : Link ω) :
    p.handleSetup (s.withDirection dir) = (p.handleSetup s).redirected dir := by
  have hanswered := standardRequest_redirected dir s { p with device.setup := some s }
  have hstored : (redirected dir { p with device.setup := some s } : Link ω) =
      { p with device.setup := some (s.withDirection dir) } := rfl
  rw [hstored] at hanswered
  rw [handleSetup, handleSetup, Setup.kind_withDirection]
  cases s.kind with
  | standard =>
    simp only [hanswered]
    exact carryOut_redirected dir s _ _
  | deviceClass | vendor | reserved =>
    exact carryOut_redirected dir s .stall { p with device.setup := some s }

end Replies

/-! ## What becomes of a SETUP packet -/

section Handling

variable {ω : Type} [Controller ω]

/-- The SETUP packet was released and then endpoint 0 was stalled.  Nothing of the transfer is
left. -/
structure Rejects (p q : Link (Traced ω)) : Prop where
  transfer_eq : q.device.transfer = {}
  told : Drives [.rxDone .control true, .stall .control .toHost] p.hw q.hw

/-- A data stage to the host has begun: a packet was sent, or it will be as soon as the last one has
been collected. -/
def SendsData (p q : Link (Traced ω)) : Prop :=
  q.device.stage = .dataIn ∨ ∃ as last, Drives as p.hw q.hw ∧ .txReady .control last ∈ as

/-- A data stage from the host has begun. -/
def TakesData (q : Link (Traced ω)) : Prop := q.device.stage = .dataOut

section Exclusion

variable {p q : Link (Traced ω)}

omit [Controller ω] in
theorem not_sendsData_of_unseen (h : Sees Action.notable [] p.hw q.hw)
    (hstage : q.device.stage ≠ .dataIn) : ¬SendsData p q := by
  rintro (hdata | ⟨as, last, hdrives, hsent⟩)
  · exact hstage hdata
  · have hsees := hdrives.sees Action.notable
    rw [Sees, h, List.append_nil] at hsees
    have hnone : as.filter Action.notable = [] := List.append_right_eq_self.mp hsees.symm
    have hmem : .txReady .control last ∈ as.filter Action.notable :=
      List.mem_filter.mpr ⟨hsent, rfl⟩
    rw [hnone] at hmem
    cases hmem

omit [Controller ω] in
theorem Rejects.not_sends (h : Rejects p q) : ¬SendsData p q := by
  have hstage : q.device.stage = .idle := congrArg Transfer.stage h.transfer_eq
  refine not_sendsData_of_unseen (h.told.sees Action.notable) ?_
  rw [hstage]
  exact nofun

omit [Controller ω] in
theorem Rejects.not_takes (h : Rejects p q) : ¬TakesData q := by
  have hstage : q.device.stage = .idle := congrArg Transfer.stage h.transfer_eq
  rw [TakesData, hstage]
  exact nofun

end Exclusion

/-- What becomes of a SETUP packet. -/
inductive Handled (s : Setup) (p q : Link (Traced ω)) : Prop where
  | rejected (h : Rejects p q)
  | sends (h : SendsData p q) (htakes : ¬TakesData q) (hasked : s.length ≠ 0)
      (hrequest : s.requestDirection? = some .toHost)
  | takes (h : TakesData q) (hsends : ¬SendsData p q) (hannounced : s.length ≠ 0)
      (hrequest : s.requestDirection? = some .toDevice)
  /-- Accepted without a data stage. -/
  | bare (hstage : q.device.stage = .status) (hsends : ¬SendsData p q)
      (hnone : s.length = 0 ∨ s.requestDirection? = none)

/-- The first packet goes out, or it waits for the last one to be collected. -/
theorem sendsData_continueIn {p q : Link (Traced ω)} {as : List Action}
    (hdrives : Drives as p.hw q.hw) (hstage : q.device.stage = .dataIn) :
    SendsData p q.continueIn ∧ ¬TakesData q.continueIn := by
  have htakes : q.continueIn.device.stage ≠ .dataOut := by
    refine stage_continueIn ?_
    rw [hstage]
    exact nofun
  refine ⟨?_, htakes⟩
  have hask := hdrives.trans (drives_perform (.txBusy .control) q.hw)
  have hdevice := (talks_ask (.txBusy .control) q).device_eq
  rw [continueIn_eq]
  change Drives _ p.hw (q.ask (.txBusy .control)).2.hw at hask
  generalize q.ask (.txBusy .control) = asked at hask hdevice ⊢
  obtain ⟨_ | _, r⟩ := asked
  · have hwritten := hask.trans (drives_writeFifo .control r.device.nextPacket r.hw)
    have hsent := hwritten.trans
      (drives_perform (.txReady .control r.device.nextIsLast) (writeFifo .control _ r.hw))
    exact .inr ⟨_, r.device.nextIsLast, hsent, List.mem_append_right _ List.mem_cons_self⟩
  · refine .inl ?_
    exact (congrArg Device.stage hdevice).trans hstage

/-- New descriptors are refused as every other request that is refused. -/
theorem hw_dataOutComplete {s : Setup} {p : Link ω} (hsetup : p.device.setup = some s)
    (hrequest : StandardRequest.ofByte? s.request = some .setDescriptor) :
    p.dataOutComplete.hw = p.stallControl.hw := by
  have hkept : (p.setStatus .control .toDevice fun e => { e with count := 0 }).device.setup =
      some s := hsetup
  simp only [dataOutComplete, hkept, Option.bind_some, hrequest]
  rfl

/-- What is not answered with data is not seen to send any. -/
theorem not_sendsData_of_not_answers {s : Setup} {p : Link (Traced ω)} (h : p.answers? s = none) :
    ¬SendsData p (p.handleSetup s) := by
  have hsees := sees_handleSetup s p
  rw [h] at hsees
  exact not_sendsData_of_unseen hsees (stage_handleSetup_of_not_answers h)

/-- What becomes of a SETUP packet follows its request. -/
theorem handled (s : Setup) (p : Link (Traced ω)) : Handled s p (p.handleSetup s) := by
  have hdirection := p.dataDirection_verdict s
  have houtcome := p.verdict_outcome s
  have hunasked := not_sendsData_of_not_answers (s := s) (p := p)
  rw [answers?_eq] at hunasked
  rw [handleSetup_eq] at hunasked ⊢
  generalize hanswered : p.verdict s = answered at hdirection houtcome hunasked ⊢
  obtain ⟨reply, q⟩ := answered
  have hreleased : ∀ last,
      Drives [.rxDone .control last] q.hw (q.tell (.rxDone .control last)).hw :=
    fun last => drives_perform (.rxDone .control last) q.hw
  have hrefused : q = { p with device.setup := some s } →
      Rejects p (q.tell (.rxDone .control true)).stallControl := by
    rintro rfl
    exact ⟨transfer_stallControl _,
      (hreleased true).trans (drives_perform (.stall .control .toHost) _)⟩
  cases reply with
  | stall =>
    rcases houtcome with hstall | ⟨hreceive, -⟩ | haccepts
    · exact .rejected (hrefused (congrArg Prod.snd hstall))
    · cases congrArg Prod.fst hreceive
    · cases haccepts
  | noData =>
    have hnone : s.requestDirection? = none := (hdirection.resolve_left nofun).symm
    exact .bare rfl (hunasked rfl) (.inr hnone)
  | data payload =>
    have hrequest : s.requestDirection? = some .toHost := (hdirection.resolve_left nofun).symm
    rw [carryOut_data]
    rw [carryOut_data] at hunasked
    by_cases hlength : s.length = 0
    · rw [if_pos hlength]
      simp only [if_pos hlength] at hunasked
      exact .bare rfl (hunasked trivial) (.inl hlength)
    · rw [if_neg hlength]
      have hbegun : Drives [.rxDone .control false] p.hw (q.dataInStage s payload).hw := by
        rw [verdict_of_data hanswered]
        exact drives_perform (.rxDone .control false) p.hw
      obtain ⟨hsends, htakes⟩ := sendsData_continueIn hbegun rfl
      exact .sends hsends htakes hlength hrequest
  | receive =>
    have hrequest : s.requestDirection? = some .toDevice := (hdirection.resolve_left nofun).symm
    obtain ⟨hq, hdescriptor⟩ :
        q = { p with device.setup := some s } ∧
          StandardRequest.ofByte? s.request = some .setDescriptor := by
      rcases houtcome with hstall | ⟨hreceive, hdescriptor⟩ | haccepts
      · cases congrArg Prod.fst hstall
      · exact ⟨congrArg Prod.snd hreceive, hdescriptor⟩
      · cases haccepts
    rw [carryOut_receive]
    rw [carryOut_receive] at hunasked
    by_cases hlength : s.length = 0
    · have hkept : (q.tell (.rxDone .control true)).device.setup = some s := by
        rw [hq]
        rfl
      rw [if_pos hlength]
      refine .rejected ⟨transfer_dataOutComplete hkept hdescriptor, ?_⟩
      rw [hw_dataOutComplete hkept hdescriptor]
      exact (hrefused hq).told
    · rw [if_neg hlength]
      rw [if_neg hlength] at hunasked
      exact .takes rfl (hunasked rfl) hlength hrequest

/-- The rule for a data stage: it goes in the direction of the SETUP packet, and data that is
announced against the request, or that never moves, is refused. -/
structure Directed (s : Setup) (p q : Link (Traced ω)) : Prop where
  sends : SendsData p q → s.direction = .toHost
  takes : TakesData q → s.direction = .toDevice
  contradicted : ∀ dir, s.length ≠ 0 → s.requestDirection? = some dir → s.direction ≠ dir →
    Rejects p q
  unmoved : s.length ≠ 0 → ¬SendsData p q → ¬TakesData q → Rejects p q

theorem sendsData_iff (s : Setup) (p : Link (Traced ω)) :
    SendsData p (p.handleSetup s) ↔ ¬Rejects p (p.handleSetup s) ∧ s.length ≠ 0 ∧
      s.requestDirection? = some .toHost := by
  refine ⟨fun hsends => ⟨fun hrejects => hrejects.not_sends hsends, ?_⟩,
    fun ⟨hrejects, hasked, hrequest⟩ => ?_⟩
  · cases handled s p with
    | sends _ _ hasked hrequest => exact ⟨hasked, hrequest⟩
    | rejected h => exact absurd hsends h.not_sends
    | takes _ hno => exact absurd hsends hno
    | bare _ hno => exact absurd hsends hno
  · cases handled s p with
    | sends hsends => exact hsends
    | rejected h => exact absurd h hrejects
    | takes _ _ _ hother =>
      rw [hrequest] at hother
      cases hother
    | bare _ _ hnone =>
      rw [hrequest] at hnone
      exact absurd hnone (not_or.mpr ⟨hasked, nofun⟩)

theorem takesData_iff (s : Setup) (p : Link (Traced ω)) :
    TakesData (p.handleSetup s) ↔ ¬Rejects p (p.handleSetup s) ∧ s.length ≠ 0 ∧
      s.requestDirection? = some .toDevice := by
  refine ⟨fun htakes => ⟨fun hrejects => hrejects.not_takes htakes, ?_⟩,
    fun ⟨hrejects, hannounced, hrequest⟩ => ?_⟩
  · cases handled s p with
    | takes _ _ hannounced hrequest => exact ⟨hannounced, hrequest⟩
    | rejected h => exact absurd htakes h.not_takes
    | sends _ hno => exact absurd htakes hno
    | bare hstage =>
      rw [TakesData, hstage] at htakes
      cases htakes
  · cases handled s p with
    | takes htakes => exact htakes
    | rejected h => exact absurd h hrejects
    | sends _ _ _ hother =>
      rw [hrequest] at hother
      cases hother
    | bare _ _ hnone =>
      rw [hrequest] at hnone
      exact absurd hnone (not_or.mpr ⟨hannounced, nofun⟩)

/-- The rule is kept by those that are rejected, those without data and those whose bit is that of
their request. -/
theorem directed_iff (s : Setup) (p : Link (Traced ω)) :
    Directed s p (p.handleSetup s) ↔ Rejects p (p.handleSetup s) ∨ s.length = 0 ∨
      s.requestDirection? = some s.direction := by
  have hsendsIff := sendsData_iff s p
  have htakesIff := takesData_iff s p
  constructor
  · intro h
    by_cases hrejects : Rejects p (p.handleSetup s)
    · exact .inl hrejects
    by_cases hlength : s.length = 0
    · exact .inr (.inl hlength)
    refine .inr (.inr ?_)
    cases hrequest : s.requestDirection? with
    | none =>
      rw [hrequest] at hsendsIff htakesIff
      exact absurd (h.unmoved hlength (fun hsends => nomatch (hsendsIff.mp hsends).2.2)
        fun htakes => nomatch (htakesIff.mp htakes).2.2) hrejects
    | some dir =>
      by_cases hsame : s.direction = dir
      · rw [hsame]
      · exact absurd (h.contradicted dir hlength hrequest hsame) hrejects
  · rintro (hrejects | hlength | hrequest)
    · exact ⟨fun h => absurd h hrejects.not_sends, fun h => absurd h hrejects.not_takes,
        fun _ _ _ _ => hrejects, fun _ _ _ => hrejects⟩
    · exact ⟨fun h => absurd hlength (hsendsIff.mp h).2.1,
        fun h => absurd hlength (htakesIff.mp h).2.1, fun _ h => absurd hlength h,
        fun h => absurd hlength h⟩
    · rw [hrequest, Option.some.injEq] at hsendsIff htakesIff
      refine ⟨fun h => (hsendsIff.mp h).2.2, fun h => (htakesIff.mp h).2.2,
        fun dir _ hdir hne => ?_, fun hlength hsends htakes => ?_⟩
      · rw [hrequest] at hdir
        exact absurd (Option.some.inj hdir) hne
      · by_cases hrejects : Rejects p (p.handleSetup s)
        · exact hrejects
        cases hdir : s.direction with
        | toHost => exact absurd (hsendsIff.mpr ⟨hrejects, hlength, hdir⟩) hsends
        | toDevice => exact absurd (htakesIff.mpr ⟨hrejects, hlength, hdir⟩) htakes

end Handling

/-! ## Stages that go on -/

section Stages

variable {ω : Type} [Controller ω] {p q : Link ω}

/-- A data stage to the host is that of a request which has such data. -/
def AnswersRequest (p : Link ω) : Prop :=
  p.device.stage = .dataIn → ∃ s, p.device.setup = some s ∧ s.requestDirection? = some .toHost

omit [Controller ω] in
theorem AnswersRequest.of_transfer (h : p.AnswersRequest)
    (hsame : q.device.transfer = p.device.transfer) : q.AnswersRequest := by
  intro hstage
  have hsetup : q.device.setup = p.device.setup := congrArg Transfer.setup hsame
  rw [hsetup]
  exact h ((congrArg Transfer.stage hsame).symm.trans hstage)

/-- What is sent answers a request, whether it is the first packet or a later one. -/
theorem answersRequest_of_sends (hp : p.AnswersRequest) (h : p.sends? = some q) :
    ∃ s, q.device.setup = some s ∧ s.requestDirection? = some .toHost := by
  rw [sends?] at h
  split at h
  · next hstage =>
    cases h
    rcases p.caughtUp_cases with ⟨_, hcut⟩ | ⟨_, _, hcompleted⟩ | ⟨_, _, hsame⟩
    · rw [hcut] at hstage
      cases hstage
    · rw [hcompleted] at hstage
      cases hstage
    · have hdevice := (talks_ask .controlEvents p).device_eq
      rw [← hsame] at hdevice
      exact hp.of_transfer (congrArg Device.transfer hdevice) hstage
  · obtain ⟨⟨s, r⟩, _, hanswers⟩ := Option.bind_eq_some_iff.mp h
    exact ⟨s, setup_of_answers hanswers, (direction_of_answers hanswers).2⟩

theorem answersRequest_onInterrupt (hsound : p.device.transfer.Sound) (h : p.AnswersRequest) :
    p.onInterrupt.AnswersRequest := by
  intro hstage
  rcases onInterrupt_sends hsound with ⟨q, hsends, ⟨status, hafter⟩, _⟩ | ⟨_, hkept⟩
  · rw [interruptSends?] at hsends
    obtain ⟨⟨status', r⟩, hreached, hserved⟩ := Option.bind_eq_some_iff.mp hsends
    simp only at hserved
    split at hserved
    · have hreached : r.AnswersRequest := h.of_transfer (transfer_reached hreached)
      have hfacing : r.facingControl.AnswersRequest := hreached.of_transfer rfl
      obtain ⟨s, hsetup, hrequest⟩ := answersRequest_of_sends hfacing hserved
      have hsame : p.onInterrupt.device.setup = q.device.setup := by
        have hnoted := congrArg Transfer.setup (transfer_note (bulkWork status) q.continueIn)
        rw [hafter]
        refine hnoted.trans ?_
        rcases q.transfer_continueIn with hsent | hsent | ⟨_, hsent⟩
        all_goals exact congrArg Transfer.setup hsent
      exact ⟨s, hsame.trans hsetup, hrequest⟩
    · cases hserved
  · exact h.of_transfer (hkept hstage) hstage

end Stages

end Link

namespace Operation

variable {ω : Type} [Controller ω]

theorem answersRequest_run {op : Operation ω} (hspares : op.SparesControl) {p : Link ω}
    (hsound : p.device.transfer.Sound) (h : p.AnswersRequest) : (op.run p).AnswersRequest := by
  rcases transfer_run hspares p with rfl | hreset | ⟨_, _, hsame⟩
  · exact Link.answersRequest_onInterrupt hsound h
  · cases op with
    | interrupt => exact Link.answersRequest_onInterrupt hsound h
    | detach => exact nofun
    | _ => cases hreset
  · exact h.of_transfer hsame

/-- Whatever was done to a device, a data stage that goes on has the direction of its request. -/
theorem stage_follows_request {ops : List (Operation ω)} (hspares : ∀ op ∈ ops, op.SparesControl)
    {p : Link ω} (hidle : p.device.transfer = {}) :
    let d := (runAll ops p).device
    (d.stage = .dataIn → ∃ s, d.setup = some s ∧ s.requestDirection? = some .toHost) ∧
    (d.stage = .dataOut → ∃ s, d.setup = some s ∧ s.requestDirection? = some .toDevice) := by
  have hstart : p.device.transfer.Sound := by
    rw [hidle]
    exact .idle
  have hsound : (runAll ops p).device.transfer.Sound := sound_runAll hspares hstart
  have hanswers : (runAll ops p).AnswersRequest := by
    have hquiet : p.AnswersRequest := by
      intro hstage
      cases (congrArg Transfer.stage hidle).symm.trans hstage
    clear hidle hsound
    induction ops generalizing p with
    | nil => exact hquiet
    | cons op ops ih =>
      have hop := hspares op List.mem_cons_self
      exact ih (fun op' hop' => hspares op' (List.mem_cons_of_mem op hop'))
        (sound_run hop hstart) (answersRequest_run hop hstart hquiet)
  refine ⟨hanswers, fun hstage => ?_⟩
  obtain ⟨s, receiving, hreceives, htransfer⟩ := hsound.of_dataOut hstage
  refine ⟨s, congrArg Transfer.setup htransfer, ?_⟩
  rw [Setup.requestDirection?, hreceives.request_eq]
  rfl

end Operation

open Link

/-- A data stage goes the way of the request and never looks at the direction bit.

`q` is the link after a SETUP packet was handled, on any hardware and in any state.  Data goes to
the host exactly if the packet was not rejected, its request has such data and bytes were asked for,
and it comes from the host likewise.  So the rule for a data stage is kept exactly by the packets
that are rejected, those that announce no data and those whose bit is that of their request.  With
another bit the device does the same, action by action, and differs only in the packet it keeps. -/
theorem data_direction_exact {ω : Type} [Controller ω] (s : Setup) (p : Link ω) :
    ∃ q : Link (Traced ω), untraced q = p.handleSetup s ∧
      (SendsData (traced p) q ↔
        ¬Rejects (traced p) q ∧ s.length ≠ 0 ∧ s.requestDirection? = some .toHost) ∧
      (TakesData q ↔
        ¬Rejects (traced p) q ∧ s.length ≠ 0 ∧ s.requestDirection? = some .toDevice) ∧
      (Directed s (traced p) q ↔
        Rejects (traced p) q ∨ s.length = 0 ∨ s.requestDirection? = some s.direction) ∧
      ∀ dir, (traced p).handleSetup (s.withDirection dir) = q.redirected dir :=
  ⟨(traced p).handleSetup s, (handleSetup_untraced s (traced p)).symm, sendsData_iff s _,
    takesData_iff s _, directed_iff s _, fun dir => handleSetup_withDirection dir s _⟩

/-- A SETUP packet that announces data but is neither rejected nor in accord with its request breaks
the rule. -/
theorem Link.not_directed {ω : Type} [Controller ω] {s : Setup} {p : Link ω}
    (hstage : (p.handleSetup s).device.stage ≠ .idle) (hannounced : s.length ≠ 0)
    (hrequest : s.requestDirection? ≠ some s.direction) :
    ¬Directed s (traced p) ((traced p).handleSetup s) := by
  intro h
  have hsame : p.handleSetup s = untraced ((traced p).handleSetup s) :=
    handleSetup_untraced s (traced p)
  rcases (directed_iff s (traced p)).mp h with hrejects | hlength | hright
  · refine hstage ?_
    rw [hsame]
    exact congrArg Transfer.stage hrejects.transfer_eq
  · exact hannounced hlength
  · exact hrequest hright

/-! ## On the bench -/

section Bench

open Bench

/-- The SETUP packet that asks for eight bytes of a descriptor and announces them as from the
host. -/
def descriptorSetupOut : Setup :=
  { requestType := 0x00, request := 0x06, value := 0x0100, index := 0, length := 8 }

/-- The SETUP packet that sends a descriptor and announces it as for the host. -/
def descriptorsSetupIn : Setup :=
  { requestType := 0x80, request := 0x07, value := 0x0300, index := 0, length := 8 }

/-- The SETUP packet that gives address 7 and announces eight bytes from the host. -/
def longAddressSetup : Setup :=
  { requestType := 0x00, request := 0x05, value := 7, index := 0, length := 8 }

/-- A packet of endpoint 0 waits for the next interrupt. -/
def hostOffers (packet : List UInt8) : List (Operation FifoController) :=
  [.outside (Driven.deliver .control packet), .outside (Driven.raise { rx := 1 })]

/-- The device is configured, and the host sends it a SETUP packet. -/
def offering (s : Setup) : Link FifoController :=
  Operation.runAll (addressing ++ hostSends (configurationSetup 1).toBytes ++ hostCollects ++
    hostOffers s.toBytes) ⟨{}, {}⟩

/-- A device that is configured takes each of these packets and breaks the rule.  The bytes that
follow the last of them are taken for a SETUP packet. -/
theorem data_against_direction :
    (∀ s ∈ [descriptorSetupOut, descriptorsSetupIn, longAddressSetup],
      ∃ q, (offering s).setup? = some (s, q) ∧
        ¬Directed s (traced q) ((traced q).handleSetup s)) ∧
    (Operation.runAll (.interrupt :: hostOffers (configurationSetup 0).toBytes)
      (offering longAddressSetup)).setup?.map Prod.fst = some (configurationSetup 0) := by
  have htaken : ∀ s ∈ [descriptorSetupOut, descriptorsSetupIn, longAddressSetup],
      s.length ≠ 0 ∧ s.requestDirection? ≠ some s.direction ∧
        ((offering s).setup?.any fun (s', q) =>
          s' = s ∧ (q.handleSetup s).device.stage ≠ .idle) = true := by
    decide +kernel
  refine ⟨fun s hs => ?_, by decide +kernel⟩
  obtain ⟨hannounced, hrequest, hany⟩ := htaken s hs
  cases hsetup : (offering s).setup? with
  | none =>
    rw [hsetup] at hany
    cases hany
  | some taken =>
    rw [hsetup] at hany
    obtain ⟨rfl, hstage⟩ := of_decide_eq_true hany
    exact ⟨taken.2, rfl, not_directed hstage hannounced hrequest⟩

end Bench

end FlashProgrammer.Usb

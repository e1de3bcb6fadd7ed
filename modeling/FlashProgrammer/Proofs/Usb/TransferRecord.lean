import FlashProgrammer.Proofs.Usb.BulkMoves
import FlashProgrammer.Proofs.Usb.TakenSetup

/-!
# The record of a control transfer

A device keeps its control transfer in six places: the stage, the SETUP packet, the address
that waits, and the two records of endpoint 0 with their payloads and counts.  `Transfer` is
what they hold, and the lemmas below say what each function does to it.

Halting and arming are kept in the same records and are not part of the transfer.
-/

namespace FlashProgrammer.Usb

/-- How far the record of an endpoint has come with its bytes. -/
structure Movement where
  payload : Payload := .empty
  count : Nat := 0
  total : Nat := 0

def EndpointStatus.movement (s : EndpointStatus) : Movement := ⟨s.payload, s.count, s.total⟩

/-- What a device remembers of the control transfer in flight. -/
structure Transfer where
  stage : ControlStage := .idle
  setup : Option Setup := none
  pendingAddress : Option UInt8 := none
  /-- To the host. -/
  sending : Movement := {}
  /-- From the host. -/
  receiving : Movement := {}

def Device.transfer (d : Device) : Transfer where
  stage := d.stage
  setup := d.setup
  pendingAddress := d.pendingAddress
  sending := (d.endpoints.get .control .toHost).movement
  receiving := (d.endpoints.get .control .toDevice).movement

namespace Link

variable {ω : Type} [Controller ω]

/-! ## Records -/

omit [Controller ω] in
/-- A record that is written without its bytes, or belongs to another endpoint, is not part of the
transfer. -/
theorem transfer_setStatus {ep : Endpoint} {dir : Direction} {f : EndpointStatus → EndpointStatus}
    (h : ep = .control → ∀ s, (f s).movement = s.movement) (p : Link ω) :
    (p.setStatus ep dir f).device.transfer = p.device.transfer := by
  have hkept : ∀ dir', ((p.device.endpoints.modify ep dir f).get .control dir').movement =
      (p.device.endpoints.get .control dir').movement := by
    intro dir'
    rw [PerDirection.get_modify]
    split
    · next hsame =>
      obtain ⟨rfl, rfl⟩ := hsame
      exact h rfl _
    · rfl
  simp only [Device.transfer, setStatus, hkept]

omit [Controller ω] in
theorem transfer_setStatus_toHost (f : EndpointStatus → EndpointStatus) (p : Link ω) :
    (p.setStatus .control .toHost f).device.transfer =
      { p.device.transfer with
        sending := (f (p.device.endpoints.get .control .toHost)).movement } := by
  simp [Device.transfer, setStatus, PerDirection.get_modify]

omit [Controller ω] in
theorem transfer_setStatus_toDevice (f : EndpointStatus → EndpointStatus) (p : Link ω) :
    (p.setStatus .control .toDevice f).device.transfer =
      { p.device.transfer with
        receiving := (f (p.device.endpoints.get .control .toDevice)).movement } := by
  simp [Device.transfer, setStatus, PerDirection.get_modify]

omit [Controller ω] in
theorem transfer_abortControl (p : Link ω) : p.abortControl.device.transfer = {} := by
  simp [Device.transfer, abortControl, Device.abortControl, PerDirection.get_modify,
    EndpointStatus.movement, EndpointStatus.finish]

theorem transfer_stallControl (p : Link ω) : p.stallControl.device.transfer = {} :=
  transfer_abortControl _

omit [Controller ω] in
theorem transfer_resetTransfers (p : Link ω) : p.resetTransfers.device.transfer = {} := by
  simp [Device.transfer, resetTransfers, Device.resetTransfers, EndpointStatus.movement]

theorem transfer_detach (p : Link ω) : p.detach.device.transfer = {} := transfer_resetTransfers p

theorem transfer_unplug (p : Link ω) : p.unplug.device.transfer = {} := transfer_resetTransfers p

theorem transfer_busReset (p : Link ω) : p.busReset.device.transfer = {} :=
  transfer_resetTransfers p

/-! ## Data stages -/

/-- Nothing is sent, or the last packet, or a full one that is not the last. -/
theorem transfer_continueIn (p : Link ω) :
    p.continueIn.device.transfer = p.device.transfer ∨
    p.continueIn.device.transfer = { p.device.transfer with stage := .status, sending := {} } ∨
    (maxPacket ≤ min (p.device.transfer.sending.payload.length - p.device.transfer.sending.count)
        (p.device.transfer.sending.total - p.device.transfer.sending.count) ∧
      p.continueIn.device.transfer =
        { p.device.transfer with
          sending :=
            { p.device.transfer.sending with
              count := p.device.transfer.sending.count + maxPacket } }) := by
  have hdevice := (talks_ask (.txBusy .control) p).device_eq
  rw [continueIn]
  generalize p.ask (.txBusy .control) = asked at hdevice ⊢
  obtain ⟨busy, q⟩ := asked
  simp only at hdevice ⊢
  rw [← hdevice]
  cases busy with
  | true => exact .inl rfl
  | false =>
    simp only [Bool.false_eq_true, if_false]
    split
    · refine .inr (.inl ?_)
      exact congrArg (fun t : Transfer => { t with stage := .status })
        (transfer_setStatus_toHost EndpointStatus.finish _)
    · next hlast =>
      simp only [Bool.or_eq_true, decide_eq_true_eq, beq_iff_eq, not_or, Nat.not_lt] at hlast
      have hlength := hlast.1
      simp only [Payload.slice_eq, List.length_take, List.length_drop, Payload.length_toList]
        at hlength
      refine .inr (.inr ⟨?_, (transfer_setStatus_toHost _ _).trans ?_⟩)
      · simp only [Device.transfer, EndpointStatus.movement]
        omega
      · simp only [Device.transfer, EndpointStatus.movement, Payload.slice_eq, List.length_take,
          List.length_drop, Payload.length_toList, tell]
        congr 2
        omega

theorem transfer_dataOutComplete {s : Setup} {p : Link ω} (hsetup : p.device.setup = some s)
    (hrequest : StandardRequest.ofByte? s.request = some .setDescriptor) :
    p.dataOutComplete.device.transfer = {} := by
  have hkept : (p.setStatus .control .toDevice fun e => { e with count := 0 }).device.setup =
      some s := hsetup
  simp only [dataOutComplete, hkept, Option.bind_some, hrequest]
  exact transfer_stallControl _

/-- Some bytes come and more are expected, or the stage ends. -/
theorem transfer_continueOut (p : Link ω) :
    (∃ count, (count = p.device.transfer.receiving.count ∨
          count < p.device.transfer.receiving.total) ∧
        p.continueOut.device.transfer =
          { p.device.transfer with
            receiving := { p.device.transfer.receiving with count } }) ∨
    ∃ q : Link ω, q.device.setup = p.device.setup ∧ p.continueOut = q.dataOutComplete := by
  have hready := (talks_ask (.rxReady .control) p).device_eq
  rw [continueOut, ← hready]
  generalize p.ask (.rxReady .control) = asked
  obtain ⟨ready, q⟩ := asked
  cases ready with
  | false => exact .inl ⟨_, .inl rfl, rfl⟩
  | true =>
    have hcount := (talks_ask (.rxCount .control) q).device_eq
    simp only [if_true]
    rw [← hcount]
    generalize q.ask (.rxCount .control) = counted
    obtain ⟨available, r⟩ := counted
    simp only
    split
    · refine .inr ⟨_, ?_, rfl⟩
      rfl
    · next hmore =>
      simp only [Bool.or_eq_true, decide_eq_true_eq, not_or, Nat.not_le] at hmore
      refine .inl ⟨_, .inr ?_, transfer_setStatus_toDevice _ _⟩
      have hless := hmore.1
      simp only [setStatus, PerDirection.get_modify, and_self, if_true] at hless
      exact hless

/-! ## Requests -/

/-- The link when the data stage of an answer begins. -/
def dataInStage (s : Setup) (payload : Payload) (p : Link ω) : Link ω :=
  { (p.tell (.rxDone .control false)).setStatus .control .toHost fun e =>
      { e with payload, count := 0, total := min (payload.length % 65536) s.length.toNat } with
    device.stage := .dataIn }

/-- The link when the host may begin to send its data. -/
def dataOutStage (s : Setup) (p : Link ω) : Link ω :=
  { (p.tell (.rxDone .control false)).setStatus .control .toDevice fun e =>
      { e with count := 0, total := s.length.toNat } with
    device.stage := .dataOut }

theorem carryOut_data (s : Setup) (payload : Payload) (p : Link ω) :
    p.carryOut s (.data payload) =
      if s.length = 0 then { p.tell (.rxDone .control true) with device.stage := .status }
      else (p.dataInStage s payload).continueIn := rfl

theorem carryOut_receive (s : Setup) (p : Link ω) :
    p.carryOut s .receive =
      if s.length = 0 then (p.tell (.rxDone .control true)).dataOutComplete
      else p.dataOutStage s := rfl

theorem transfer_dataInStage (s : Setup) (payload : Payload) (p : Link ω) :
    (p.dataInStage s payload).device.transfer =
      { p.device.transfer with
        stage := .dataIn
        sending := ⟨payload, 0, min (payload.length % 65536) s.length.toNat⟩ } :=
  congrArg (fun t : Transfer => { t with stage := .dataIn }) (transfer_setStatus_toHost _ _)

theorem transfer_dataOutStage (s : Setup) (p : Link ω) :
    (p.dataOutStage s).device.transfer =
      { p.device.transfer with
        stage := .dataOut
        receiving := ⟨p.device.transfer.receiving.payload, 0, s.length.toNat⟩ } :=
  congrArg (fun t : Transfer => { t with stage := .dataOut }) (transfer_setStatus_toDevice _ _)

theorem transfer_halt {ep : Endpoint} (h : ep ≠ .control) (dir : Direction) (p : Link ω) :
    (p.halt ep dir).device.transfer = p.device.transfer :=
  transfer_setStatus (fun hcontrol => absurd hcontrol h) _

theorem transfer_clearHalt (ep : Endpoint) (dir : Direction) (p : Link ω) :
    (p.clearHalt ep dir).device.transfer = p.device.transfer := by
  refine transfer_setStatus ?_ _
  exact fun _ _ => rfl

omit [Controller ω] in
theorem transfer_setConfiguration (value : UInt16) (p : Link ω) :
    (p.setConfiguration value).2.device.transfer = p.device.transfer ∧
      (p.setConfiguration value).1 ≠ .receive := by
  have hflash : Endpoint.flash ≠ .control := by decide
  rw [setConfiguration]
  split
  · exact ⟨rfl, nofun⟩
  · split
    · refine ⟨(transfer_setStatus ?_ _).trans (transfer_setStatus ?_ _), nofun⟩
      · exact fun hcontrol => absurd hcontrol hflash
      · exact fun hcontrol => absurd hcontrol hflash
    · exact ⟨rfl, nofun⟩

/-- Answering a request leaves the transfer alone, but SET_ADDRESS leaves an address for later.
Only new descriptors are taken from the host. -/
theorem transfer_standardRequest (s : Setup) (p : Link ω) :
    ((p.standardRequest s).2.device.transfer = p.device.transfer ∧
      ((p.standardRequest s).1 = .receive →
        StandardRequest.ofByte? s.request = some .setDescriptor)) ∨
    ((p.standardRequest s).1 = .noData ∧
      StandardRequest.ofByte? s.request = some .setAddress ∧ s.value < 0x80 ∧
      (p.standardRequest s).2.device.transfer =
        { p.device.transfer with pendingAddress := some s.valueLow }) := by
  rw [standardRequest]
  split
  case h_4 => -- CLEAR_FEATURE
    refine .inl ?_
    repeat' split
    · exact ⟨transfer_clearHalt _ _ p, nofun⟩
    · exact ⟨rfl, nofun⟩
    · exact ⟨rfl, nofun⟩
  case h_5 => -- SET_FEATURE
    refine .inl ?_
    repeat' split
    · exact ⟨rfl, nofun⟩
    · next hcontrol => exact ⟨transfer_halt hcontrol _ p, nofun⟩
    · exact ⟨rfl, nofun⟩
    · exact ⟨rfl, nofun⟩
  case h_6 haddress _ => -- SET_ADDRESS
    split
    · next hvalue => exact .inr ⟨rfl, haddress, hvalue, rfl⟩
    · exact .inl ⟨rfl, nofun⟩
  case h_8 hdescriptor => -- SET_DESCRIPTOR
    exact .inl ⟨rfl, fun _ => hdescriptor⟩
  case h_10 => -- SET_CONFIGURATION
    split
    · obtain ⟨hsame, hreply⟩ := transfer_setConfiguration s.value p
      exact .inl ⟨hsame, fun hreceive => absurd hreceive hreply⟩
    · exact .inl ⟨rfl, nofun⟩
  -- The others answer and write nothing.
  all_goals
    refine .inl ?_
    repeat' split
    all_goals exact ⟨rfl, nofun⟩

/-! ## The closing handshake -/

/-- The transfer is over, but its records are not cleared here. -/
theorem transfer_completeStatus (p : Link ω) :
    p.completeStatus.device.transfer =
      { p.device.transfer with stage := .idle, setup := none, pendingAddress := none } := by
  have hone : ∀ e (q : Link ω), (armEndpoint q e).device.transfer = q.device.transfer := by
    intro e q
    rw [armEndpoint]
    split
    · refine transfer_setStatus ?_ _
      exact fun _ _ => rfl
    · rfl
  have harm : ∀ q : Link ω,
      (bulkEndpoints.foldl armEndpoint q).device.transfer = q.device.transfer :=
    armEndpoints_same (f := fun q => q.device.transfer) hone bulkEndpoints
  have haddress : p.takeAddress.settleConfiguration.device.transfer =
      { p.device.transfer with pendingAddress := none } := by
    have htaken : p.takeAddress.device.transfer =
        { p.device.transfer with pendingAddress := none } := by
      rw [takeAddress]
      split
      · next hnone => rw [Device.transfer, hnone]
      · rfl
    rw [settleConfiguration]
    split
    · exact htaken
    · exact htaken
  have hdone : ∀ q : Link ω, { q.device with stage := .idle, setup := none }.transfer =
      { q.device.transfer with stage := .idle, setup := none } := fun _ => rfl
  rw [completeStatus]
  simp only [hdone, harm, haddress]

/-! ## Interrupts -/

theorem transfer_offered {p q : Link ω} {s : Setup} (h : p.offered? = some (s, q)) :
    q.device.transfer = p.device.transfer := by
  rw [offered?] at h
  simp only at h
  split at h
  · cases h
    rfl
  · cases h

omit [Controller ω] in
theorem transfer_note (works : List Work) (p : Link ω) :
    (works.foldl note p).device.transfer = p.device.transfer := by
  induction works generalizing p with
  | nil => rfl
  | cons work works ih => exact ih _

/-- Power and a wake-up leave the transfer alone. -/
theorem transfer_roused (p : Link ω) : p.roused.2.device.transfer = p.device.transfer := by
  have hdevice := (talks_ask .interrupts p).device_eq
  rw [roused, ← hdevice]
  generalize p.ask .interrupts = asked
  obtain ⟨status, q⟩ := asked
  simp only [powerUp]
  split <;> split <;> rfl

/-- Nothing is sent and nothing comes before an interrupt is at endpoint 0. -/
theorem transfer_reached {p q : Link ω} {s : InterruptStatus} (h : p.reached? = some (s, q)) :
    q.device.transfer = p.device.transfer := by
  have hroused := p.transfer_roused
  rw [reached?] at h
  generalize p.roused = roused at hroused h
  obtain ⟨status, r⟩ := roused
  simp only at hroused h
  split at h
  · cases h
  · have hdozed : (if status.bus.suspend then r.sleep else r).device.transfer =
        p.device.transfer := by
      split
      · exact hroused
      · exact hroused
    generalize (if status.bus.suspend then r.sleep else r) = r' at hdozed h
    split at h
    · cases h
    · cases h
      exact hdozed

/-- An interrupt that does not come to the endpoints leaves the transfer alone or clears it. -/
theorem transfer_onInterrupt_of_not_reached {p : Link ω} (h : p.reached? = none) :
    p.onInterrupt.device.transfer = p.device.transfer ∨ p.onInterrupt.device.transfer = {} := by
  have hroused := p.transfer_roused
  rw [reached?] at h
  rw [onInterrupt_eq]
  generalize p.roused = roused at hroused h ⊢
  obtain ⟨status, r⟩ := roused
  simp only at hroused h ⊢
  split
  · exact .inr (transfer_unplug _)
  · next hconnected =>
    split
    · exact .inl hroused
    · next hawake =>
      cases hreset : status.bus.reset with
      | true =>
        rw [serviceBus, hreset, if_pos rfl]
        exact .inr (transfer_busReset r)
      | false =>
        have hdozed : (if status.bus.suspend then r.sleep else r).device.transfer =
            p.device.transfer := by
          split
          · exact hroused
          · exact hroused
        rw [serviceBus_of_no_reset hreset]
        simp only [hconnected, hawake, hreset, Bool.or_self, Bool.false_eq_true, if_false] at h
        generalize (if status.bus.suspend then r.sleep else r) = r' at hdozed h ⊢
        split at h
        · next hwaiting =>
          rw [serviceEndpoints, if_pos hwaiting]
          exact .inl hdozed
        · cases h

end Link

end FlashProgrammer.Usb

import FlashProgrammer.Usb.Interrupt

/-!
# The SETUP packet of an interrupt

An interrupt takes at most one SETUP packet, and only after everything else it has
to do on endpoint 0.  `setup?` is that packet, with the link as it is when the
firmware acts on it.
-/

namespace FlashProgrammer.Usb

/-- A SETUP packet chooses a configuration that the device has, on a device that has an address. -/
def Setup.Chooses {ω : Type} (s : Setup) (p : Link ω) : Prop :=
  s.kind = .standard ∧ StandardRequest.ofByte? s.request = some .setConfiguration ∧
    s.recipient = .device ∧ Lifecycle.addressed ≤ p.device.lifecycle ∧ s.value ≠ 0 ∧
    s.value.toNat = p.device.descriptors.configurationValue.toNat

instance {ω : Type} (s : Setup) (p : Link ω) : Decidable (s.Chooses p) :=
  inferInstanceAs (Decidable (_ ∧ _ ∧ _ ∧ _ ∧ _ ∧ _))

namespace Link

variable {ω : Type} [Controller ω]

/-- Endpoint 0 after what the controller latched about it. -/
def caughtUp (p : Link ω) : Link ω :=
  let (events, p) := p.ask .controlEvents
  let p := if events.sentStall || events.setupEnd then p.abortControl else p
  if p.device.stage = .status then p.completeStatus else p

/-- The SETUP packet that waits outside a transfer. -/
def offered? (p : Link ω) : Option (Setup × Link ω) :=
  let (available, p) := p.ask (.rxCount .control)
  if available.toNat = Setup.size then
    let (bs, hw) := readFifo .control Setup.size p.hw
    some (Setup.ofBytes bs, { p with hw })
  else none

/-- The SETUP packet that endpoint 0 takes, if it takes one. -/
def takenSetup? (p : Link ω) : Option (Setup × Link ω) :=
  let p := p.caughtUp
  match p.device.stage with
  | .idle =>
    let (ready, p) := p.ask (.rxReady .control)
    if ready then p.offered? else none
  | _ => none

/-- The sources of an interrupt, and the link once power and a wake-up are served. -/
def roused (p : Link ω) : InterruptStatus × Link ω :=
  let (s, p) := p.ask .interrupts
  let p := p.powerUp
  (s, if s.bus.resume then p.wake else p)

/-- The link when an interrupt comes to the endpoints, if it comes to them. -/
def reached? (p : Link ω) : Option (InterruptStatus × Link ω) :=
  let (s, p) := p.roused
  if s.bus.disconnect || p.device.suspended || s.bus.reset then none
  else
    let p := if s.bus.suspend then p.sleep else p
    if p.device.lifecycle < .waiting then none else some (s, p)

/-- The SETUP packet that an interrupt takes, if it takes one. -/
def setup? (p : Link ω) : Option (Setup × Link ω) :=
  match p.reached? with
  | none => none
  | some (s, p) =>
    if s.pending 0 then { p with device.current := some ⟨0, .toDevice⟩ }.takenSetup? else none

theorem receiveSetup_eq (p : Link ω) :
    p.receiveSetup =
      match p.offered? with
      | some (s, q) => q.handleSetup s
      | none => ((p.ask (.rxCount .control)).2.tell (.rxDone .control true)).stallControl := by
  simp only [receiveSetup, offered?]
  split <;> rfl

theorem serviceControl_eq (p : Link ω) :
    p.serviceControl =
      match p.caughtUp.device.stage with
      | .dataIn => p.caughtUp.continueIn
      | .dataOut => p.caughtUp.continueOut
      | .status => p.caughtUp
      | .idle =>
        let (ready, p) := p.caughtUp.ask (.rxReady .control)
        if ready then p.receiveSetup else p :=
  rfl

theorem serviceControl_of_taken {p q : Link ω} {s : Setup} (h : p.takenSetup? = some (s, q)) :
    p.serviceControl = q.handleSetup s := by
  rw [takenSetup?] at h
  rw [serviceControl_eq]
  cases hstage : p.caughtUp.device.stage with
  | idle =>
    simp only [hstage] at h ⊢
    generalize p.caughtUp.ask (.rxReady .control) = asked at h ⊢
    obtain ⟨ready, p'⟩ := asked
    cases ready with
    | false => cases h
    | true =>
      simp only [if_true] at h ⊢
      rw [receiveSetup_eq, h]
  | dataIn | dataOut | status => simp [hstage] at h

theorem onInterrupt_eq (p : Link ω) :
    p.onInterrupt =
      if p.roused.1.bus.disconnect then (p.ask .interrupts).2.unplug
      else if p.roused.2.device.suspended then p.roused.2
      else p.roused.2.serviceBus p.roused.1 := by
  rw [onInterrupt, roused]
  generalize p.ask .interrupts = asked
  obtain ⟨status, q⟩ := asked
  by_cases hresume : status.bus.resume = true
  · simp only [hresume, if_true]
    rfl
  · simp only [hresume, Bool.false_eq_true, if_false]

theorem serviceBus_of_no_reset {s : InterruptStatus} (h : s.bus.reset = false) (p : Link ω) :
    p.serviceBus s = (if s.bus.suspend then p.sleep else p).serviceEndpoints s := by
  rw [serviceBus, h]
  cases s.bus.suspend <;> rfl

theorem onInterrupt_of_reached {p q : Link ω} {s : InterruptStatus}
    (h : p.reached? = some (s, q)) :
    p.onInterrupt = (bulkWork s).foldl note (q.serviceEndpointZero s) := by
  rw [reached?] at h
  rw [onInterrupt_eq]
  generalize p.roused = roused at h ⊢
  obtain ⟨status, p'⟩ := roused
  simp only at h ⊢
  split at h
  · cases h
  · next hno =>
    simp only [Bool.or_eq_true, not_or, Bool.not_eq_true] at hno
    obtain ⟨⟨hdisconnect, hawake⟩, hreset⟩ := hno
    rw [hdisconnect, hawake, serviceBus_of_no_reset hreset]
    generalize (if status.bus.suspend then p'.sleep else p') = q' at h ⊢
    split at h
    · cases h
    · next hwaiting =>
      cases h
      rw [serviceEndpoints, if_neg hwaiting]
      rfl

/-- The packet is acted on, and then the bulk work of the interrupt is queued. -/
theorem onInterrupt_of_setup {p q : Link ω} {s : Setup} (h : p.setup? = some (s, q)) :
    ∃ status, p.onInterrupt = (bulkWork status).foldl note (q.handleSetup s) := by
  rw [setup?] at h
  split at h
  · cases h
  · next status reached hreached =>
    split at h
    · next hpending =>
      refine ⟨status, ?_⟩
      rw [onInterrupt_of_reached hreached, serviceEndpointZero, if_pos hpending,
        serviceControl_of_taken h]
    · cases h

end Link

end FlashProgrammer.Usb

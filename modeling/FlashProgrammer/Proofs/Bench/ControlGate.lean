import FlashProgrammer.Proofs.Bench.Gate
import FlashProgrammer.Proofs.Usb.TakenSetup

/-!
# The gate and the host

`Gate.Bars sent` says that no packet gets through the gate but the last ones, `sent`:
only these wait, or the endpoint is halted, or the device has no configuration and
cannot come to one by itself.  Whatever the host does on endpoint 0 and on the bus
leaves it so, with one exception: it chooses a configuration.

Choosing one lifts the halt and leaves the waiting packets where they are.  Clearing
the halt drops them.
-/

namespace FlashProgrammer.Bench

open Usb

variable {β ρ : Type}

/-- Nothing gets through but the last packets. -/
def Gate.Bars (sent : List (Array UInt8)) (g : Gate) : Prop :=
  g.waiting <:+ sent ∨ g.halted = true ∨ (g.lifecycle ≠ .configured ∧ g.configuration = 0)

section Gates

variable {sent : List (Array UInt8)} {g : Gate}

theorem Gate.Bars.unconfigure (h : g.Bars sent) : Bars sent { g with configuration := 0 } := by
  rcases h with hfresh | hhalted | ⟨hlifecycle, _⟩
  · exact .inl hfresh
  · exact .inr (.inl hhalted)
  · exact .inr (.inr ⟨hlifecycle, rfl⟩)

theorem Gate.Bars.lower (h : g.Bars sent) (lifecycle : Lifecycle)
    (hlifecycle : lifecycle ≠ .configured) : Bars sent { g with lifecycle } := by
  rcases h with hfresh | hhalted | ⟨_, hconfiguration⟩
  · exact .inl hfresh
  · exact .inr (.inl hhalted)
  · exact .inr (.inr ⟨hlifecycle, hconfiguration⟩)

/-- Without a configuration the device does not become configured. -/
theorem Gate.Bars.settle (h : g.Bars sent) :
    Bars sent { g with
      lifecycle := if g.configuration = 0 then .addressed else .configured } := by
  rcases h with hfresh | hhalted | ⟨_, hconfiguration⟩
  · exact .inl hfresh
  · exact .inr (.inl hhalted)
  · refine .inr (.inr ⟨?_, hconfiguration⟩)
    simp [hconfiguration]

end Gates

/-! ## Control transfers -/

theorem gate_continueIn (p : Link (Fifos β ρ)) : gate p.continueIn = gate p := by
  have hpacket : ∀ (packet : List UInt8) (last : Bool) (q : Link (Fifos β ρ)),
      gate ({ q with hw := writeFifo .control packet q.hw }.tell (.txReady .control last)) =
        gate q := by
    intro packet last q
    rw [gate_tell]
    simp only [gate, remaining, packetsIn_writeFifo]
  have hask := gate_ask (.txBusy .control) p
  rw [Link.continueIn]
  generalize p.ask (.txBusy .control) = asked at hask ⊢
  obtain ⟨busy, q⟩ := asked
  simp only at hask ⊢
  split
  · exact hask
  · split
    · exact (gate_setStatus_control .toHost EndpointStatus.finish _).trans
        ((hpacket _ _ q).trans hask)
    · exact (gate_setStatus_control .toHost _ _).trans ((hpacket _ _ q).trans hask)

theorem gate_dataOutComplete (p : Link (Fifos β ρ)) : gate p.dataOutComplete = gate p := by
  have hcounted := gate_setStatus_control .toDevice (fun s => { s with count := 0 }) p
  rw [Link.dataOutComplete]
  simp only
  split
  · rw [gate_stallControl, hcounted]
  · exact hcounted

theorem gate_continueOut (p : Link (Fifos β ρ)) : gate p.continueOut = gate p := by
  have hread : ∀ (n : Nat) (q : Link (Fifos β ρ)),
      gate { q with hw := (readFifo .control n q.hw).2 } = gate q := by
    intro n q
    simp only [gate, packetsIn_readFifo]
  have hready := gate_ask (.rxReady .control) p
  rw [Link.continueOut]
  generalize p.ask (.rxReady .control) = asked at hready ⊢
  obtain ⟨ready, q⟩ := asked
  simp only at hready ⊢
  split
  · have hcount := gate_ask (.rxCount .control) q
    generalize q.ask (.rxCount .control) = counted at hcount ⊢
    obtain ⟨available, q'⟩ := counted
    simp only at hcount ⊢
    have hdone : ∀ dataEnd f n,
        gate (({ q' with hw := (readFifo .control n q'.hw).2 }.setStatus .control .toDevice f).tell
          (.rxDone .control dataEnd)) = gate p := by
      intro dataEnd f n
      rw [gate_tell, gate_setStatus_control, hread, hcount, hready]
      rfl
    split
    · rw [gate_dataOutComplete]
      exact hdone _ _ _
    · exact hdone _ _ _
  · exact hready

theorem gate_carryOut (s : Setup) (reply : ControlReply) (p : Link (Fifos β ρ)) :
    gate (p.carryOut s reply) = gate p := by
  have hdone : ∀ dataEnd, gate (p.tell (.rxDone .control dataEnd)) = gate p :=
    fun dataEnd => gate_tell (.rxDone .control dataEnd) p
  cases reply with
  | noData => exact hdone true
  | stall => exact (gate_stallControl _).trans (hdone true)
  | data payload =>
    rw [Link.carryOut]
    split
    · exact hdone true
    · let begin := fun e : EndpointStatus =>
        { e with payload, count := 0, total := min (payload.length % 65536) s.length.toNat }
      rw [gate_continueIn]
      show gate ((p.tell (.rxDone .control false)).setStatus .control .toHost begin) = gate p
      rw [gate_setStatus_control, hdone]
  | receive =>
    rw [Link.carryOut]
    split
    · exact (gate_dataOutComplete _).trans (hdone true)
    · exact (gate_setStatus_control .toDevice _ _).trans (hdone false)

/-! ## Requests -/

/-- A configuration that is chosen lifts the halt and drops nothing. -/
theorem gate_setConfiguration {value : UInt16} {p : Link (Fifos β ρ)} (hvalue : value ≠ 0)
    (hconfiguration : value.toNat = p.device.descriptors.configurationValue.toNat) :
    gate (p.setConfiguration value).2 =
      { gate p with configuration := UInt8.ofNat value.toNat, halted := false } := by
  let arm := fun s : EndpointStatus => { s with needsArming := true, stalled := false }
  let chosen : Link (Fifos β ρ) :=
    { p with device.configuration := UInt8.ofNat value.toNat }
  rw [Link.setConfiguration, if_neg hvalue, if_pos hconfiguration]
  show gate ((chosen.setStatus .flash .toDevice arm).setStatus .flash .toHost arm) = _
  rw [gate_setStatus_other (by decide), gate_setStatus_flash false fun _ => rfl]
  rfl

theorem standardRequest_of_chooses {s : Setup} {p : Link (Fifos β ρ)} (h : s.Chooses p) :
    p.standardRequest s = p.setConfiguration s.value := by
  obtain ⟨_, hrequest, hrecipient, hlifecycle, _, _⟩ := h
  simp only [Link.standardRequest, hrequest, hrecipient, if_pos hlifecycle]

theorem gate_handleSetup_of_chooses {s : Setup} {p : Link (Fifos β ρ)} (h : s.Chooses p) :
    gate (p.handleSetup s) =
      { gate p with configuration := UInt8.ofNat s.value.toNat, halted := false } := by
  have hstandard : Setup.Chooses s { p with device.setup := some s } := h
  rw [Link.handleSetup]
  simp only [h.1, standardRequest_of_chooses hstandard]
  rw [gate_carryOut]
  exact gate_setConfiguration h.2.2.2.2.1 h.2.2.2.2.2

section Requests

variable {sent : List (Array UInt8)}

theorem clearHalt_bars {p : Link (Fifos β ρ)} (h : (gate p).Bars sent) (ep : Endpoint)
    (dir : Direction) : (gate (p.clearHalt ep dir)).Bars sent := by
  rw [gate_clearHalt]
  split
  · exact .inl (List.nil_suffix)
  · exact h

theorem halt_bars {p : Link (Fifos β ρ)} (h : (gate p).Bars sent) (ep : Endpoint)
    (dir : Direction) : (gate (p.halt ep dir)).Bars sent := by
  rw [gate_halt]
  split
  · exact .inr (.inl rfl)
  · exact h

theorem setConfiguration_bars {value : UInt16} {p : Link (Fifos β ρ)} (h : (gate p).Bars sent)
    (hchosen : value ≠ 0 → value.toNat = p.device.descriptors.configurationValue.toNat →
      (gate p).waiting <:+ sent) :
    (gate (p.setConfiguration value).2).Bars sent := by
  by_cases hvalue : value = 0
  · rw [Link.setConfiguration, if_pos hvalue]
    exact h.unconfigure
  · by_cases hconfiguration :
        value.toNat = p.device.descriptors.configurationValue.toNat
    · rw [gate_setConfiguration hvalue hconfiguration]
      exact .inl (hchosen hvalue hconfiguration)
    · rw [Link.setConfiguration, if_neg hvalue, if_neg hconfiguration]
      exact h

theorem standardRequest_bars {s : Setup} {p : Link (Fifos β ρ)} (h : (gate p).Bars sent)
    (hkind : s.kind = .standard) (hchooses : s.Chooses p → (gate p).waiting <:+ sent) :
    (gate (p.standardRequest s).2).Bars sent := by
  fun_cases Link.standardRequest s p with
  | case5 hrecipient hrequest hvalue ep dir => exact clearHalt_bars h ep dir
  | case9 hrecipient hrequest hvalue ep dir => exact halt_bars h ep dir
  | case18 hrecipient hrequest hlifecycle =>
    refine setConfiguration_bars h fun hvalue hconfiguration => ?_
    exact hchooses ⟨hkind, hrequest, hrecipient, hlifecycle, hvalue, hconfiguration⟩
  | _ => exact h

theorem handleSetup_bars {s : Setup} {p : Link (Fifos β ρ)} (h : (gate p).Bars sent)
    (hchooses : s.Chooses p → (gate p).waiting <:+ sent) :
    (gate (p.handleSetup s)).Bars sent := by
  rw [Link.handleSetup]
  simp only
  split
  · next hkind =>
    rw [gate_carryOut]
    exact standardRequest_bars (p := { p with device.setup := some s }) h hkind hchooses
  · rw [gate_carryOut]
    exact h

/-! ## The closing handshake -/

theorem takeAddress_bars {p : Link (Fifos β ρ)} (h : (gate p).Bars sent) :
    (gate p.takeAddress).Bars sent := by
  rw [Link.takeAddress]
  split
  · exact h
  · next address _ =>
    have hlifecycle : (if address = 0 then Lifecycle.waiting else .addressed) ≠ .configured := by
      split <;> decide
    exact h.lower _ hlifecycle

theorem settleConfiguration_bars {p : Link (Fifos β ρ)} (h : (gate p).Bars sent) :
    (gate p.settleConfiguration).Bars sent := by
  rw [Link.settleConfiguration]
  split
  · exact h.settle
  · exact h

theorem gate_armEndpoint (p : Link (Fifos β ρ)) (e : Endpoint × Direction) :
    gate (p.armEndpoint e) = gate p := by
  have harmed := gate_setStatus_same (f := fun s => { s with needsArming := false })
    (fun _ => rfl) e.1 e.2 p
  rw [Link.armEndpoint]
  split
  · rw [gate_tell, harmed]
    rfl
  · rfl

theorem gate_completeStatus (p : Link (Fifos β ρ)) :
    gate p.completeStatus = gate p.takeAddress.settleConfiguration := by
  have hended : ∀ q : Link (Fifos β ρ),
      gate { q with device.stage := .idle, device.setup := none } = gate q := fun _ => rfl
  rw [Link.completeStatus, hended]
  exact Link.armEndpoints_same (fun e q => gate_armEndpoint q e) Link.bulkEndpoints _

theorem gate_latched (events : ControlEvents) (p : Link (Fifos β ρ)) :
    gate (if events.sentStall || events.setupEnd then p.abortControl else p) = gate p := by
  split
  · exact gate_abortControl p
  · rfl

theorem caughtUp_bars {p : Link (Fifos β ρ)} (h : (gate p).Bars sent) :
    (gate p.caughtUp).Bars sent := by
  have hask := gate_ask .controlEvents p
  rw [Link.caughtUp]
  generalize p.ask .controlEvents = asked at hask ⊢
  obtain ⟨events, q⟩ := asked
  have hlatched := (gate_latched events q).trans hask
  simp only
  generalize (if events.sentStall || events.setupEnd then q.abortControl else q) = latched
    at hlatched ⊢
  have hbars : (gate latched).Bars sent := by
    rw [hlatched]
    exact h
  split
  · rw [gate_completeStatus]
    exact settleConfiguration_bars (takeAddress_bars hbars)
  · exact hbars

theorem waiting_caughtUp (p : Link (Fifos β ρ)) :
    (gate p.caughtUp).waiting = (gate p).waiting := by
  have hask := congrArg Gate.waiting (gate_ask .controlEvents p)
  rw [Link.caughtUp]
  generalize p.ask .controlEvents = asked at hask ⊢
  obtain ⟨events, q⟩ := asked
  have hlatched := congrArg Gate.waiting (gate_latched events q)
  simp only
  generalize (if events.sentStall || events.setupEnd then q.abortControl else q) = latched
    at hlatched ⊢
  have haddress : (gate latched.takeAddress).waiting = (gate latched).waiting := by
    rw [Link.takeAddress]
    split <;> rfl
  have hsettled : ∀ q : Link (Fifos β ρ), (gate q.settleConfiguration).waiting =
      (gate q).waiting := by
    intro q
    rw [Link.settleConfiguration]
    split <;> rfl
  split
  · rw [gate_completeStatus, hsettled, haddress, hlatched, hask]
    rfl
  · rw [hlatched, hask]
    rfl

/-! ## Endpoint 0 -/

/-- Reading a SETUP packet does nothing to the gate. -/
theorem gate_of_offered {p q : Link (Fifos β ρ)} {s : Setup} (h : p.offered? = some (s, q)) :
    gate q = gate p := by
  have hcount := gate_ask (.rxCount .control) p
  rw [Link.offered?] at h
  generalize p.ask (.rxCount .control) = counted at hcount h
  obtain ⟨available, p'⟩ := counted
  simp only at hcount h
  split at h
  · rw [Option.some.injEq, Prod.mk.injEq] at h
    rw [← h.2]
    simp only [gate, packetsIn_readFifo]
    exact hcount
  · cases h

theorem gate_of_taken {p q : Link (Fifos β ρ)} {s : Setup} (h : p.takenSetup? = some (s, q)) :
    gate q = gate p.caughtUp := by
  have hready := gate_ask (.rxReady .control) p.caughtUp
  rw [Link.takenSetup?] at h
  cases hstage : p.caughtUp.device.stage with
  | idle =>
    simp only [hstage] at h
    generalize p.caughtUp.ask (.rxReady .control) = asked at hready h
    obtain ⟨ready, p'⟩ := asked
    cases ready with
    | false => cases h
    | true => exact (gate_of_offered h).trans hready
  | dataIn | dataOut | status => simp [hstage] at h

/-- Endpoint 0 does nothing else to the gate than what a SETUP packet does. -/
theorem gate_serviceControl_of_none {p : Link (Fifos β ρ)} (h : p.takenSetup? = none) :
    gate p.serviceControl = gate p.caughtUp := by
  have hready := gate_ask (.rxReady .control) p.caughtUp
  rw [Link.takenSetup?] at h
  rw [Link.serviceControl_eq]
  cases hstage : p.caughtUp.device.stage with
  | dataIn => exact gate_continueIn _
  | dataOut => exact gate_continueOut _
  | status => rfl
  | idle =>
    simp only [hstage] at h ⊢
    generalize p.caughtUp.ask (.rxReady .control) = asked at hready h ⊢
    obtain ⟨ready, p'⟩ := asked
    cases ready with
    | false => exact hready
    | true =>
      have hcount := gate_ask (.rxCount .control) p'
      simp only [if_true] at h ⊢
      rw [Link.receiveSetup_eq, h]
      simp only
      rw [gate_stallControl, gate_tell, hcount]
      exact hready

theorem serviceControl_bars {p : Link (Fifos β ρ)} (h : (gate p).Bars sent)
    (hchooses : ∀ s q, p.takenSetup? = some (s, q) → s.Chooses q →
      (gate p).waiting <:+ sent) :
    (gate p.serviceControl).Bars sent := by
  have hcaught := caughtUp_bars h
  cases htaken : p.takenSetup? with
  | none =>
    rw [gate_serviceControl_of_none htaken]
    exact hcaught
  | some taken =>
    obtain ⟨s, q⟩ := taken
    rw [Link.serviceControl_of_taken htaken]
    rw [← gate_of_taken htaken] at hcaught
    refine handleSetup_bars hcaught fun hchosen => ?_
    rw [gate_of_taken htaken, waiting_caughtUp]
    exact hchooses s q htaken hchosen

/-! ## Interrupts -/

theorem gate_wake (p : Link (Fifos β ρ)) : gate p.wake = gate p := gate_tell _ _

theorem gate_sleep (p : Link (Fifos β ρ)) : gate p.sleep = gate p := gate_tell _ _

theorem gate_note (works : List Work) (p : Link (Fifos β ρ)) :
    gate (works.foldl Link.note p) = gate p := by
  induction works generalizing p with
  | nil => rfl
  | cons work works ih => exact ih _

theorem powerUp_bars {p : Link (Fifos β ρ)} (h : (gate p).Bars sent) :
    (gate p.powerUp).Bars sent := by
  rw [Link.powerUp]
  split
  · exact h.lower .powered (by decide)
  · exact h

theorem roused_bars {p : Link (Fifos β ρ)} (h : (gate p).Bars sent) :
    (gate p.roused.2).Bars sent := by
  have hask := gate_ask .interrupts p
  rw [Link.roused]
  generalize p.ask .interrupts = asked at hask ⊢
  obtain ⟨status, q⟩ := asked
  have hq : (gate q).Bars sent := by
    rw [show gate q = gate p from hask]
    exact h
  have hpowered := powerUp_bars hq
  simp only
  split
  · rw [gate_wake]
    exact hpowered
  · exact hpowered

theorem waiting_roused (p : Link (Fifos β ρ)) :
    (gate p.roused.2).waiting = (gate p).waiting := by
  have hask := congrArg Gate.waiting (gate_ask .interrupts p)
  rw [Link.roused]
  generalize p.ask .interrupts = asked at hask ⊢
  obtain ⟨status, q⟩ := asked
  have hpowered : (gate q.powerUp).waiting = (gate q).waiting := by
    rw [Link.powerUp]
    split <;> rfl
  simp only
  split
  · rw [gate_wake, hpowered, hask]
    rfl
  · rw [hpowered, hask]
    rfl

theorem gate_dozed (s : InterruptStatus) (p : Link (Fifos β ρ)) :
    gate (if s.bus.suspend then p.sleep else p) = gate p := by
  split
  · exact gate_sleep p
  · rfl

theorem gate_of_reached {p q : Link (Fifos β ρ)} {s : InterruptStatus}
    (h : p.reached? = some (s, q)) : gate q = gate p.roused.2 := by
  rw [Link.reached?] at h
  generalize p.roused = roused at h ⊢
  obtain ⟨status, p'⟩ := roused
  have hdozed := gate_dozed status p'
  simp only at h ⊢
  generalize (if status.bus.suspend then p'.sleep else p') = q' at hdozed h
  split at h
  · cases h
  · split at h
    · cases h
    · cases h
      exact hdozed

/-- An interrupt that does not come to the endpoints does not open the gate. -/
theorem onInterrupt_bars_of_none {p : Link (Fifos β ρ)} (h : (gate p).Bars sent)
    (hnone : p.reached? = none) : (gate p.onInterrupt).Bars sent := by
  have hroused := roused_bars h
  have hunplugged : ∀ q : Link (Fifos β ρ), (gate q.unplug).Bars sent :=
    fun q => .inr (.inr ⟨show Lifecycle.detached ≠ .configured by decide, rfl⟩)
  have hreset : ∀ q : Link (Fifos β ρ), (gate q.busReset).Bars sent :=
    fun q => .inr (.inr ⟨show Lifecycle.waiting ≠ .configured by decide, rfl⟩)
  -- Pulling the cable and resetting the bus end the configuration.  What else stops an interrupt on
  -- its way to the endpoints leaves the gate alone.
  rw [Link.reached?] at hnone
  rw [Link.onInterrupt_eq]
  generalize p.roused = roused at hroused hnone ⊢
  obtain ⟨status, q⟩ := roused
  simp only at hroused hnone ⊢
  split
  · exact hunplugged _
  · next hdisconnect =>
    split
    · exact hroused
    · next hawake =>
      cases hbus : status.bus.reset with
      | true =>
        rw [Link.serviceBus, if_pos hbus]
        exact hreset q
      | false =>
        have hdozed := gate_dozed status q
        rw [Link.serviceBus_of_no_reset hbus]
        simp only [hdisconnect, hawake, hbus, Bool.or_self, Bool.false_eq_true, if_false] at hnone
        generalize (if status.bus.suspend then q.sleep else q) = q' at hdozed hnone ⊢
        split at hnone
        · next hwaiting =>
          rw [Link.serviceEndpoints, if_pos hwaiting, hdozed]
          exact hroused
        · cases hnone

/-- Whatever an interrupt does, it opens the gate only by choosing a configuration. -/
theorem onInterrupt_bars {p : Link (Fifos β ρ)} (h : (gate p).Bars sent)
    (hchooses : ∀ s q, p.setup? = some (s, q) → s.Chooses q → (gate p).waiting <:+ sent) :
    (gate p.onInterrupt).Bars sent := by
  cases hreached : p.reached? with
  | none => exact onInterrupt_bars_of_none h hreached
  | some reached =>
    obtain ⟨status, q⟩ := reached
    have hgate := gate_of_reached hreached
    have hq : (gate q).Bars sent := by
      rw [hgate]
      exact roused_bars h
    rw [Link.onInterrupt_of_reached hreached, gate_note, Link.serviceEndpointZero]
    split
    · next hpending =>
      refine serviceControl_bars
        (p := { q with device.current := some ⟨0, .toDevice⟩ }) hq fun s q' htaken hchosen => ?_
      have hwaiting : (gate q).waiting = (gate p).waiting := by
        rw [hgate, waiting_roused]
      refine hwaiting ▸ hchooses s q' ?_ hchosen
      simp only [Link.setup?, hreached, if_pos hpending]
      exact htaken
    · exact hq

/-- An interrupt that chooses a configuration opens the gate and drops nothing. -/
theorem gate_onInterrupt_of_chooses {p q : Link (Fifos β ρ)} {s : Setup}
    (h : p.setup? = some (s, q)) (hchooses : s.Chooses q) :
    (gate p.onInterrupt).halted = false ∧
      (gate p.onInterrupt).waiting = (gate p).waiting := by
  obtain ⟨status, hserved⟩ := Link.onInterrupt_of_setup h
  rw [hserved, gate_note, gate_handleSetup_of_chooses hchooses]
  refine ⟨rfl, ?_⟩
  rw [Link.setup?] at h
  split at h
  · cases h
  · next status' reached hreached =>
    split at h
    · show (gate q).waiting = _
      rw [gate_of_taken h, waiting_caughtUp]
      show (gate reached).waiting = _
      rw [gate_of_reached hreached, waiting_roused]
    · cases h

end Requests

end FlashProgrammer.Bench

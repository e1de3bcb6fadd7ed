import FlashProgrammer.Bench.Tokens
import FlashProgrammer.Proofs.Rp2040.ControlBuffers
import FlashProgrammer.Proofs.Usb.EndpointZero

/-!
# A SETUP packet arrives

A SETUP packet ends whatever endpoint 0 was doing.  The adapter says so by a flag, which it
raises if the packet comes alone.  If the same interrupt completes a buffer of endpoint 0, it
takes the completion for the end of a closing handshake and lets the device finish that first.
In a data stage the completion is no such end.  The device then goes on with the transfer
that the host has given up: it sends its next packet and leaves the SETUP packet in
its slot, or takes the SETUP packet for data and halts endpoint 0.

`arriving_setup_exact` says for every reachable device and every interrupt that brings a SETUP
packet that the packet is acted on exactly if the interrupt is not of that kind.
-/

namespace FlashProgrammer.Rp2040

open Usb

/-! ## The interrupt -/

namespace Adapter

/-- The interrupt brings a SETUP packet, and the bus was not reset. -/
def bringsSetup (a : Adapter) : Bool :=
  bit (a.memory.get .interruptStatus) 16 && !bit (a.memory.get .interruptStatus) 12

/-- The interrupt completes a buffer of endpoint 0. -/
def completesControl (a : Adapter) : Bool :=
  bit (a.memory.get .interruptStatus) 4 &&
    (bit (a.memory.get .bufferStatus) 1 || bit (a.memory.get .bufferStatus) 0)

/-- The lowest bit of the completed buffers is that of endpoint 0. -/
theorem completed_zero (status : Word) (dir : Direction) :
    (completed status dir).getLsbD 0 = bit status (bufferStatusBit 0 dir) := by
  have hmark : ∀ (bits : BitVec 16) (ep : Nat),
      (if bit status (bufferStatusBit ep dir) then bits ||| BitVec.twoPow 16 ep else bits).getLsbD
        0 = (bits.getLsbD 0 || (bit status (bufferStatusBit ep dir) && decide (ep = 0))) := by
    intro bits ep
    split
    · next h =>
      by_cases hzero : ep = 0
      · subst hzero
        simp [h]
      · simp [hzero, Ne.symm hzero]
    · next h => simp [h]
  have hrange : List.range 4 = [0, 1, 2, 3] := rfl
  simp only [completed, hrange, List.foldl_cons, List.foldl_nil, hmark]
  simp

/-- What the adapter makes of an interrupt that brings a SETUP packet. -/
structure Arrived (a : Adapter) (s : InterruptStatus) (b : Adapter) : Prop where
  pending : s.pending 0 = true
  connected : s.bus.disconnect = false
  kept : s.bus.reset = false
  setupPending : b.setupPending = true
  setupEnd : b.setupEnd = !a.completesControl
  cursor : b.cursor.get .control = 0
  staged : b.staged.get .control = 0
  word : ∀ offset, b.memory.word offset = a.memory.word offset

theorem arrived_interrupts {a : Adapter} (h : a.bringsSetup = true) :
    Arrived a a.interrupts.1 a.interrupts.2 := by
  simp only [bringsSetup, Bool.and_eq_true, Bool.not_eq_true'] at h
  obtain ⟨hsetup, hreset⟩ := h
  obtain ⟨m₁, h₁, hword₁, hstatus₁⟩ :=
    acknowledge_eq (bit (a.memory.get .interruptStatus) 12) 19 a
  obtain ⟨m₂, h₂, hword₂, hstatus₂⟩ :=
    acknowledge_eq (bit (a.memory.get .interruptStatus) 14) 4 { a with memory := m₁ }
  obtain ⟨m₃, h₃, hword₃, hstatus₃⟩ :=
    acknowledge_eq (bit (a.memory.get .interruptStatus) 15) 11 { a with memory := m₂ }
  have hstatus : m₃.get .bufferStatus = a.memory.get .bufferStatus :=
    hstatus₃.trans (hstatus₂.trans hstatus₁)
  have hword : ∀ offset, m₃.word offset = a.memory.word offset := fun offset =>
    (hword₃ offset).trans ((hword₂ offset).trans (hword₁ offset))
  simp only [interrupts, h₁, h₂, h₃, hsetup, if_true, hstatus]
  refine ⟨?_, rfl, hreset, rfl, ?_, ?_, ?_, hword⟩
  · simp [InterruptStatus.pending, InterruptStatus.has]
  · simp only [acceptSetup, InterruptStatus.pending, InterruptStatus.has, completed_zero,
      bufferStatusBit, completesControl]
    cases bit (a.memory.get .interruptStatus) 4 <;> simp [bit]
  · exact PerEndpoint.get_set_self ..
  · exact PerEndpoint.get_set_self ..

/-! ## The packet that waits -/

theorem setupPending_pushBytes (ep : Endpoint) (bs : List UInt8) (a : Adapter) :
    (pushBytes ep bs a).setupPending = a.setupPending := by
  fun_induction pushBytes ep bs a with
  | case1 => rfl
  | case2 => rfl
  | case3 _ _ _ _ _ ih => exact ih

theorem setupPending_writeFifo (ep : Endpoint) (data : List UInt8) (a : Adapter) :
    (writeFifo ep data a).setupPending = a.setupPending :=
  UsedFor.same (usedFor_writeFifo
    (fun width value => setupPending_pushBytes ep (bytesOfValue width value)) data a)

end Adapter

/-! ## The device on the adapter -/

/-- The firmware's USB side on the adapter. -/
abbrev AdapterLink := Link Adapter

namespace AdapterLink

open Link

variable {p : AdapterLink}

/-- A SETUP packet comes to a device that has seen a bus reset and is awake. -/
structure MeetsSetup (p : AdapterLink) : Prop where
  ready : Lifecycle.waiting ≤ p.device.lifecycle
  awake : p.device.suspended = false
  brings : p.hw.bringsSetup = true

instance : Decidable (MeetsSetup p) :=
  decidable_of_iff
    (Lifecycle.waiting ≤ p.device.lifecycle ∧ p.device.suspended = false ∧
      p.hw.bringsSetup = true)
    ⟨fun ⟨hready, hawake, hbrings⟩ => ⟨hready, hawake, hbrings⟩,
      fun h => ⟨h.ready, h.awake, h.brings⟩⟩

/-- Between two moments the device and its adapter kept what a SETUP packet depends on. -/
structure Undisturbed (p q : AdapterLink) : Prop where
  lifecycle : q.device.lifecycle = p.device.lifecycle
  same : Adapter.SameControl p.hw q.hw
  setupEnd : q.hw.setupEnd = p.hw.setupEnd

theorem undisturbed_refl (p : AdapterLink) : Undisturbed p p :=
  ⟨rfl, Adapter.sameControl_refl _, rfl⟩

theorem Undisturbed.trans {p q r : AdapterLink} (hpq : Undisturbed p q)
    (hqr : Undisturbed q r) : Undisturbed p r :=
  ⟨hqr.lifecycle.trans hpq.lifecycle, hpq.same.trans hqr.same, hqr.setupEnd.trans hpq.setupEnd⟩

theorem undisturbed_wake (p : AdapterLink) : Undisturbed p p.wake :=
  ⟨rfl, Adapter.sameControl_tell_enableEvents _ p.hw, rfl⟩

theorem undisturbed_sleep (p : AdapterLink) : Undisturbed p p.sleep :=
  ⟨rfl, Adapter.sameControl_tell_enableEvents _ p.hw, rfl⟩

/-- The interrupt comes to endpoint 0, and on the way there nothing happens to the packet. -/
theorem reached_of_meets (h : MeetsSetup p) :
    ∃ q, p.reached? = some (p.hw.interrupts.1, q) ∧
      Undisturbed { p with hw := p.hw.interrupts.2 } q := by
  have harrived := Adapter.arrived_interrupts h.brings
  have hready : ¬p.device.lifecycle < .waiting := Nat.not_lt.mpr h.ready
  have hunattached : p.device.lifecycle ≠ .attached := by
    intro hattached
    rw [hattached] at hready
    exact hready (by decide)
  have hpower : ({ p with hw := p.hw.interrupts.2 } : AdapterLink).powerUp =
      { p with hw := p.hw.interrupts.2 } := if_neg hunattached
  have hroused : ∃ r, p.roused = (p.hw.interrupts.1, r) ∧ r.device.suspended = false ∧
      Undisturbed { p with hw := p.hw.interrupts.2 } r := by
    refine ⟨_, congrArg (fun q : AdapterLink => (p.hw.interrupts.1,
      if p.hw.interrupts.1.bus.resume then q.wake else q)) hpower, ?_⟩
    split
    · exact ⟨rfl, undisturbed_wake _⟩
    · exact ⟨h.awake, undisturbed_refl _⟩
  obtain ⟨r, hr, hawake, hkept⟩ := hroused
  have hdozed : Undisturbed { p with hw := p.hw.interrupts.2 }
      (if p.hw.interrupts.1.bus.suspend then r.sleep else r) := by
    split
    · exact hkept.trans (undisturbed_sleep r)
    · exact hkept
  refine ⟨_, ?_, hdozed⟩
  simp only [reached?, hr, harrived.connected, harrived.kept, hawake, Bool.or_self,
    Bool.false_eq_true, if_false, hdozed.lifecycle, hready]

/-! ## Catching up -/

/-- Endpoint 0 of the adapter after what was latched about it. -/
theorem caughtUp_eq (p : AdapterLink) :
    p.caughtUp =
      let q : AdapterLink := { p with hw.setupEnd := false }
      let q := if p.hw.setupEnd then q.abortControl else q
      if q.device.stage = .status then q.completeStatus else q := by
  have hevents : p.ask .controlEvents =
      ({ setupEnd := p.hw.setupEnd }, { p with hw.setupEnd := false }) := rfl
  simp only [caughtUp, hevents, Bool.false_or]

/-- A transfer that was cut short, and any that is in no data stage, is over. -/
theorem idle_caughtUp (h : p.hw.setupEnd = true ∨
    ¬(p.device.stage = .dataIn ∨ p.device.stage = .dataOut)) :
    p.caughtUp.device.stage = .idle := by
  rw [caughtUp_eq]
  simp only
  cases hend : p.hw.setupEnd with
  | true => rfl
  | false =>
    have hdata := h.resolve_left (by rw [hend]; decide)
    cases hstage : p.device.stage with
    | idle => simp [hstage]
    | status =>
      simp only [hstage, Bool.false_eq_true, if_false, if_true]
      rfl
    | dataIn | dataOut => simp [hstage] at hdata

/-- A data stage that was not cut short goes on. -/
theorem caughtUp_of_data (hend : p.hw.setupEnd = false)
    (hdata : p.device.stage = .dataIn ∨ p.device.stage = .dataOut) :
    p.caughtUp = { p with hw.setupEnd := false } := by
  have hstage : p.device.stage ≠ .status := by
    rcases hdata with h | h <;> simp [h]
  simp only [caughtUp_eq, hend, Bool.false_eq_true, if_false, hstage]

/-- The endpoints that are armed are not endpoint 0. -/
theorem sameControl_armEndpoints {es : List (Endpoint × Direction)}
    (hbulk : ∀ e ∈ es, e.1 ≠ .control) (p : AdapterLink) :
    Adapter.SameControl p.hw (es.foldl armEndpoint p).hw := by
  induction es generalizing p with
  | nil => exact Adapter.sameControl_refl p.hw
  | cons e es ih =>
    have harmed : Adapter.SameControl p.hw (p.armEndpoint e).hw := by
      have hother := hbulk e List.mem_cons_self
      rw [armEndpoint]
      split
      · exact Adapter.sameControl_tell_configure hother e.2 maxPacket true p.hw
      · exact Adapter.sameControl_refl p.hw
    exact harmed.trans (ih (fun e' he' => hbulk e' (List.mem_cons_of_mem e he')) _)

theorem sameControl_completeStatus (p : AdapterLink) :
    Adapter.SameControl p.hw p.completeStatus.hw := by
  have haddress : Adapter.SameControl p.hw p.takeAddress.settleConfiguration.hw := by
    have htaken : Adapter.SameControl p.hw p.takeAddress.hw := by
      rw [takeAddress]
      split
      · exact Adapter.sameControl_refl _
      · exact Adapter.sameControl_tell_setAddress _ p.hw
    rw [settleConfiguration]
    split
    · exact htaken
    · exact htaken
  have hbulk : ∀ e ∈ bulkEndpoints, e.1 ≠ .control := by decide
  have hfolded := sameControl_armEndpoints hbulk p.takeAddress.settleConfiguration
  rw [completeStatus]
  generalize bulkEndpoints.foldl armEndpoint p.takeAddress.settleConfiguration = q at hfolded ⊢
  exact haddress.trans hfolded

theorem sameControl_caughtUp (p : AdapterLink) :
    Adapter.SameControl p.hw p.caughtUp.hw := by
  have htold : Adapter.SameControl p.hw { p.hw with setupEnd := false } :=
    Adapter.sameControl_tell_controlEvents p.hw
  have haborted : Adapter.SameControl p.hw
      (if p.hw.setupEnd then ({ p with hw.setupEnd := false } : AdapterLink).abortControl
        else { p with hw.setupEnd := false }).hw := by
    split
    · exact htold
    · exact htold
  rw [caughtUp_eq]
  simp only
  generalize (if p.hw.setupEnd then ({ p with hw.setupEnd := false } : AdapterLink).abortControl
    else { p with hw.setupEnd := false }) = q at haborted ⊢
  split
  · exact haborted.trans (sameControl_completeStatus q)
  · exact haborted

/-! ## Taking the packet -/

/-- The packet in the slot is offered, whatever else is in the buffers. -/
theorem offered_of_pending (hpending : p.hw.setupPending = true)
    (hcursor : p.hw.cursor.get .control = 0) :
    p.offered? = some (Setup.ofBytes (p.hw.memory.bytes Memory.setupOffset Setup.size),
      { p with hw := p.hw.setCursor .control Setup.size }) := by
  have hcount : p.hw.rxCount .control = Setup.size := by
    rw [Adapter.rxCount, if_pos ⟨rfl, hpending⟩, hcursor]
    rfl
  have hslot : p.hw.packetOffset .control = Memory.setupOffset := if_pos ⟨rfl, hpending⟩
  have hread : readFifo .control Setup.size p.hw =
      (p.hw.memory.bytes Memory.setupOffset Setup.size, p.hw.setCursor .control Setup.size) := by
    rw [Adapter.readFifo_eq, Adapter.pullBytes_eq, hcursor, hslot, Nat.add_zero, Nat.zero_add]
  have hasked : p.ask (.rxCount .control) = (UInt16.ofNat (p.hw.rxCount .control), p) := rfl
  rw [offered?, hasked, hcount]
  simp only [hread]
  rfl

theorem rxReady_of_pending (hpending : p.hw.setupPending = true) :
    p.ask (.rxReady .control) = (true, p) := by
  have hready : p.hw.rxReady .control = true := by
    rw [Adapter.rxReady, hpending]
    rfl
  exact congrArg (fun ready => (ready, p)) hready

theorem setupPending_continueIn (p : AdapterLink) :
    p.continueIn.hw.setupPending = p.hw.setupPending := by
  have hasked : p.ask (.txBusy .control) =
      (bit (p.hw.memory.bufferControl .control .toHost) BufferControl.availableBit, p) := rfl
  rw [continueIn, hasked]
  simp only
  split
  · rfl
  · split
    · exact Adapter.setupPending_writeFifo .control _ p.hw
    · exact Adapter.setupPending_writeFifo .control _ p.hw

theorem setupPending_dataOutComplete (p : AdapterLink) :
    p.dataOutComplete.hw.setupPending = p.hw.setupPending := by
  rw [dataOutComplete]
  simp only
  split
  · rfl
  · rfl

/-- The packet in the slot is taken for a short packet of data, which ends the stage. -/
theorem continueOut_of_pending (hpending : p.hw.setupPending = true)
    (hcursor : p.hw.cursor.get .control = 0) :
    ∃ q : AdapterLink, p.continueOut = q.dataOutComplete ∧ q.device.setup = p.device.setup ∧
      q.hw.setupPending = false := by
  have hcounted : p.ask (.rxCount .control) = (8, p) := by
    have hcount : p.hw.rxCount .control = 8 := by
      rw [Adapter.rxCount, if_pos ⟨rfl, hpending⟩, hcursor]
    exact congrArg (fun n => (UInt16.ofNat n, p)) hcount
  have hshort : min (UInt16.toNat 8) maxPacket < maxPacket := by decide
  simp only [continueOut, rxReady_of_pending hpending, hcounted, if_true, hshort, decide_true,
    Bool.or_true]
  exact ⟨_, rfl, rfl, rfl⟩

/-- A SETUP packet is released before its reply is carried out. -/
theorem setupPending_carryOut (s : Setup) (reply : ControlReply) (p : AdapterLink) :
    (p.carryOut s reply).hw.setupPending = false := by
  cases reply with
  | noData | stall => rfl
  | data payload =>
    rw [carryOut_data]
    split
    · rfl
    · exact setupPending_continueIn _
  | receive =>
    rw [carryOut_receive]
    split
    · exact setupPending_dataOutComplete _
    · rfl

/-- A SETUP packet that is acted on is released. -/
theorem setupPending_handleSetup (s : Setup) (p : AdapterLink) :
    (p.handleSetup s).hw.setupPending = false := by
  rw [handleSetup]
  split
  · exact setupPending_carryOut s _ _
  · exact setupPending_carryOut s _ _

/-! ## The whole interrupt -/

theorem hw_notes (works : List Work) (p : AdapterLink) : (works.foldl note p).hw = p.hw := by
  induction works generalizing p with
  | nil => rfl
  | cons work works ih => exact ih _

/-- The link when the interrupt that brought a SETUP packet is at endpoint 0. -/
structure AtControl (p r : AdapterLink) : Prop where
  transfer_eq : r.device.transfer = p.device.transfer
  pending : r.hw.setupPending = true
  setupEnd_eq : r.hw.setupEnd = !p.hw.completesControl
  cursor_eq : r.hw.cursor.get .control = 0
  staged_eq : r.hw.staged.get .control = 0
  word_eq : ∀ offset, Memory.OfControl offset → r.hw.memory.word offset = p.hw.memory.word offset
  setup_eq : p.setup? = r.takenSetup?
  served : ∃ status, p.onInterrupt = (bulkWork status).foldl note r.serviceControl

theorem exists_atControl (h : MeetsSetup p) : ∃ r, AtControl p r := by
  have harrived := Adapter.arrived_interrupts h.brings
  obtain ⟨q, hreached, hkept⟩ := reached_of_meets h
  have hreached_transfer := transfer_reached hreached
  refine ⟨{ q with device.current := some ⟨0, .toDevice⟩ }, hreached_transfer, ?_, ?_, ?_, ?_,
    fun offset hoffset => ?_, ?_, p.hw.interrupts.1, ?_⟩
  · exact hkept.same.setupPending.trans harrived.setupPending
  · exact hkept.setupEnd.trans harrived.setupEnd
  · exact hkept.same.cursor.trans harrived.cursor
  · exact hkept.same.staged.trans harrived.staged
  · exact (hkept.same.word offset hoffset).trans (harrived.word offset)
  · rw [setup?, hreached]
    exact if_pos harrived.pending
  · rw [onInterrupt_of_reached hreached, serviceEndpointZero, if_pos harrived.pending]

/-- The interrupt acts on the packet in the slot and on nothing of an earlier transfer: when it
acts, at `q`, endpoint 0 is idle and nothing has been staged, sent or taken there.  Then the slot
is released. -/
structure TakesSetup (p q : AdapterLink) : Prop where
  setup_eq :
    p.setup? = some (Setup.ofBytes (p.hw.memory.bytes Memory.setupOffset Setup.size), q)
  acted : ∃ status, p.onInterrupt = (bulkWork status).foldl note
    (q.handleSetup (Setup.ofBytes (p.hw.memory.bytes Memory.setupOffset Setup.size)))
  idle : q.device.stage = .idle
  forgotten : p.device.transfer.Sound → q.device.transfer = {}
  staged_eq : q.hw.staged.get .control = 0
  word_eq : ∀ offset, Memory.OfControl offset → q.hw.memory.word offset = p.hw.memory.word offset
  released : p.onInterrupt.hw.setupPending = false

/-- A packet that finds endpoint 0 idle is acted on. -/
theorem takesSetup_of_idle {r : AdapterLink} (h : AtControl p r)
    (hidle : r.caughtUp.device.stage = .idle) : ∃ q, TakesSetup p q := by
  have hsame := sameControl_caughtUp r
  have hword : ∀ offset, Memory.OfControl offset →
      r.caughtUp.hw.memory.word offset = p.hw.memory.word offset := fun offset hoffset =>
    (hsame.word offset hoffset).trans (h.word_eq offset hoffset)
  have hpending : r.caughtUp.hw.setupPending = true := hsame.setupPending.trans h.pending
  have hbytes : r.caughtUp.hw.memory.bytes Memory.setupOffset Setup.size =
      p.hw.memory.bytes Memory.setupOffset Setup.size := by
    refine Memory.bytes_congr fun i hi => hword _ (.inl ?_)
    simp only [Memory.setupOffset, Setup.size] at hi ⊢
    omega
  have htaken : r.takenSetup? =
      some (Setup.ofBytes (p.hw.memory.bytes Memory.setupOffset Setup.size),
        { r.caughtUp with hw := r.caughtUp.hw.setCursor .control Setup.size }) := by
    simp only [takenSetup?, hidle, rxReady_of_pending hpending, if_true, ← hbytes]
    exact offered_of_pending hpending (hsame.cursor.trans h.cursor_eq)
  have hsetup := h.setup_eq.trans htaken
  obtain ⟨status, hacted⟩ := onInterrupt_of_setup hsetup
  refine ⟨_, hsetup, ⟨status, hacted⟩, hidle, fun hsound => ?_, hsame.staged.trans h.staged_eq,
    hword, ?_⟩
  · rw [← h.transfer_eq] at hsound
    exact (sound_caughtUp hsound).1.of_idle hidle
  · rw [hacted, hw_notes]
    exact setupPending_handleSetup _ _

end AdapterLink

open AdapterLink Link

/-- A SETUP packet is missed exactly if it comes with the completion of a data packet.

A SETUP packet comes to the device `p`, in whatever stage its control transfer is and whatever else
the interrupt reports.  The packet is acted on, and nothing else is done on endpoint 0, unless the
interrupt also completes a buffer of endpoint 0 in a data stage.  If that stage sends, the device
sends on and the packet stays in its slot.  If the stage receives, the packet is taken for data. -/
theorem arriving_setup_exact (p : AdapterLink) (h : MeetsSetup p) :
    ((∃ q, TakesSetup p q) ↔
      ¬(p.hw.completesControl = true ∧ (p.device.stage = .dataIn ∨ p.device.stage = .dataOut))) ∧
    (p.hw.completesControl = true → p.device.stage = .dataIn →
      p.setup? = none ∧ p.onInterrupt.hw.setupPending = true ∧
        ∃ (r : AdapterLink) (status : InterruptStatus), r.device.transfer = p.device.transfer ∧
          p.onInterrupt = (bulkWork status).foldl note r.continueIn) ∧
    (p.hw.completesControl = true → p.device.stage = .dataOut →
      p.setup? = none ∧ p.onInterrupt.hw.setupPending = false ∧
        ∃ (r q : AdapterLink) (status : InterruptStatus),
          r.device.transfer = p.device.transfer ∧ r.hw.setupPending = true ∧
          r.continueOut = q.dataOutComplete ∧
          p.onInterrupt = (bulkWork status).foldl note r.continueOut) := by
  obtain ⟨r, hr⟩ := exists_atControl h
  obtain ⟨status, hserved⟩ := hr.served
  have hstage : r.device.stage = p.device.stage := congrArg Transfer.stage hr.transfer_eq
  have hsame := sameControl_caughtUp r
  have hpending : r.caughtUp.hw.setupPending = true := hsame.setupPending.trans hr.pending
  -- In a data stage the completed buffer keeps the flag down, and the stage goes on.
  have hgoesOn : p.hw.completesControl = true →
      p.device.stage = .dataIn ∨ p.device.stage = .dataOut →
      p.setup? = none ∧ r.caughtUp.device.transfer = p.device.transfer := by
    intro hcompletes hdata
    have hend : r.hw.setupEnd = false := by rw [hr.setupEnd_eq, hcompletes]; rfl
    have hcaught := caughtUp_of_data hend (hstage ▸ hdata)
    rw [hr.setup_eq, takenSetup?, hcaught]
    refine ⟨?_, hr.transfer_eq⟩
    rcases hdata with hin | hout
    · simp only [hstage, hin]
    · simp only [hstage, hout]
  refine ⟨⟨?_, ?_⟩, ?_, ?_⟩
  · rintro ⟨q, hq⟩ ⟨hcompletes, hdata⟩
    have hnone := (hgoesOn hcompletes hdata).1
    rw [hq.setup_eq] at hnone
    cases hnone
  · intro hgood
    refine takesSetup_of_idle hr (idle_caughtUp ?_)
    rw [hr.setupEnd_eq, hstage]
    cases hcompletes : p.hw.completesControl with
    | true => exact .inr fun hdata => hgood ⟨hcompletes, hdata⟩
    | false => exact .inl rfl
  · intro hcompletes hin
    obtain ⟨hnone, htransfer⟩ := hgoesOn hcompletes (.inl hin)
    have hcaught : r.caughtUp.device.stage = .dataIn :=
      (congrArg Transfer.stage htransfer).trans hin
    rw [serviceControl_eq, hcaught] at hserved
    refine ⟨hnone, ?_, r.caughtUp, status, htransfer, hserved⟩
    rw [hserved, hw_notes, setupPending_continueIn]
    exact hpending
  · intro hcompletes hout
    obtain ⟨hnone, htransfer⟩ := hgoesOn hcompletes (.inr hout)
    have hcaught : r.caughtUp.device.stage = .dataOut :=
      (congrArg Transfer.stage htransfer).trans hout
    obtain ⟨q, hq, _, hreleased⟩ :=
      continueOut_of_pending hpending (hsame.cursor.trans hr.cursor_eq)
    rw [serviceControl_eq, hcaught] at hserved
    refine ⟨hnone, ?_, r.caughtUp, q, status, htransfer, hpending, hq, hserved⟩
    rw [hserved, hw_notes, hq, setupPending_dataOutComplete]
    exact hreleased

/-! ## On the bench -/

section Bench

open Bench

/-- Something happens in the memory. -/
def sees (f : Memory → Memory) : Operation Adapter :=
  .outside fun a => { a with memory := f a.memory }

/-- An interrupt is served, and the completed buffers are forgotten. -/
def serves (bits : Word) : List (Operation Adapter) :=
  [sees fun m => m.set .interruptStatus bits, .interrupt, sees fun m => m.set .bufferStatus 0]

/-- The device is plugged in and the host sends a SETUP packet. -/
def asking (s : Setup) : List (Operation Adapter) :=
  [.attach] ++ serves 0 ++ serves (BitVec.twoPow 32 12) ++ [sees (setupToken s.toBytes)] ++
    serves (BitVec.twoPow 32 16)

/-- The host sends another SETUP packet after a token, and one interrupt reports both. -/
def cutAfter (token : Memory → Memory) : List (Operation Adapter) :=
  [sees token, sees (setupToken (addressSetup 5).toBytes),
    sees fun m => m.set .interruptStatus (ofBits [4, 16])]

/-- The host is sent a text, and gives up after one packet or before. -/
def textThen (token : Memory → Memory) : AdapterLink :=
  Operation.runAll (asking textSetup ++ cutAfter token) ⟨wordy, .ofMemory (.filled 0)⟩

/-- The SETUP packet that announces new descriptors. -/
def descriptorSetup : Setup :=
  { requestType := 0, request := 0x07, value := 0x0100, index := 0, length := 8 }

/-- The host sends new descriptors and does not wait for the handshake. -/
def descriptorThen (token : Memory → Memory) : AdapterLink :=
  Operation.runAll (asking descriptorSetup ++ cutAfter token) ⟨wordy, .ofMemory (.filled 0)⟩

/-- A SETUP packet that comes before a packet of the text was collected is acted on. -/
theorem arriving_setup_exact_alone :
    MeetsSetup (textThen id) ∧ (textThen id).device.stage = .dataIn ∧
      (textThen id).hw.completesControl = false ∧ ∃ q, TakesSetup (textThen id) q := by
  have hmeets : MeetsSetup (textThen id) := by decide +kernel
  have hbetween : (textThen id).hw.completesControl = false := by decide +kernel
  refine ⟨hmeets, by decide +kernel, hbetween, ?_⟩
  refine (arriving_setup_exact (textThen id) hmeets).1.mpr fun hbad => ?_
  rw [hbetween] at hbad
  cases hbad.1

/-- One that comes right after a packet was collected stays in its slot, and the rest of the text is
sent.  One that comes right after new descriptors is taken for more of them, and endpoint 0 is
halted. -/
theorem setup_missed_in_data_stage :
    let sending := textThen fun m => (inToken .control m).2
    let receiving := descriptorThen fun m => (outToken .control (List.replicate 8 0) m).2
    (MeetsSetup sending ∧ sending.setup? = none ∧ sending.onInterrupt.hw.setupPending = true ∧
      (inToken .control sending.onInterrupt.hw.memory).1.toOption =
        some (List.replicate 36 0x41)) ∧
    (MeetsSetup receiving ∧ receiving.setup? = none ∧
      receiving.onInterrupt.hw.setupPending = false ∧
      (inToken .control receiving.onInterrupt.hw.memory).1.toOption = none ∧
      bit (receiving.onInterrupt.hw.memory.bufferControl .control .toHost)
        BufferControl.stallBit = true) := by
  intro sending receiving
  have hnone : ∀ p : AdapterLink, p.setup?.isNone = true → p.setup? = none :=
    fun _ => Option.isNone_iff_eq_none.mp
  refine ⟨⟨?_, hnone _ ?_, ?_⟩, ?_, hnone _ ?_, ?_⟩
  all_goals decide +kernel

end Bench

end FlashProgrammer.Rp2040

import FlashProgrammer.Proofs.Bench.Gate
import FlashProgrammer.Proofs.Programmer.Doing
import FlashProgrammer.Proofs.Trace.View

/-!
# The gate and the main loop

The firmware cannot make a packet: whatever it asks of the controller leaves the last
ones of the packets that wait.  `decoded?` is the packet that the main loop is about
to take for a request, and it takes one exactly if the gate is open.
-/

namespace FlashProgrammer.Programmer

open Protocol Usb

/-- The packet that is taken for a request, if one is. -/
def decoded? {ω : Type} [Controller ω] (s : Station ω) : Option (List UInt8) :=
  match s.2.rxPending flashEndpoint with
  | (false, _) => none
  | (true, link) =>
    match link.readPacket flashEndpoint maxPacket with
    | (.error _, _) => none
    | (.ok frame, _) => some frame

end FlashProgrammer.Programmer

namespace FlashProgrammer.Bench

open Flash Protocol Usb Programmer

variable {β ρ : Type}

/-! ## What the firmware leaves -/

theorem remaining_suffix (a : Action) (packets : List (Array UInt8)) :
    remaining a packets <:+ packets := by
  cases a with
  | rxDone ep dataEnd =>
    rw [remaining]
    split
    · exact List.tail_suffix packets
    · exact List.suffix_refl packets
  | clearStall ep dir =>
    cases dir with
    | toHost => exact List.suffix_refl packets
    | toDevice =>
      rw [remaining]
      split
      · exact List.nil_suffix
      · exact List.suffix_refl packets
  | _ => exact List.suffix_refl packets

theorem perform_leaves (a : Action) (w : Fifos β ρ) :
    packetsIn (Controller.perform a w).2 <:+ packetsIn w := by
  rw [packetsIn_perform]
  exact remaining_suffix a (packetsIn w)

/-- Using the controller takes packets and makes none. -/
theorem leaves_of_used {w w' : Fifos β ρ} (h : Used w w') : packetsIn w' <:+ packetsIn w :=
  h.preserves (P := fun v => packetsIn v <:+ packetsIn w)
    (fun a v hv => (perform_leaves a v).trans hv) (List.suffix_refl _)

section Serving

variable [Spi.Bus β]

/-- An instruction to a chip is no business of the controller. -/
theorem packetsIn_execute (slot : Slot) (i : Instruction) (w : Fifos β ρ) :
    packetsIn (execute slot i w).2 = packetsIn w := by
  have hview := execute_view (isView_around w) slot i w.spi
  exact congrArg (fun executed => packetsIn executed.2) hview

theorem leaves_of_does [ResetLine ρ] {w w' : Fifos β ρ} (h : Does w w') :
    packetsIn w' <:+ packetsIn w := by
  induction h with
  | refl => exact List.suffix_refl _
  | use _ a ih => exact (perform_leaves a _).trans ih
  | drive _ level ih => exact ih
  | execute _ slot i ih =>
    rw [packetsIn_execute]
    exact ih

end Serving

/-! ## Taking a packet -/

/-- A packet is taken for a request. -/
def Gate.Open (g : Gate) : Prop :=
  g.lifecycle = .configured ∧ g.halted = false ∧ g.waiting ≠ []

instance (g : Gate) : Decidable g.Open :=
  inferInstanceAs (Decidable (g.lifecycle = .configured ∧ g.halted = false ∧ g.waiting ≠ []))

theorem ask_rxReady (p : Link (Fifos β ρ)) :
    p.ask (.rxReady .flash) = (!(gate p).waiting.isEmpty, p) := rfl

theorem rxPending_eq (p : Link (Fifos β ρ)) :
    p.rxPending flashEndpoint = (decide (gate p).Open, p) := by
  have hflash : Endpoint.ofByte? flashEndpoint = some .flash := rfl
  have hconfigured : p.device.isConfigured = decide ((gate p).lifecycle = .configured) := rfl
  have hhalted : (p.device.endpoints.get .flash .toDevice).stalled = (gate p).halted := rfl
  simp only [Link.rxPending, hflash, hconfigured, hhalted, ask_rxReady]
  generalize gate p = g
  obtain ⟨lifecycle, configuration, halted, waiting⟩ := g
  cases halted <;> cases waiting <;> by_cases lifecycle = .configured <;> simp [Gate.Open, *]

theorem readPacket_of_open {p : Link (Fifos β ρ)} (h : (gate p).Open) (room : Nat) :
    ∃ bs q, p.readPacket flashEndpoint room = (.ok bs, q) := by
  obtain ⟨hlifecycle, hhalted, hwaiting⟩ := h
  have hbulk : p.bulkEndpoint flashEndpoint .toDevice = .ok .flash := by
    have hconfigured : p.device.isConfigured = true := by
      rw [Device.isConfigured, show p.device.lifecycle = .configured from hlifecycle]
      rfl
    have hstalled : (p.device.endpoints.get .flash .toDevice).stalled = false := hhalted
    have hflash : Endpoint.ofByte? flashEndpoint = some .flash := rfl
    simp only [Link.bulkEndpoint, hconfigured, hflash, hstalled, if_true]
    rfl
  have hready : p.ask (.rxReady .flash) = (true, p) := by
    rw [ask_rxReady]
    cases hpackets : (gate p).waiting with
    | nil => exact absurd hpackets hwaiting
    | cons packet rest => rfl
  have harrived : ∀ spins, p.awaitPacket .flash spins = (true, p) := by
    intro spins
    cases spins with
    | zero => exact hready
    | succ spins => simp only [Link.awaitPacket, hready]
  simp only [Link.readPacket, hbulk, harrived]
  exact ⟨_, _, rfl⟩

/-- A packet is decoded exactly if the gate is open. -/
theorem decoded_iff (s : Station (Fifos β ρ)) :
    (∃ frame, decoded? s = some frame) ↔ (gate s.2).Open := by
  rw [decoded?, rxPending_eq]
  by_cases hopen : (gate s.2).Open
  · obtain ⟨bs, q, hread⟩ := readPacket_of_open hopen maxPacket
    simp [hopen, hread]
  · simp [hopen]

variable [Spi.Bus β] [ResetLine ρ]

theorem service_of_closed {s : Station (Fifos β ρ)} (h : ¬(gate s.2).Open) : service s = s := by
  rw [service, rxPending_eq, decide_eq_false h]

theorem service_leaves (s : Station (Fifos β ρ)) :
    packetsIn (service s).2.hw <:+ packetsIn s.2.hw := by
  rw [service, rxPending_eq]
  cases decide (gate s.2).Open with
  | false => exact List.suffix_refl _
  | true =>
    have hread := leaves_of_used (talks_readPacket flashEndpoint maxPacket s.2).used
    simp only
    generalize s.2.readPacket flashEndpoint maxPacket = read at hread ⊢
    obtain ⟨_ | frame, q⟩ := read
    · exact hread
    · simp only
      split
      · exact (leaves_of_does (does_serve _ (s.1, q))).trans hread
      · exact (leaves_of_used (used_stallEndpoint flashEndpoint .toHost q)).trans hread

end FlashProgrammer.Bench

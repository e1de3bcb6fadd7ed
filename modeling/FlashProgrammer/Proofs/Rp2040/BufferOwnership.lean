import FlashProgrammer.Proofs.Rp2040.ProperActions

/-!
# Whose buffer it is

The device may be interrupted, polled and used for bulk transfers in any order, and the controller
may complete a buffer that it owns before any action.  `bytes_inside_buffers` says of all such runs
that the firmware never leaves a buffer and never touches one that is the controller's.

The adapter fits the mode of the discipline at the start, and each step of a run keeps that
(`fits_follows`).
-/

namespace FlashProgrammer.Rp2040

open Usb Programmer

theorem Adapter.fits_ofMemory (m : Memory) : Fits .rest (ofMemory m) := by
  refine fits_rest ⟨fun ep => ?_, fun ep => ?_⟩ (PerEndpoint.get_replicate 0)
    (PerEndpoint.get_replicate 0)
  · exact Nat.le_of_eq (PerDirection.get_replicate Memory.bufferLength ep .toDevice)
  · rw [bufferControl_ofMemory]
    exact Nat.zero_le _

/-! ## Runs -/

/-- An action was proper when it was asked for. -/
def Happening.Proper : Happening → Prop
  | moved _ _ => True
  | asked before a => before.Proper a

/-- While the discipline is kept and the moves are lawful, every action is proper. -/
theorem fits_follows {m m' : Mode} {c c' : Contended} (h : Follows m c m' c')
    (hfits : Adapter.Fits m c.adapter) (hproper : ∀ e ∈ c.history, e.Proper)
    (hlawful : ∀ e ∈ c'.history, e.Lawful) :
    Adapter.Fits m' c'.adapter ∧ ∀ e ∈ c'.history, e.Proper := by
  induction h with
  | refl => exact ⟨hfits, hproper⟩
  | @step _ _ c' _ a ha ih =>
    rw [Contended.perform_eq] at ha hlawful ⊢
    simp only [List.mem_append] at ha hlawful ⊢
    obtain ⟨hbefore, hproper'⟩ := ih fun e he => hlawful e (.inl he)
    have hmove : Completes c'.adapter.memory c'.moved.memory :=
      hlawful (.moved _ _) (.inr List.mem_cons_self)
    obtain ⟨hasked, hafter⟩ := Adapter.fits_step (Adapter.fits_moved hbefore hmove) ha
    refine ⟨hafter, fun e he => ?_⟩
    rcases he with he | he
    · exact hproper' e he
    · simp only [List.mem_cons, List.not_mem_nil, or_false] at he
      rcases he with rfl | rfl
      · trivial
      · exact hasked

variable {β ρ : Type} [Spi.Bus β] [ResetLine ρ]

/-- Whatever the controller completes meanwhile, every byte is taken and added inside of its buffer,
and a bulk buffer is touched only while it is the processor's. -/
theorem bytes_inside_buffers {m : Memory} {moves : List (Memory → Memory)}
    {events : List TransferEvent} {s : Station (Hardware Contended β ρ)}
    (h : Operates (Contended.start m moves) events s)
    (hlawful : ∀ e ∈ s.2.hw.usb.history, e.Lawful) : ∀ e ∈ s.2.hw.usb.history, e.Proper := by
  obtain ⟨m', _, hfollows⟩ := h.keeps .rest rfl
  exact (fits_follows hfollows (Adapter.fits_ofMemory m) (fun _ h => by cases h) hlawful).2

/-! ## On the bench -/

section Bench

open Bench

/-- A request comes in right after the handshake. -/
def requestMoves : List (Memory → Memory) := [fun m => (outToken .flash [0x00] m).2]

/-- The device is configured and the main loop serves a request. -/
def requestServed : Station (Hardware Contended FlashBus PinRecord) :=
  poll (interrupted 1 (awaitingHandshake requestMoves))

theorem operates_requestServed :
    ∃ events, Operates (Contended.start (.filled 0) (handshakeThen requestMoves)) events
      requestServed := by
  obtain ⟨events, hconfigured⟩ :=
    operates_interrupted (operates_awaitingHandshake requestMoves) 1
  exact ⟨events, hconfigured.poll⟩

/-- The actions that move a packet of the flash endpoint. -/
def Happening.movesRequest : Happening → Bool
  | asked _ (.fifoRead ep _) | asked _ (.rxDone ep _) | asked _ (.fifoWrite ep _ _)
  | asked _ (.txReady ep _) => ep = .flash
  | _ => false

theorem bytes_inside_buffers_request :
    (∀ e ∈ requestServed.2.hw.usb.history, e.Lawful) ∧
      (∀ e ∈ requestServed.2.hw.usb.history, e.Proper) ∧
      (requestServed.2.hw.usb.history.filter Happening.movesRequest).length = 5 := by
  have hlawful : ∀ e ∈ requestServed.2.hw.usb.history, e.Lawful := by decide +kernel
  obtain ⟨events, hrun⟩ := operates_requestServed
  exact ⟨hlawful, bytes_inside_buffers hrun hlawful, by decide +kernel⟩

end Bench

end FlashProgrammer.Rp2040

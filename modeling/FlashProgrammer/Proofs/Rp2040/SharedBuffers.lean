import FlashProgrammer.Bench.Rig
import FlashProgrammer.Bench.Tokens
import FlashProgrammer.Proofs.Programmer.DeviceRuns
import FlashProgrammer.Proofs.Rp2040.HandedBuffers

/-!
# Buffers shared with the controller

The controller works on the shared memory while the processor runs.  A `Contended` adapter lets it
make a move before every action of the firmware, and keeps a history of the moves and the actions.

A controller may only complete what it owns, and `Completes` says that of a move.  Of endpoint 0 it
asks for less, because a SETUP packet takes both its buffers away.

The last section has a device on the bench whose controller moves.
-/

namespace FlashProgrammer.Rp2040

open Usb Programmer

/-- What happens at the shared memory. -/
inductive Happening where
  /-- The controller worked on it. -/
  | moved (before after : Memory)
  /-- The firmware asked the adapter for an action. -/
  | asked (before : Adapter) (a : Action)

/-- An adapter and a controller that works while the firmware does. -/
structure Contended where
  adapter : Adapter
  /-- What the controller does before each of the next actions, and then nothing. -/
  moves : List (Memory → Memory)
  /-- What happened, oldest first. -/
  history : List Happening

namespace Contended

/-- The controller is taken over. -/
def start (m : Memory) (moves : List (Memory → Memory)) : Contended := ⟨.ofMemory m, moves, []⟩

/-- The adapter once the controller has made its next move. -/
def moved (c : Contended) : Adapter :=
  { c.adapter with memory := c.moves.headD id c.adapter.memory }

instance : Controller Contended where
  perform a c :=
    let (reply, adapter) := Controller.perform a c.moved
    (reply, ⟨adapter, c.moves.tail,
      c.history ++ [.moved c.adapter.memory c.moved.memory, .asked c.moved a]⟩)

theorem perform_eq (a : Action) (c : Contended) :
    Controller.perform a c = ((Controller.perform a c.moved).1,
      ⟨tell a c.moved, c.moves.tail,
        c.history ++ [.moved c.adapter.memory c.moved.memory, .asked c.moved a]⟩) := rfl

end Contended

/-! ## What the controller may do -/

/-- The controller gives back a buffer that it owned.  One from the host was filled. -/
structure GivesBack (dir : Direction) (w w' : Word) : Prop where
  owned : BufferControl.available w = true
  released : BufferControl.available w' = false
  filled : dir = .toDevice →
    BufferControl.full w' = true ∧ BufferControl.length w' ≤ Memory.bufferLength

instance (dir : Direction) (w w' : Word) : Decidable (GivesBack dir w w') :=
  decidable_of_iff (BufferControl.available w = true ∧ BufferControl.available w' = false ∧
      (dir = .toDevice →
        BufferControl.full w' = true ∧ BufferControl.length w' ≤ Memory.bufferLength))
    ⟨fun h => ⟨h.1, h.2.1, h.2.2⟩, fun h => ⟨h.owned, h.released, h.filled⟩⟩

/-- A move completes buffers that the controller owned, and nothing else is asked of it. -/
structure Completes (m m' : Memory) : Prop where
  bulk : ∀ ep dir, ep ≠ .control → m'.bufferControl ep dir = m.bufferControl ep dir ∨
    GivesBack dir (m.bufferControl ep dir) (m'.bufferControl ep dir)
  control : BufferControl.length (m'.bufferControl .control .toDevice) ≤ Memory.bufferLength ∨
    BufferControl.length (m'.bufferControl .control .toDevice) =
      BufferControl.length (m.bufferControl .control .toDevice)

instance (m m' : Memory) : Decidable (Completes m m') :=
  let Kept := fun (ep : Endpoint) (dir : Direction) =>
    m'.bufferControl ep dir = m.bufferControl ep dir ∨
      GivesBack dir (m.bufferControl ep dir) (m'.bufferControl ep dir)
  decidable_of_iff ((∀ ep, ep ≠ .control → Kept ep .toDevice ∧ Kept ep .toHost) ∧
      (BufferControl.length (m'.bufferControl .control .toDevice) ≤ Memory.bufferLength ∨
        BufferControl.length (m'.bufferControl .control .toDevice) =
          BufferControl.length (m.bufferControl .control .toDevice)))
    ⟨fun h => ⟨fun
        | ep, .toDevice, hep => (h.1 ep hep).1
        | ep, .toHost, hep => (h.1 ep hep).2, h.2⟩,
      fun h => ⟨fun ep hep => ⟨h.bulk ep .toDevice hep, h.bulk ep .toHost hep⟩, h.control⟩⟩

/-- A move is one that the controller may make. -/
def Happening.Lawful : Happening → Prop
  | moved before after => Completes before after
  | asked _ _ => True

instance : (e : Happening) → Decidable e.Lawful
  | .moved before after => inferInstanceAs (Decidable (Completes before after))
  | .asked _ _ => inferInstanceAs (Decidable True)

/-- A buffer that was not the controller's is as it was. -/
theorem Completes.eq_of_released {m m' : Memory} (h : Completes m m') {ep : Endpoint}
    {dir : Direction} (hep : ep ≠ .control)
    (hreleased : BufferControl.available (m.bufferControl ep dir) = false) :
    m'.bufferControl ep dir = m.bufferControl ep dir := by
  rcases h.bulk ep dir hep with hsame | hgiven
  · exact hsame
  · rw [hgiven.owned] at hreleased
    cases hreleased

/-- No buffer from the host gets longer than the longest. -/
theorem Completes.length_le {m m' : Memory} (h : Completes m m') {ep : Endpoint}
    (hle : BufferControl.length (m.bufferControl ep .toDevice) ≤ Memory.bufferLength) :
    BufferControl.length (m'.bufferControl ep .toDevice) ≤ Memory.bufferLength := by
  by_cases hep : ep = .control
  · subst hep
    rcases h.control with hlength | hsame
    · exact hlength
    · rwa [hsame]
  · rcases h.bulk ep .toDevice hep with hsame | hgiven
    · rwa [hsame]
    · exact (hgiven.filled rfl).2

/-! ## On the bench -/

/-- Interrupts are served. -/
def interrupted {ω : Type} [Controller ω] (n : Nat) (s : Station ω) : Station ω :=
  match n with
  | 0 => s
  | n + 1 => interrupted n (s.1, Operation.run .interrupt s.2)

theorem operates_interrupted {κ β ρ : Type} [Controller κ] [Spi.Bus β] [ResetLine ρ] {k : κ}
    {events : List TransferEvent} {s : Station (Hardware κ β ρ)} (h : Operates k events s) (n : Nat) :
    ∃ events', Operates k events' (interrupted n s) := by
  induction n generalizing events s with
  | zero => exact ⟨events, h⟩
  | succ n ih => exact ih (h.usb .interrupt nofun)

section Bench

open Bench

/-- An interrupt has one cause. -/
def causes (bit : Nat) (m : Memory) : Memory := m.set .interruptStatus (BitVec.twoPow 32 bit)

/-- A device that waits for the handshake of its configuration. -/
def configuring : Device where
  lifecycle := .addressed
  configuration := 1
  stage := .status
  endpoints := PerDirection.set (.set (.replicate {}) .flash .toDevice { needsArming := true })
    .flash .toHost { needsArming := true }

/-- The controller completes the handshake, which the firmware answers with five actions, and then
it makes other moves. -/
def handshakeThen (moves : List (Memory → Memory)) : List (Memory → Memory) :=
  [fun m => causes 4 (complete m .control .toHost), id, id, id, id] ++ moves

/-- A device that waits for the handshake, before anything was asked of the controller. -/
def awaitingHandshake (moves : List (Memory → Memory)) :
    Station (Hardware Contended FlashBus PinRecord) :=
  ({}, ⟨configuring, ⟨.start (.filled 0) (handshakeThen moves), { chips := ⟨none, none, none⟩ }, {}⟩⟩)

theorem operates_awaitingHandshake (moves : List (Memory → Memory)) :
    Operates (Contended.start (.filled 0) (handshakeThen moves)) [] (awaitingHandshake moves) :=
  .start _ _ _ _

end Bench

end FlashProgrammer.Rp2040

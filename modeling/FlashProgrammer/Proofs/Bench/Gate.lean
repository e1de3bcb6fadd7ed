import FlashProgrammer.Bench.Host
import FlashProgrammer.Proofs.Usb.BulkMoves

/-!
# The gate of the flash endpoint

Packets on the flash endpoint wait in the controller, and the device decides whether
one is served.  The `gate` of a link is all that matters for that: how far the host
has brought the device, the configuration, the halt, and the packets that wait.

Every function of the USB side is told by what it does to the gate.  Most do
nothing, because they are about endpoint 0.
-/

namespace FlashProgrammer.Bench

open Usb

/-- Hardware with a controller of FIFOs. -/
abbrev Fifos (β ρ : Type) := Hardware FifoController β ρ

variable {β ρ : Type}

/-- What decides whether a packet on the flash endpoint is served. -/
structure Gate where
  /-- How far the host has brought the device. -/
  lifecycle : Lifecycle
  /-- The chosen configuration, or 0. -/
  configuration : UInt8
  /-- The endpoint is halted. -/
  halted : Bool
  /-- The packets that wait, oldest first. -/
  waiting : List (Array UInt8)

/-- The packets that wait on the flash endpoint. -/
def packetsIn (w : Fifos β ρ) : List (Array UInt8) := (w.usb.out.get .flash).packets

/-- The gate of a link. -/
def gate (p : Link (Fifos β ρ)) : Gate where
  lifecycle := p.device.lifecycle
  configuration := p.device.configuration
  halted := (p.device.endpoints.get .flash .toDevice).stalled
  waiting := packetsIn p.hw

/-! ## The controller -/

/-- The packets on the flash endpoint that an action leaves there. -/
def remaining : Action → List (Array UInt8) → List (Array UInt8)
  | .rxDone ep _, packets => if ep = .flash then packets.tail else packets
  | .clearStall ep .toDevice, packets => if ep = .flash then [] else packets
  | _, packets => packets

theorem packetsIn_perform (a : Action) (w : Fifos β ρ) :
    packetsIn (Controller.perform a w).2 = remaining a (packetsIn w) := by
  have hset : ∀ (ep : Endpoint) (f : OutFifo),
      (w.usb.setOut ep f).out.get .flash = if ep = .flash then f else w.usb.out.get .flash :=
    fun ep f => PerEndpoint.get_set w.usb.out ep .flash f
  cases a with
  | fifoRead ep width =>
    show ((w.usb.setOut ep ((w.usb.out.get ep).take width.bytes).2).out.get .flash).packets = _
    rw [hset]
    split
    · next h => rw [h]; rfl
    · rfl
  | rxDone ep dataEnd =>
    show ((w.usb.setOut ep (w.usb.out.get ep).release).out.get .flash).packets = _
    rw [hset, remaining]
    split
    · next h => rw [h]; rfl
    · rfl
  | clearStall ep dir =>
    cases dir with
    | toDevice =>
      show ((w.usb.setOut ep {}).out.get .flash).packets = _
      rw [hset, remaining]
      split <;> rfl
    | toHost => rfl
  | _ => rfl

theorem packetsIn_readFifo (ep : Endpoint) (n : Nat) (w : Fifos β ρ) :
    packetsIn (readFifo ep n w).2 = packetsIn w :=
  UsedFor.same (usedFor_readFifo (fun width => packetsIn_perform (.fifoRead ep width)) n w)

theorem packetsIn_writeFifo (ep : Endpoint) (data : List UInt8) (w : Fifos β ρ) :
    packetsIn (writeFifo ep data w) = packetsIn w :=
  UsedFor.same
    (usedFor_writeFifo (fun width value => packetsIn_perform (.fifoWrite ep width value)) data w)

/-! ## The link -/

theorem gate_tell (a : Action) (p : Link (Fifos β ρ)) :
    gate (p.tell a) = { gate p with waiting := remaining a (gate p).waiting } := by
  have hpackets := packetsIn_perform a p.hw
  simp only [gate, Link.tell, Usb.tell, hpackets]

theorem gate_ask (a : Action) (p : Link (Fifos β ρ)) :
    gate (p.ask a).2 = { gate p with waiting := remaining a (gate p).waiting } :=
  gate_tell a p

/-- A record of another endpoint or direction does not matter. -/
theorem gate_setStatus_other {ep : Endpoint} {dir : Direction}
    (h : ¬(ep = .flash ∧ dir = .toDevice)) (f : EndpointStatus → EndpointStatus)
    (p : Link (Fifos β ρ)) : gate (p.setStatus ep dir f) = gate p := by
  simp only [gate, Link.setStatus, PerDirection.get_modify, if_neg h]

theorem gate_setStatus_control (dir : Direction) (f : EndpointStatus → EndpointStatus)
    (p : Link (Fifos β ρ)) : gate (p.setStatus .control dir f) = gate p :=
  gate_setStatus_other (fun h => absurd h.1 (by decide)) f p

/-- A change that leaves the halt alone does not matter. -/
theorem gate_setStatus_same {f : EndpointStatus → EndpointStatus}
    (h : ∀ status, (f status).stalled = status.stalled) (ep : Endpoint) (dir : Direction)
    (p : Link (Fifos β ρ)) : gate (p.setStatus ep dir f) = gate p := by
  simp only [gate, Link.setStatus, PerDirection.get_modify]
  split
  · next heq =>
    obtain ⟨rfl, rfl⟩ := heq
    rw [h]
  · rfl

/-- A change that decides the halt. -/
theorem gate_setStatus_flash {f : EndpointStatus → EndpointStatus} (halted : Bool)
    (h : ∀ status, (f status).stalled = halted) (p : Link (Fifos β ρ)) :
    gate (p.setStatus .flash .toDevice f) = { gate p with halted } := by
  simp only [gate, Link.setStatus, PerDirection.get_modify, and_self, if_true, h]

theorem gate_halt (ep : Endpoint) (dir : Direction) (p : Link (Fifos β ρ)) :
    gate (p.halt ep dir) =
      if ep = .flash ∧ dir = .toDevice then { gate p with halted := true } else gate p := by
  rw [Link.halt]
  split
  · next h =>
    obtain ⟨rfl, rfl⟩ := h
    rw [gate_setStatus_flash true fun _ => rfl, gate_tell]
    rfl
  · next h => rw [gate_setStatus_other h, gate_tell]; rfl

theorem gate_clearHalt (ep : Endpoint) (dir : Direction) (p : Link (Fifos β ρ)) :
    gate (p.clearHalt ep dir) =
      if ep = .flash ∧ dir = .toDevice then { gate p with halted := false, waiting := [] }
      else gate p := by
  rw [Link.clearHalt]
  split
  · next h =>
    obtain ⟨rfl, rfl⟩ := h
    rw [gate_setStatus_flash false fun _ => rfl, gate_tell]
    rfl
  · next h =>
    rw [gate_setStatus_other h, gate_tell]
    cases dir with
    | toHost => rfl
    | toDevice =>
      have hep : ep ≠ .flash := fun heq => h ⟨heq, rfl⟩
      simp only [remaining, if_neg hep]

theorem gate_abortControl (p : Link (Fifos β ρ)) : gate p.abortControl = gate p := by
  have hget : ((p.device.endpoints.modify .control .toDevice EndpointStatus.finish).modify
      .control .toHost EndpointStatus.finish).get .flash .toDevice =
      p.device.endpoints.get .flash .toDevice := by
    rw [PerDirection.get_modify, if_neg (by decide), PerDirection.get_modify, if_neg (by decide)]
  simp only [gate, Link.abortControl, Device.abortControl, hget]

theorem gate_stallControl (p : Link (Fifos β ρ)) : gate p.stallControl = gate p := by
  rw [Link.stallControl, gate_abortControl, gate_tell]
  rfl

end FlashProgrammer.Bench

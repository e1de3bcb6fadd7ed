import FlashProgrammer.Bench.Record
import FlashProgrammer.Usb.Fifo
import FlashProgrammer.Usb.PerEndpoint

/-!
# A USB controller on the bench

A controller made of plain FIFOs.  Packets wait in an OUT FIFO until they are
released, and committed packets are kept as sent.  Interrupts are whatever the
bench sets up, and reading them clears them.
-/

namespace FlashProgrammer.Bench

open Usb

/-- The packets that wait on one endpoint. -/
structure OutFifo where
  /-- The waiting packets, oldest first. -/
  packets : List (Array UInt8) := []
  /-- Bytes taken of the oldest. -/
  cursor : Nat := 0
deriving DecidableEq, Repr

namespace OutFifo

/-- Bytes left of the oldest packet. -/
def left (f : OutFifo) : Nat := (f.packets.headD #[]).size - f.cursor

/-- Takes `n` bytes of the oldest packet.  Past its end there are zeros. -/
def take (f : OutFifo) (n : Nat) : List UInt8 × OutFifo :=
  let packet := f.packets.headD #[]
  ((List.range n).map fun i => packet.getD (f.cursor + i) 0, { f with cursor := f.cursor + n })

def release (f : OutFifo) : OutFifo := ⟨f.packets.tail, 0⟩

def queue (f : OutFifo) (packet : List UInt8) : OutFifo :=
  { f with packets := f.packets ++ [packet.toArray] }

theorem take_add (f : OutFifo) (m n : Nat) :
    f.take (m + n) = ((f.take m).1 ++ ((f.take m).2.take n).1, ((f.take m).2.take n).2) := by
  simp only [take, List.range_add, List.map_append, List.map_map, Nat.add_assoc]
  rfl

@[simp] theorem length_take (f : OutFifo) (n : Nat) : (f.take n).1.length = n := by
  simp [take]

/-- The bytes left of the oldest packet. -/
def ahead (f : OutFifo) : List UInt8 := (f.packets.headD #[]).toList.drop f.cursor

theorem length_ahead (f : OutFifo) : f.ahead.length = f.left := by
  simp [ahead, left]

/-- Bytes that are left come as they were sent. -/
theorem take_of_le {f : OutFifo} {n : Nat} (h : n ≤ f.left) :
    f.take n = (f.ahead.take n, { f with cursor := f.cursor + n }) := by
  have hbytes : (f.take n).1 = f.ahead.take n := by
    refine List.ext_getElem (by simp [length_ahead, h]) fun i hi _ => ?_
    have hlt : f.cursor + i < (f.packets.headD #[]).size := by
      rw [length_take] at hi
      simp only [left] at h
      omega
    simp only [take, ahead, List.getElem_map, List.getElem_range, List.getElem_take,
      List.getElem_drop, Array.getElem_toList, Array.getD, dif_pos hlt]
    rfl
  exact Prod.ext hbytes rfl

/-- The front of a packet comes as it was sent. -/
theorem take_packet {packet : List UInt8} {n : Nat} (h : n ≤ packet.length)
    (rest : List (Array UInt8)) :
    (OutFifo.mk (packet.toArray :: rest) 0).take n =
      (packet.take n, ⟨packet.toArray :: rest, n⟩) := by
  rw [take_of_le (by simpa [left] using h)]
  simp [ahead]

end OutFifo

/-- What goes to the host on one endpoint. -/
structure InFifo where
  /-- The packet being built. -/
  staged : List UInt8 := []
  /-- The committed packets. -/
  sent : Record (List UInt8) := {}
deriving DecidableEq, Repr

/-- An endpoint that was set up. -/
structure Configured where
  endpoint : Endpoint
  direction : Direction
  maxPacket : Nat
  /-- Two packets at a time. -/
  doubleBuffered : Bool
deriving DecidableEq, Repr

/-- A controller made of FIFOs. -/
structure FifoController where
  /-- The interrupt sources to be read. -/
  pending : InterruptStatus := {}
  /-- The conditions of endpoint 0 to be read. -/
  controlEvents : ControlEvents := {}
  /-- The bus events that raise an interrupt. -/
  enabled : BusEvents := {}
  connected : Bool := false
  address : UInt8 := 0
  /-- The endpoints that were set up. -/
  configured : Record Configured := {}
  /-- The packets that wait on each endpoint. -/
  out : PerEndpoint OutFifo := .replicate {}
  /-- What goes to the host on each endpoint. -/
  into : PerEndpoint InFifo := .replicate {}
  /-- For each packet sent on endpoint 0, whether it ended the data stage. -/
  lastFlags : Record Bool := {}
  /-- The halt of each endpoint and direction. -/
  halted : PerDirection Bool := .replicate false
  /-- The width of every FIFO access. -/
  widths : Record Width := {}
deriving DecidableEq, Repr

namespace FifoController

def setOut (c : FifoController) (ep : Endpoint) (f : OutFifo) : FifoController :=
  { c with out := c.out.set ep f }

def setInto (c : FifoController) (ep : Endpoint) (f : InFifo) : FifoController :=
  { c with into := c.into.set ep f }

def queue (c : FifoController) (ep : Endpoint) (packet : List UInt8) : FifoController :=
  c.setOut ep ((c.out.get ep).queue packet)

/-- One access to an OUT FIFO. -/
def fifoRead (c : FifoController) (ep : Endpoint) (width : Width) :
    BitVec width.bits × FifoController :=
  let (bs, fifo) := (c.out.get ep).take width.bytes
  (valueOfBytes width bs, { c.setOut ep fifo with widths := c.widths.push width })

/-- One access to an IN FIFO. -/
def fifoWrite (c : FifoController) (ep : Endpoint) (width : Width) (value : BitVec width.bits) :
    FifoController :=
  let fifo := c.into.get ep
  { c.setInto ep { fifo with staged := fifo.staged ++ bytesOfValue width value } with
    widths := c.widths.push width }

def commit (c : FifoController) (ep : Endpoint) (last : Bool) : FifoController :=
  let fifo := c.into.get ep
  { c.setInto ep { staged := [], sent := fifo.sent.push fifo.staged } with
    lastFlags := if ep = .control then c.lastFlags.push last else c.lastFlags }

/-- Clears a halt.  In OUT direction the waiting packets are lost. -/
def clearStall (c : FifoController) (ep : Endpoint) (dir : Direction) : FifoController :=
  let c := { c with halted := c.halted.set ep dir false }
  match dir with
  | .toDevice => c.setOut ep {}
  | .toHost => c

/-- Forgets the packets sent, the endpoints set up and the widths. -/
def clearRecord (c : FifoController) : FifoController :=
  { c with
    into := c.into.map fun f => { f with sent := {} }
    lastFlags := {}
    widths := {}
    configured := {} }

instance : Controller FifoController where
  perform
    | .interrupts, c => (c.pending, { c with pending := {} })
    | .controlEvents, c => (c.controlEvents, { c with controlEvents := {} })
    | .enableEvents events, c => ((), { c with enabled := events })
    | .connect, c => ((), { c with connected := true })
    | .disconnect, c => ((), { c with connected := false })
    | .setAddress address, c => ((), { c with address })
    | .configure ep dir maxPacket doubleBuffered, c =>
      ((), { c with configured := c.configured.push ⟨ep, dir, maxPacket, doubleBuffered⟩ })
    | .rxReady ep, c => (!(c.out.get ep).packets.isEmpty, c)
    | .rxCount ep, c => (UInt16.ofNat (c.out.get ep).left, c)
    | .fifoRead ep width, c => c.fifoRead ep width
    | .rxDone ep _, c => ((), c.setOut ep (c.out.get ep).release)
    | .txBusy _, c => (false, c)
    | .fifoWrite ep width value, c => ((), c.fifoWrite ep width value)
    | .txReady ep last, c => ((), c.commit ep last)
    | .stall ep dir, c => ((), { c with halted := c.halted.set ep dir true })
    | .clearStall ep dir, c => ((), c.clearStall ep dir)

end FifoController

end FlashProgrammer.Bench

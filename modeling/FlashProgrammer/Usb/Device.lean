import FlashProgrammer.Usb.Descriptor
import FlashProgrammer.Usb.PerEndpoint
import FlashProgrammer.Usb.Setup
import FlashProgrammer.Usb.WorkQueue
import FlashProgrammer.WaitBudget

/-!
# The USB device

A `Device` is what the firmware remembers between interrupts: how far the host has
brought it, the control transfer in flight, a record for each endpoint and the
work that waits.  A `Link` is the device together with the hardware it drives.

This module holds the lifecycle: attaching, detaching and the bus reset, which
puts every transfer back to its state at power-on.
-/

namespace FlashProgrammer.Usb

/-! ## The device -/

/-- How far the host has brought the device.  Later states are greater. -/
inductive Lifecycle where
  | detached
  /-- On the bus, not yet noticed. -/
  | attached
  | powered
  /-- Reset, waiting for an address. -/
  | waiting
  | addressed
  | configured
deriving DecidableEq, Repr

namespace Lifecycle

/-- The place of a state in the lifecycle. -/
def rank : Lifecycle → Nat
  | detached => 0
  | attached => 1
  | powered => 2
  | waiting => 3
  | addressed => 4
  | configured => 5

instance : LE Lifecycle := ⟨fun a b => a.rank ≤ b.rank⟩

instance : LT Lifecycle := ⟨fun a b => a.rank < b.rank⟩

instance (a b : Lifecycle) : Decidable (a ≤ b) := inferInstanceAs (Decidable (a.rank ≤ b.rank))

instance (a b : Lifecycle) : Decidable (a < b) := inferInstanceAs (Decidable (a.rank < b.rank))

end Lifecycle

/-- How far the control transfer on endpoint 0 has come. -/
inductive ControlStage where
  | idle
  /-- Data goes to the host. -/
  | dataIn
  /-- Data comes from the host. -/
  | dataOut
  /-- All but the closing handshake is done. -/
  | status
deriving DecidableEq, Repr

/-- The record of one endpoint in one direction. -/
structure EndpointStatus where
  /-- The bytes being sent. -/
  payload : Payload := .empty
  /-- Bytes moved so far. -/
  count : Nat := 0
  /-- Bytes the transfer will move. -/
  total : Nat := 0
  /-- The endpoint is armed when the control transfer completes. -/
  needsArming : Bool := false
  /-- The endpoint is halted. -/
  stalled : Bool := false
deriving DecidableEq, Repr

namespace EndpointStatus

/-- Ends the transfer.  Halt and arming stay. -/
def finish (s : EndpointStatus) : EndpointStatus :=
  { s with payload := .empty, count := 0, total := 0 }

end EndpointStatus

/-- What the firmware remembers of its USB side. -/
structure Device where
  lifecycle : Lifecycle := .detached
  /-- The bus is idle, and nothing but a wake-up is served. -/
  suspended : Bool := false
  /-- The bus events that raise an interrupt. -/
  enabled : BusEvents := {}
  /-- The record of each endpoint and direction. -/
  endpoints : PerDirection EndpointStatus := .replicate {}
  /-- What the interrupt handler served last. -/
  current : Option Work := none
  /-- Work for the main loop. -/
  queue : WorkQueue := .empty
  /-- How far the control transfer has come. -/
  stage : ControlStage := .idle
  setup : Option Setup := none
  /-- The address to take when the control transfer completes. -/
  pendingAddress : Option UInt8 := none
  /-- The chosen configuration, or 0. -/
  configuration : UInt8 := 0
  descriptors : Descriptors := {}
  budget : WaitBudget := {}
deriving DecidableEq, Repr

namespace Device

def isConfigured (d : Device) : Bool := d.lifecycle == .configured

/-- The record of an endpoint that exists. -/
def status? (d : Device) (ep : UInt8) (dir : Direction) : Option EndpointStatus :=
  (Endpoint.ofByte? ep).map fun e => d.endpoints.get e dir

/-- Every transfer as at power-on. -/
def resetTransfers (d : Device) : Device :=
  { d with
    endpoints := .replicate {}
    queue := .empty
    current := none
    stage := .idle
    setup := none
    pendingAddress := none
    configuration := 0
    suspended := false }

def abortControl (d : Device) : Device :=
  { d with
    stage := .idle
    setup := none
    pendingAddress := none
    endpoints :=
      (d.endpoints.modify .control .toDevice EndpointStatus.finish).modify .control .toHost
        EndpointStatus.finish }

end Device

/-! ## The device on its hardware -/

/-- A device and the hardware it drives. -/
structure Link (ω : Type) where
  device : Device
  hw : ω

namespace Link

variable {ω : Type} [Controller ω]

/-- Asks the controller for something that has no answer. -/
def tell (a : Action) (p : Link ω) : Link ω :=
  { p with hw := Usb.tell a p.hw }

def ask (a : Action) (p : Link ω) : a.Reply × Link ω :=
  let (reply, hw) := Controller.perform a p.hw
  (reply, { p with hw })

/-- Chooses which bus events raise an interrupt. -/
def listen (events : BusEvents) (p : Link ω) : Link ω :=
  { p with device.enabled := events }.tell (.enableEvents events)

def enter (s : Lifecycle) (p : Link ω) : Link ω :=
  { p with device.lifecycle := s }

/-- Puts every transfer back to its state at power-on. -/
def resetTransfers (p : Link ω) : Link ω :=
  { p with device := p.device.resetTransfers }

/-- Appears on the bus and waits for the host's reset. -/
def attach (p : Link ω) : Link ω :=
  ((p.tell .connect).listen { reset := true, disconnect := true }).enter .attached

def detach (p : Link ω) : Link ω :=
  (((p.tell .disconnect).listen {}).resetTransfers).enter .detached

/-- The cable was pulled. -/
def unplug (p : Link ω) : Link ω :=
  ((p.tell .disconnect).resetTransfers).enter .detached

/-- The host reset the bus: address 0, endpoint 0 ready in both directions, nothing else. -/
def busReset (p : Link ω) : Link ω :=
  (((p.resetTransfers.tell (.setAddress 0)).tell
    (.configure .control .toDevice maxPacket false)).tell
    (.configure .control .toHost maxPacket false)).enter .waiting

def abortControl (p : Link ω) : Link ω :=
  { p with device := p.device.abortControl }

/-- Refuses the control transfer in flight. -/
def stallControl (p : Link ω) : Link ω :=
  (p.tell (.stall .control .toHost)).abortControl

def setStatus (ep : Endpoint) (dir : Direction) (f : EndpointStatus → EndpointStatus)
    (p : Link ω) : Link ω :=
  { p with device.endpoints := p.device.endpoints.modify ep dir f }

/-- Halts an endpoint until the host clears it. -/
def halt (ep : Endpoint) (dir : Direction) (p : Link ω) : Link ω :=
  (p.tell (.stall ep dir)).setStatus ep dir fun s => { s.finish with stalled := true }

/-- Halts an endpoint that exists. -/
def stallEndpoint (ep : UInt8) (dir : Direction) (p : Link ω) : Link ω :=
  match Endpoint.ofByte? ep with
  | none => p
  | some e => p.halt e dir

def clearHalt (ep : Endpoint) (dir : Direction) (p : Link ω) : Link ω :=
  (p.tell (.clearStall ep dir)).setStatus ep dir fun s => { s with stalled := false }

/-- The oldest work that waits. -/
def takeWork (p : Link ω) : Option Work × Link ω :=
  let (work, queue) := p.device.queue.pop
  (work, { p with device.queue := queue })

end Link

end FlashProgrammer.Usb

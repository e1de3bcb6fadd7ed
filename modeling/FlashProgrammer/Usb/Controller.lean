import FlashProgrammer.Fault

/-!
# The USB controller

The firmware drives a device controller through FIFOs.  A received packet waits
in the OUT FIFO of its endpoint until it is released, and bytes written to an IN
FIFO leave as one packet when they are committed.

`ω` is the hardware as a whole, known only through the actions below.  Nothing is
assumed of the answers, so a statement about every `ω` holds of a controller that
is never ready, always busy or lies about its counts.
-/

namespace FlashProgrammer.Usb

/-! ## Endpoints and directions -/

/-- The number of an endpoint.  Endpoint 0 carries control transfers and the others bulk data. -/
abbrev Endpoint := Fin 4

namespace Endpoint

/-- Endpoint 0. -/
def control : Endpoint := ⟨0, by decide⟩

/-- Endpoint 1, which carries the flash protocol. -/
def flash : Endpoint := ⟨1, by decide⟩

/-- The endpoints that carry bulk data. -/
def bulk : List Endpoint := [flash, ⟨2, by decide⟩, ⟨3, by decide⟩]

/-- The endpoint with a number, if the controller has it. -/
def ofByte? (n : UInt8) : Option Endpoint :=
  if h : n.toNat < 4 then some ⟨n.toNat, h⟩ else none

end Endpoint

/-- The number of the endpoint pair that carries the flash protocol. -/
def flashEndpoint : UInt8 := 1

/-- The longest packet, on the control endpoint as on the others. -/
def maxPacket : Nat := 64

/-- Which way a transfer goes, named from the host. -/
inductive Direction where
  /-- OUT: from the host to the device. -/
  | toDevice
  /-- IN: from the device to the host. -/
  | toHost
deriving DecidableEq, Repr

namespace Direction

/-- OUT is 0 and IN is 1. -/
def index : Direction → Nat
  | toDevice => 0
  | toHost => 1

theorem index_lt (dir : Direction) : dir.index < 2 := by
  cases dir <;> decide

end Direction

/-! ## Events -/

/-- What happened on the bus, or which of it raises an interrupt. -/
structure BusEvents where
  disconnect : Bool := false
  reset : Bool := false
  resume : Bool := false
  suspend : Bool := false
  frame : Bool := false
deriving DecidableEq, Repr

/-- A number whose bits are flags, lowest first. -/
def maskOf : List Bool → Nat
  | [] => 0
  | flag :: rest => flag.toNat + 2 * maskOf rest

namespace BusEvents

/-- The events as a bit mask. -/
def mask (e : BusEvents) : Nat := maskOf [e.disconnect, e.reset, e.resume, e.suspend, e.frame]

/-- The events of a bit mask.  Other bits mean nothing. -/
def ofMask (n : Nat) : BusEvents :=
  ⟨n.testBit 0, n.testBit 1, n.testBit 2, n.testBit 3, n.testBit 4⟩

end BusEvents

/-- What the controller latched about endpoint 0. -/
structure ControlEvents where
  /-- The host was answered with a stall. -/
  sentStall : Bool := false
  /-- The host cut the transfer short with a new SETUP. -/
  setupEnd : Bool := false
deriving DecidableEq, Repr

namespace ControlEvents

/-- The conditions as a bit mask. -/
def mask (e : ControlEvents) : Nat := maskOf [e.sentStall, e.setupEnd]

/-- The conditions of a bit mask.  Other bits mean nothing. -/
def ofMask (n : Nat) : ControlEvents := ⟨n.testBit 0, n.testBit 1⟩

end ControlEvents

/-- One reading of the interrupt registers. -/
structure InterruptStatus where
  /-- What happened on the bus. -/
  bus : BusEvents := {}
  /-- Bit `n`: endpoint `n` has received data. -/
  rx : BitVec 16 := 0
  /-- Bit `n`: endpoint `n` has sent its data. -/
  tx : BitVec 16 := 0
deriving DecidableEq, Repr

namespace InterruptStatus

/-- An endpoint and direction have something to do. -/
def has (s : InterruptStatus) (ep : Nat) : Direction → Bool
  | .toDevice => s.rx.getLsbD ep
  | .toHost => s.tx.getLsbD ep

/-- An endpoint has something to do in either direction. -/
def pending (s : InterruptStatus) (ep : Nat) : Bool :=
  s.has ep .toDevice || s.has ep .toHost

end InterruptStatus

/-! ## Actions -/

/-- The width of one FIFO access. -/
inductive Width where
  | word
  | half
  | byte
deriving DecidableEq, Repr

namespace Width

@[reducible] def bytes : Width → Nat
  | word => 4
  | half => 2
  | byte => 1

@[reducible] def bits : Width → Nat
  | word => 32
  | half => 16
  | byte => 8

end Width

/-- What the firmware asks of the controller. -/
inductive Action where
  /-- Read and acknowledge the interrupt sources. -/
  | interrupts
  /-- Read and acknowledge the conditions of endpoint 0. -/
  | controlEvents
  /-- Choose which bus events raise an interrupt. -/
  | enableEvents (events : BusEvents)
  | connect
  | disconnect
  /-- Answer to an address. -/
  | setAddress (address : UInt8)
  /-- Set an endpoint up and arm it. -/
  | configure (ep : Endpoint) (dir : Direction) (maxPacket : Nat) (doubleBuffered : Bool)
  /-- Whether a received packet waits. -/
  | rxReady (ep : Endpoint)
  /-- How many bytes of the waiting packet are left. -/
  | rxCount (ep : Endpoint)
  /-- Take bytes of the waiting packet, low byte first. -/
  | fifoRead (ep : Endpoint) (width : Width)
  /-- Release the waiting packet.  On endpoint 0, whether it ends the stage. -/
  | rxDone (ep : Endpoint) (dataEnd : Bool)
  /-- Whether a committed packet has not been collected yet. -/
  | txBusy (ep : Endpoint)
  /-- Add bytes to the packet being built, low byte first. -/
  | fifoWrite (ep : Endpoint) (width : Width) (value : BitVec width.bits)
  /-- Commit the packet being built.  On endpoint 0, whether it ends the data stage. -/
  | txReady (ep : Endpoint) (last : Bool)
  | stall (ep : Endpoint) (dir : Direction)
  /-- Clear a halt, reset the data toggle and flush the FIFO. -/
  | clearStall (ep : Endpoint) (dir : Direction)
deriving Repr

/-- What the controller answers. -/
@[reducible] def Action.Reply : Action → Type
  | .interrupts => InterruptStatus
  | .controlEvents => ControlEvents
  | .rxReady _ => Bool
  | .rxCount _ => UInt16
  | .fifoRead _ width => BitVec width.bits
  | .txBusy _ => Bool
  | .enableEvents _ => Unit
  | .connect => Unit
  | .disconnect => Unit
  | .setAddress _ => Unit
  | .configure .. => Unit
  | .rxDone .. => Unit
  | .fifoWrite .. => Unit
  | .txReady .. => Unit
  | .stall .. => Unit
  | .clearStall .. => Unit

/-- Hardware with a USB device controller. -/
class Controller (ω : Type) where
  /-- The answer to an action and the hardware after it. -/
  perform : (a : Action) → ω → a.Reply × ω

/-- The hardware after an action whose answer does not matter. -/
def tell {ω : Type} [Controller ω] (a : Action) (w : ω) : ω :=
  (Controller.perform a w).2

end FlashProgrammer.Usb

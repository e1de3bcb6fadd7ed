import FlashProgrammer.Bench.ScriptedController
import FlashProgrammer.Hardware
import FlashProgrammer.Programmer.Poll
import FlashProgrammer.Usb.Interrupt

/-!
# The host's side of the bench

What a host does to a device on the bench: it resets the bus, sends SETUP packets,
collects replies and sends requests.
-/

namespace FlashProgrammer.Bench

open Usb

/-- Hardware whose USB side the bench can work from the outside. -/
class Driven (ω : Type) where
  /-- Sets the interrupt sources. -/
  raise : InterruptStatus → ω → ω
  /-- Sets the conditions of endpoint 0. -/
  latch : ControlEvents → ω → ω
  /-- Sends a packet to an endpoint. -/
  deliver : Endpoint → List UInt8 → ω → ω

instance : Driven FifoController where
  raise s c := { c with pending := s }
  latch e c := { c with controlEvents := e }
  deliver ep packet c := c.queue ep packet

instance : Driven ScriptedController where
  raise s c := { c with fifo := Driven.raise s c.fifo }
  latch e c := { c with fifo := Driven.latch e c.fifo }
  deliver ep packet c := c.queue ep packet {}

instance {κ β ρ : Type} [Driven κ] : Driven (Hardware κ β ρ) where
  raise s w := { w with usb := Driven.raise s w.usb }
  latch e w := { w with usb := Driven.latch e w.usb }
  deliver ep packet w := { w with usb := Driven.deliver ep packet w.usb }

variable {ω : Type} [Controller ω] [Driven ω]

/-- One interrupt. -/
def fire (s : InterruptStatus) (p : Link ω) : Link ω :=
  { p with hw := Driven.raise s p.hw }.onInterrupt

def latch (e : ControlEvents) (p : Link ω) : Link ω :=
  { p with hw := Driven.latch e p.hw }

def deliver (ep : Endpoint) (packet : List UInt8) (p : Link ω) : Link ω :=
  { p with hw := Driven.deliver ep packet p.hw }

/-- Plugs the device in and resets the bus. -/
def plugIn (p : Link ω) : Link ω :=
  fire { bus := { reset := true } } (fire {} p.attach)

def sendControl (packet : List UInt8) (p : Link ω) : Link ω :=
  fire { rx := 1 } (deliver .control packet p)

/-- Collects a packet of endpoint 0, or its closing handshake. -/
def collectControl (p : Link ω) : Link ω :=
  fire { tx := 1 } p

/-- The SETUP packet that gives the device an address. -/
def addressSetup (address : UInt8) : Setup :=
  { requestType := 0
    request := 0x05
    value := UInt16.ofNat address.toNat
    index := 0
    length := 0 }

/-- The SETUP packet that chooses a configuration. -/
def configurationSetup (value : UInt8) : Setup :=
  { requestType := 0
    request := 0x09
    value := UInt16.ofNat value.toNat
    index := 0
    length := 0 }

/-- Brings a device from power-on to its configuration, with address 5. -/
def enumerate (p : Link ω) : Link ω :=
  let p := collectControl (sendControl (addressSetup 5).toBytes (plugIn p))
  collectControl (sendControl (configurationSetup 1).toBytes p)

/-- Sends packets to the flash endpoint and lets the main loop run once. -/
def exchange [Spi.Bus ω] [ResetLine ω] (packets : List (List UInt8))
    (s : Programmer.Station ω) : Programmer.Station ω :=
  let queued := packets.foldl (fun p packet => deliver .flash packet p) s.2
  Programmer.poll (s.1, fire { rx := 2 } queued)

end FlashProgrammer.Bench

import FlashProgrammer.Usb.ControlTransfer

/-!
# The interrupt handler

One reading of the interrupt registers is served in a fixed order: a pulled cable,
power, wake-up and sleep, a bus reset, and then the endpoints.  While the bus
sleeps only a wake-up or a pulled cable is served.  Endpoint 0 is served at once;
the other endpoints are queued for the main loop.
-/

namespace FlashProgrammer.Usb.Link

variable {ω : Type} [Controller ω]

/-- The first interrupt after attaching shows that the bus has power. -/
def powerUp (p : Link ω) : Link ω :=
  if p.device.lifecycle = .attached then
    (p.listen { p.device.enabled with suspend := true }).enter .powered
  else p

/-- The host woke the bus. -/
def wake (p : Link ω) : Link ω :=
  { p with device.suspended := false }.listen
    { p.device.enabled with resume := false, suspend := true }

/-- The bus went idle. -/
def sleep (p : Link ω) : Link ω :=
  { p with device.suspended := true }.listen
    { p.device.enabled with suspend := false, resume := true }

/-- Records work for the main loop. -/
def note (p : Link ω) (work : Work) : Link ω :=
  { p with
    device.current := some work
    device.queue := (p.device.queue.push work).2 }

/-- The bulk work that an interrupt reports, in order. -/
def bulkWork (s : InterruptStatus) : List Work :=
  (bulkEndpoints.filter fun e => s.has e.1.val e.2).map fun e => ⟨UInt8.ofNat e.1.val, e.2⟩

/-- Serves endpoint 0 if it has something to do. -/
def serviceEndpointZero (s : InterruptStatus) (p : Link ω) : Link ω :=
  if s.pending 0 then { p with device.current := some ⟨0, .toDevice⟩ }.serviceControl else p

/-- Serves endpoint 0 and queues the rest, once the bus has been reset. -/
def serviceEndpoints (s : InterruptStatus) (p : Link ω) : Link ω :=
  if p.device.lifecycle < .waiting then p
  else (bulkWork s).foldl note (p.serviceEndpointZero s)

/-- Serves a bus that is awake. -/
def serviceBus (s : InterruptStatus) (p : Link ω) : Link ω :=
  if s.bus.reset then p.busReset
  else if s.bus.suspend then p.sleep.serviceEndpoints s
  else p.serviceEndpoints s

def onInterrupt (p : Link ω) : Link ω :=
  let (s, p) := p.ask .interrupts
  if s.bus.disconnect then p.unplug
  else
    let p := p.powerUp
    if s.bus.resume then p.wake.serviceBus s
    else if p.device.suspended then p
    else p.serviceBus s

end FlashProgrammer.Usb.Link

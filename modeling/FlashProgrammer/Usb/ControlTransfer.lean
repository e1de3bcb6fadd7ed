import FlashProgrammer.Usb.Device
import FlashProgrammer.Usb.Fifo

/-!
# Control transfers

A control transfer on endpoint 0 is a SETUP packet, a data stage in one direction
and a closing handshake.  The standard requests are answered here and every other
request is refused.

A request takes effect when its SETUP packet is handled, with two exceptions that
wait for the closing handshake: the address, because the handshake itself still
goes out under the old one, and the arming of the endpoints of a configuration.
-/

namespace FlashProgrammer.Usb

/-- What becomes of a request. -/
inductive ControlReply where
  /-- Data goes to the host. -/
  | data (payload : Payload)
  /-- Accepted, with no data. -/
  | noData
  /-- Data is taken from the host. -/
  | receive
  | stall
deriving DecidableEq, Repr

namespace Link

variable {ω : Type} [Controller ω]

/-! ## Data stages -/

/-- Sends the next packet of the data stage.  A short packet ends the stage, and so does the last
byte the host asked for. -/
def continueIn (p : Link ω) : Link ω :=
  let (busy, p) := p.ask (.txBusy .control)
  if busy then p
  else
    let requested := p.device.setup.elim 0 fun s => s.length.toNat
    let status := p.device.endpoints.get .control .toHost
    let packet := status.payload.slice status.count (min (status.total - status.count) maxPacket)
    let count := status.count + packet.length
    let last := packet.length < maxPacket || count == requested
    let p := { p with hw := writeFifo .control packet p.hw }.tell (.txReady .control last)
    if last then { p.setStatus .control .toHost EndpointStatus.finish with device.stage := .status }
    else p.setStatus .control .toHost fun s => { s with count }

/-- The host has sent all its data.  Descriptors cannot be changed, so new ones are refused. -/
def dataOutComplete (p : Link ω) : Link ω :=
  let p := p.setStatus .control .toDevice fun s => { s with count := 0 }
  match p.device.setup.bind fun s => StandardRequest.ofByte? s.request with
  | some .setDescriptor => p.stallControl
  | _ => { p with device.stage := .status }

/-- Drops the next packet of data from the host.  A short packet ends the stage, and so does the
last byte that was announced. -/
def continueOut (p : Link ω) : Link ω :=
  let (ready, p) := p.ask (.rxReady .control)
  if ready then
    let (available, p) := p.ask (.rxCount .control)
    let n := min available.toNat maxPacket
    let p := { p with hw := (readFifo .control n p.hw).2 }
    let p := p.setStatus .control .toDevice fun s => { s with count := min (s.count + n) 65535 }
    let status := p.device.endpoints.get .control .toDevice
    let done := status.total ≤ status.count || n < maxPacket
    let p := p.tell (.rxDone .control done)
    if done then p.dataOutComplete else p
  else p

/-! ## Requests -/

/-- Chooses a configuration, or none.  Its endpoints are armed when the transfer completes. -/
def setConfiguration (value : UInt16) (p : Link ω) : ControlReply × Link ω :=
  if value = 0 then (.noData, { p with device.configuration := 0 })
  else if value.toNat = p.device.descriptors.configurationValue.toNat then
    let arm := fun s : EndpointStatus => { s with needsArming := true, stalled := false }
    let p := { p with device.configuration := UInt8.ofNat value.toNat }
    (.noData, (p.setStatus .flash .toDevice arm).setStatus .flash .toHost arm)
  else (.stall, p)

/-- Answers a standard request. -/
def standardRequest (s : Setup) (p : Link ω) : ControlReply × Link ω :=
  match StandardRequest.ofByte? s.request, s.recipient with
  | some .getStatus, .device => (.data (.reply [0, 0]), p)
  | some .getStatus, .interface => (.data (.reply [0, 0]), p)
  | some .getStatus, .endpoint =>
    match s.endpoint? with
    | some (ep, dir) =>
      (.data (.reply [if (p.device.endpoints.get ep dir).stalled then 1 else 0, 0]), p)
    | none => (.stall, p)
  | some .clearFeature, .endpoint =>
    if s.value = endpointHalt then
      match s.endpoint? with
      | some (ep, dir) => (.noData, p.clearHalt ep dir)
      | none => (.stall, p)
    else (.stall, p)
  | some .setFeature, .endpoint =>
    if s.value = endpointHalt then
      match s.endpoint? with
      | some (ep, dir) =>
        if ep = .control then (.stall, p) else (.noData, p.halt ep dir)
      | none => (.stall, p)
    else (.stall, p)
  | some .setAddress, .device =>
    if s.value < 0x80 then (.noData, { p with device.pendingAddress := some s.valueLow })
    else (.stall, p)
  | some .getDescriptor, _ =>
    match p.device.descriptors.find? s.valueHigh s.valueLow with
    | some payload => (.data payload, p)
    | none => (.stall, p)
  | some .setDescriptor, _ => (.receive, p)
  | some .getConfiguration, .device => (.data (.reply [p.device.configuration]), p)
  | some .setConfiguration, .device =>
    if Lifecycle.addressed ≤ p.device.lifecycle then p.setConfiguration s.value else (.stall, p)
  | some .getInterface, .interface =>
    if p.device.isConfigured && s.index == 0 then (.data (.reply [0]), p) else (.stall, p)
  | some .setInterface, .interface =>
    if p.device.isConfigured && s.index == 0 && s.value == 0 then (.noData, p) else (.stall, p)
  | _, _ => (.stall, p)

/-- Acts on a reply: releases the SETUP packet and enters the stage that follows. -/
def carryOut (s : Setup) (reply : ControlReply) (p : Link ω) : Link ω :=
  match reply with
  | .noData => { p.tell (.rxDone .control true) with device.stage := .status }
  | .stall => (p.tell (.rxDone .control true)).stallControl
  | .data payload =>
    if s.length = 0 then { p.tell (.rxDone .control true) with device.stage := .status }
    else
      let total := min (payload.length % 65536) s.length.toNat
      let p := (p.tell (.rxDone .control false)).setStatus .control .toHost fun e =>
        { e with payload, count := 0, total }
      { p with device.stage := .dataIn }.continueIn
  | .receive =>
    if s.length = 0 then (p.tell (.rxDone .control true)).dataOutComplete
    else
      let p := (p.tell (.rxDone .control false)).setStatus .control .toDevice fun e =>
        { e with count := 0, total := s.length.toNat }
      { p with device.stage := .dataOut }

def handleSetup (s : Setup) (p : Link ω) : Link ω :=
  let p := { p with device.setup := some s }
  match s.kind with
  | .standard =>
    let (reply, p) := p.standardRequest s
    p.carryOut s reply
  | _ => p.carryOut s .stall

/-- Takes the packet that waits outside a transfer.  Only eight bytes are a SETUP packet. -/
def receiveSetup (p : Link ω) : Link ω :=
  let (available, p) := p.ask (.rxCount .control)
  if available.toNat = Setup.size then
    let (bs, hw) := readFifo .control Setup.size p.hw
    { p with hw }.handleSetup (Setup.ofBytes bs)
  else (p.tell (.rxDone .control true)).stallControl

/-! ## The closing handshake -/

/-- Every direction of the endpoints that carry bulk data, in the order they are served. -/
def bulkEndpoints : List (Endpoint × Direction) :=
  Endpoint.bulk.flatMap fun ep => [(ep, .toDevice), (ep, .toHost)]

/-- Arms an endpoint that waits for it. -/
def armEndpoint (p : Link ω) (e : Endpoint × Direction) : Link ω :=
  if (p.device.endpoints.get e.1 e.2).needsArming then
    (p.setStatus e.1 e.2 fun s => { s with needsArming := false }).tell
      (.configure e.1 e.2 maxPacket true)
  else p

/-- What arming one endpoint leaves as it is, arming several does. -/
theorem armEndpoints_same {α : Type} {f : Link ω → α} (h : ∀ e q, f (armEndpoint q e) = f q)
    (es : List (Endpoint × Direction)) (p : Link ω) : f (es.foldl armEndpoint p) = f p := by
  induction es generalizing p with
  | nil => rfl
  | cons e es ih => exact (ih (armEndpoint p e)).trans (h e p)

/-- Takes the address that was waiting for the handshake. -/
def takeAddress (p : Link ω) : Link ω :=
  match p.device.pendingAddress with
  | none => p
  | some address =>
    { p with device.pendingAddress := none }.tell (.setAddress address) |>.enter
      (if address = 0 then .waiting else .addressed)

/-- With an address, the configuration decides whether the device is configured. -/
def settleConfiguration (p : Link ω) : Link ω :=
  if Lifecycle.addressed ≤ p.device.lifecycle then
    p.enter (if p.device.configuration = 0 then .addressed else .configured)
  else p

/-- The control transfer has completed. -/
def completeStatus (p : Link ω) : Link ω :=
  let p := bulkEndpoints.foldl armEndpoint p.takeAddress.settleConfiguration
  { p with device.stage := .idle, device.setup := none }

/-- Serves endpoint 0. -/
def serviceControl (p : Link ω) : Link ω :=
  let (events, p) := p.ask .controlEvents
  let p := if events.sentStall || events.setupEnd then p.abortControl else p
  let p := if p.device.stage = .status then p.completeStatus else p
  match p.device.stage with
  | .dataIn => p.continueIn
  | .dataOut => p.continueOut
  | .status => p
  | .idle =>
    let (ready, p) := p.ask (.rxReady .control)
    if ready then p.receiveSetup else p

end Link

end FlashProgrammer.Usb

import FlashProgrammer.Usb.Device
import FlashProgrammer.Usb.Fifo

/-!
# Bulk transfers

The main loop moves bulk data packet by packet.  It may do so only on an endpoint
that exists, is not endpoint 0 and is not halted, and only while the device is
configured.  Every wait ends after the spins of the wait budget.
-/

namespace FlashProgrammer.Usb

/-- Cuts a list into pieces of `size` elements, the last one possibly shorter.  As many pieces as
`fuel` allows are cut. -/
def cut {α : Type} (size : Nat) : (fuel : Nat) → List α → List (List α)
  | 0, _ => []
  | fuel + 1, xs => if xs.isEmpty then [] else xs.take size :: cut size fuel (xs.drop size)

/-- The packets that carry some bytes.  No bytes take no packet. -/
def packets (data : List UInt8) : List (List UInt8) :=
  cut maxPacket data.length data

namespace Link

variable {ω : Type} [Controller ω]

/-- The endpoint, if bulk data may move on it. -/
def bulkEndpoint (ep : UInt8) (dir : Direction) (p : Link ω) : Except Fault Endpoint :=
  if p.device.isConfigured then
    match Endpoint.ofByte? ep with
    | none => .error .notConfigured
    | some e =>
      if (p.device.endpoints.get e dir).stalled then .error (.stalled ep)
      else if e = .control then .error .notConfigured
      else .ok e
  else .error .notConfigured

/-- Whether a packet waits on an endpoint that is not halted. -/
def rxPending (ep : UInt8) (p : Link ω) : Bool × Link ω :=
  match Endpoint.ofByte? ep with
  | none => (false, p)
  | some e =>
    if p.device.isConfigured && !(p.device.endpoints.get e .toDevice).stalled then
      p.ask (.rxReady e)
    else (false, p)

/-! ## Receiving -/

/-- Waits until a packet has arrived.  False if the spins run out. -/
def awaitPacket (ep : Endpoint) : (spins : Nat) → Link ω → Bool × Link ω
  | 0, p => p.ask (.rxReady ep)
  | spins + 1, p =>
    match p.ask (.rxReady ep) with
    | (true, p) => (true, p)
    | (false, p) => awaitPacket ep spins p

/-- Takes up to `room` bytes of the waiting packet and drops up to `maxPacket` more. -/
def takePacket (ep : Endpoint) (room : Nat) (p : Link ω) : List UInt8 × Link ω :=
  let (available, p) := p.ask (.rxCount ep)
  let n := min available.toNat room
  let (bs, hw) := readFifo ep n p.hw
  let (_, hw) := readFifo ep (min (available.toNat - n) maxPacket) hw
  (bs, { p with hw }.tell (.rxDone ep false))

/-- Receives one packet, as far as there is room for it. -/
def readPacket (ep : UInt8) (room : Nat) (p : Link ω) : Except Fault (List UInt8) × Link ω :=
  match p.bulkEndpoint ep .toDevice with
  | .error e => (.error e, p)
  | .ok e =>
    match awaitPacket e p.device.budget.usbSpins p with
    | (false, p) => (.error (.usbTimeout ep), p)
    | (true, p) =>
      let (bs, p) := p.takePacket e room
      (.ok bs, p)

/-- What was received, and whether it is all that was asked for. -/
structure Received where
  bytes : List UInt8
  /-- Why no more came. -/
  outcome : Except Fault Unit

/-- Receives packets until `need` bytes have come, a packet is empty or a packet fails.  Every
packet but the last brings a byte, so `fuel` packets are enough for `fuel` bytes. -/
def gather (ep : UInt8) : (fuel need : Nat) → Link ω → Received × Link ω
  | 0, _, p => (⟨[], .ok ()⟩, p)
  | fuel + 1, need, p =>
    if need = 0 then (⟨[], .ok ()⟩, p)
    else
      match p.readPacket ep need with
      | (.error e, p) => (⟨[], .error e⟩, p)
      | (.ok bs, p) =>
        if bs.isEmpty then (⟨[], .error (.usbTimeout ep)⟩, p)
        else
          let (rest, p) := gather ep fuel (need - bs.length) p
          (⟨bs ++ rest.bytes, rest.outcome⟩, p)

/-- Fills a buffer from consecutive packets.  On a fault the bytes that came are in the front of
the buffer and the rest is as before. -/
def fill (ep : UInt8) (buffer : List UInt8) (p : Link ω) :
    Except Fault Unit × List UInt8 × Link ω :=
  let (received, p) := gather ep buffer.length buffer.length p
  (received.outcome, received.bytes ++ buffer.drop received.bytes.length, p)

/-! ## Sending -/

/-- Waits until the last packet has been collected.  False if the spins run out. -/
def awaitCollected (ep : Endpoint) : (spins : Nat) → Link ω → Bool × Link ω
  | 0, p =>
    let (busy, p) := p.ask (.txBusy ep)
    (!busy, p)
  | spins + 1, p =>
    match p.ask (.txBusy ep) with
    | (false, p) => (true, p)
    | (true, p) => awaitCollected ep spins p

/-- Sends packets one after the other. -/
def sendPackets (ep : UInt8) (e : Endpoint) :
    List (List UInt8) → Link ω → Except Fault Unit × Link ω
  | [], p => (.ok (), p)
  | packet :: rest, p =>
    match awaitCollected e p.device.budget.usbSpins p with
    | (false, p) => (.error (.usbTimeout ep), p)
    | (true, p) =>
      sendPackets ep e rest ({ p with hw := writeFifo e packet p.hw }.tell (.txReady e false))

/-- Sends bytes in packets. -/
def write (ep : UInt8) (data : List UInt8) (p : Link ω) : Except Fault Unit × Link ω :=
  match p.bulkEndpoint ep .toHost with
  | .error e => (.error e, p)
  | .ok e => sendPackets ep e (packets data) p

end Link

end FlashProgrammer.Usb

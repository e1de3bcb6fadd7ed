import FlashProgrammer.Rp2040.Memory
import FlashProgrammer.Usb.Fifo

/-!
# The RP2040's USB controller behind FIFOs

The controller moves packets through buffers in shared memory.  Each endpoint and
direction has one buffer of 64 bytes and a cursor, and FIFO accesses walk the
cursor.  A buffer belongs to the controller while it is available.

The alternation of packets is kept here, one bit for each endpoint and direction.
The power signal is forced on, so a pulled cable shows as sleep and a bus reset and
never as a disconnection.
-/

namespace FlashProgrammer.Rp2040

open Usb

/-- The controller and what the processor remembers of it. -/
structure Adapter where
  /-- A SETUP packet waits. -/
  setupPending : Bool := false
  /-- A SETUP packet came alone and cut a transfer short. -/
  setupEnd : Bool := false
  /-- Bytes taken of the waiting packet of each endpoint. -/
  cursor : PerEndpoint Nat := .replicate 0
  /-- Bytes of the packet being built on each endpoint. -/
  staged : PerEndpoint Nat := .replicate 0
  /-- The next packet is the second of the two that alternate. -/
  toggle : PerDirection Bool := .replicate false
  /-- The longest packet of each endpoint and direction. -/
  maxPacket : PerDirection Nat := .replicate Memory.bufferLength
  memory : Memory
deriving DecidableEq

namespace Adapter

/-! ## Starting -/

/-- Clears the control words of an endpoint. -/
def clearEndpoint (m : Memory) (ep : Nat) : Memory :=
  let m :=
    if ep = 0 then m
    else
      (m.setWord (Memory.endpointControlOffset ep .toHost) 0).setWord
        (Memory.endpointControlOffset ep .toDevice) 0
  (m.setWord (Memory.bufferControlOffset ep .toHost) 0).setWord
    (Memory.bufferControlOffset ep .toDevice) 0

/-- Takes the controller over and clears the control words of all its sixteen endpoints. -/
def ofMemory (m : Memory) : Adapter where
  memory := (List.range 16).foldl clearEndpoint m

/-! ## Buffers -/

def setCursor (a : Adapter) (ep : Endpoint) (n : Nat) : Adapter :=
  { a with cursor := a.cursor.set ep n }

/-- Sets the length of the packet being built. -/
def setStaged (a : Adapter) (ep : Endpoint) (n : Nat) : Adapter :=
  { a with staged := a.staged.set ep n }

/-- Changes the word that hands a buffer over. -/
def modifyControl (a : Adapter) (ep : Endpoint) (dir : Direction) (f : Word → Word) : Adapter :=
  { a with memory := a.memory.setBufferControl ep dir (f (a.memory.bufferControl ep dir)) }

def write (a : Adapter) (r : Register) (w : Word) : Adapter :=
  { a with memory := a.memory.set r w }

/-- The word that hands over a buffer of `length` bytes.  A buffer for the host is full. -/
def armedWord (dir : Direction) (toggle : Bool) (length : Nat) : Word :=
  setBit
    (setBit (BufferControl.setLength (setBit 0 BufferControl.toggleBit toggle) length)
      BufferControl.fullBit (dir == .toHost))
    BufferControl.availableBit true

/-- Hands a buffer to the controller.  The next one alternates with it. -/
def arm (a : Adapter) (ep : Endpoint) (dir : Direction) (length : Nat) : Adapter :=
  let toggle := a.toggle.get ep dir
  { a with toggle := a.toggle.set ep dir !toggle }.modifyControl ep dir fun _ =>
    armedWord dir toggle length

/-- Hands a buffer to the controller to be filled by the host. -/
def armOut (a : Adapter) (ep : Endpoint) : Adapter :=
  (a.setCursor ep 0).arm ep .toDevice (a.maxPacket.get ep .toDevice)

/-- Where the waiting packet of an endpoint is. -/
def packetOffset (a : Adapter) (ep : Endpoint) : Nat :=
  if ep = .control ∧ a.setupPending then Memory.setupOffset else Memory.bufferOffset ep .toDevice

/-- Takes one byte of the waiting packet. -/
def pull (a : Adapter) (ep : Endpoint) : UInt8 × Adapter :=
  (a.memory.byte (a.packetOffset ep + a.cursor.get ep), a.setCursor ep (a.cursor.get ep + 1))

/-- Takes bytes of the waiting packet. -/
def pullBytes (ep : Endpoint) : (n : Nat) → Adapter → List UInt8 × Adapter
  | 0, a => ([], a)
  | n + 1, a =>
    let (b, a) := a.pull ep
    let (bs, a) := pullBytes ep n a
    (b :: bs, a)

/-- Adds bytes to the packet being built.  What does not fit in the buffer is dropped. -/
def pushBytes (ep : Endpoint) : List UInt8 → Adapter → Adapter
  | [], a => a
  | b :: bs, a =>
    let n := a.staged.get ep
    if Memory.bufferLength ≤ n then a
    else
      pushBytes ep bs
        ({ a with memory := a.memory.setByte (Memory.bufferOffset ep .toHost + n) b }.setStaged ep
          (n + 1))

/-! ## Interrupts -/

/-- The bit of the buffer status register for an endpoint and direction. -/
def bufferStatusBit (ep : Nat) : Direction → Nat
  | .toHost => 2 * ep
  | .toDevice => 2 * ep + 1

/-- The endpoints whose buffer in one direction was completed. -/
def completed (status : Word) (dir : Direction) : BitVec 16 :=
  (List.range 4).foldl
    (fun bits ep =>
      if bit status (bufferStatusBit ep dir) then bits ||| BitVec.twoPow 16 ep else bits)
    0

/-- Acknowledges a bus event: one bit of the status of the serial engine. -/
def acknowledge (pending : Bool) (statusBit : Nat) (a : Adapter) : Adapter :=
  if pending then a.write .sieStatus (ofBits [statusBit]) else a

/-- A SETUP packet has arrived.  It cuts a transfer short unless the same interrupt completes a
buffer of endpoint 0, and the packets after it start with the second of the two that alternate. -/
def acceptSetup (a : Adapter) (s : InterruptStatus) : Adapter :=
  let a := a.write .sieStatus (ofBits [17])
  let a := (a.setCursor .control 0).setStaged .control 0
  { a with
    setupEnd := !s.pending 0
    setupPending := true
    toggle := (a.toggle.set .control .toDevice true).set .control .toHost true }

/-- Reads and acknowledges the interrupts. -/
def interrupts (a : Adapter) : InterruptStatus × Adapter :=
  let ints := a.memory.get .interruptStatus
  let bus : BusEvents :=
    { reset := bit ints 12, suspend := bit ints 14, resume := bit ints 15 }
  let a := acknowledge (bit ints 15) 11
    (acknowledge (bit ints 14) 4 (acknowledge (bit ints 12) 19 a))
  let done := if bit ints 4 then a.memory.get .bufferStatus else 0
  let s : InterruptStatus :=
    { bus, rx := completed done .toDevice, tx := completed done .toHost }
  if bit ints 16 then ({ s with rx := s.rx ||| 1 }, a.acceptSetup s) else (s, a)

/-- Chooses the interrupts.  Completed buffers and SETUP packets always raise one. -/
def enableEvents (a : Adapter) (events : BusEvents) : Adapter :=
  a.write .interruptEnable
    (setBit (setBit (setBit (ofBits [4, 16]) 12 events.reset) 14 events.suspend) 15 events.resume)

/-! ## The bus -/

/-- Switches the controller on and pulls the line up. -/
def connect (a : Adapter) : Adapter :=
  (((a.write .muxing (ofBits [0, 3])).write .power (ofBits [2, 3])).write .mainControl
    (ofBits [0])).write .sieControl (ofBits [29, 16])

/-- Lets the line go. -/
def disconnect (a : Adapter) : Adapter :=
  a.write .sieControl (setBit (a.memory.get .sieControl) 16 false)

def setAddress (a : Adapter) (address : UInt8) : Adapter :=
  a.write .addressEndpoint (BitVec.ofNat 32 (address.toNat % 128))

/-! ## Endpoints -/

/-- The control word of an endpoint in use: a bulk endpoint with an interrupt for every buffer. -/
def endpointWord (ep : Endpoint) (dir : Direction) : Word :=
  ofBits [31, 29, 27] ||| BitVec.ofNat 32 (Memory.bufferOffset ep dir)

/-- Sets an endpoint up.  Data from the host can come at once. -/
def configure (a : Adapter) (ep : Endpoint) (dir : Direction) (maxPacket : Nat) : Adapter :=
  let a :=
    { a with
      maxPacket := a.maxPacket.set ep dir (min maxPacket Memory.bufferLength)
      toggle := a.toggle.set ep dir false }
  if ep = .control then a
  else
    let a :=
      { a with
        memory := a.memory.setWord (Memory.endpointControlOffset ep.val dir) (endpointWord ep dir) }
    match dir with
    | .toDevice => a.armOut ep
    | .toHost => a

/-- A packet waits: the buffer is full and the controller has given it back.  An empty packet on
endpoint 0 is a closing handshake and no data. -/
def rxReady (a : Adapter) (ep : Endpoint) : Bool :=
  let w := a.memory.bufferControl ep .toDevice
  (ep == .control && a.setupPending) ||
    (bit w BufferControl.fullBit && !bit w BufferControl.availableBit &&
      (ep != .control || 0 < BufferControl.length w))

def rxCount (a : Adapter) (ep : Endpoint) : Nat :=
  let length :=
    if ep = .control ∧ a.setupPending then 8
    else BufferControl.length (a.memory.bufferControl ep .toDevice)
  length - a.cursor.get ep

/-- Releases the waiting packet.  On endpoint 0 the end of the data is followed by an empty packet
to the host, and anything else by a packet from it. -/
def rxDone (a : Adapter) (ep : Endpoint) (dataEnd : Bool) : Adapter :=
  let a := a.setCursor ep 0
  if ep = .control then
    let a := { a with setupPending := false }
    if dataEnd then (a.setStaged .control 0).arm .control .toHost 0 else a.armOut .control
  else a.armOut ep

/-- Hands the packet being built to the controller. -/
def txReady (a : Adapter) (ep : Endpoint) : Adapter :=
  (a.setStaged ep 0).arm ep .toHost (a.staged.get ep)

/-- Halts an endpoint.  Endpoint 0 is halted in both directions, since the host may come back on
either. -/
def stall (a : Adapter) (ep : Endpoint) (dir : Direction) : Adapter :=
  let halt := fun w => setBit w BufferControl.stallBit true
  if ep = .control then
    ((a.write .stallArm (ofBits [0, 1])).modifyControl .control .toHost halt).modifyControl .control
      .toDevice halt
  else a.modifyControl ep dir halt

/-- Clears the halt of an endpoint and starts its alternation again. -/
def clearStall (a : Adapter) (ep : Endpoint) (dir : Direction) : Adapter :=
  let a := a.modifyControl ep dir fun w => setBit w BufferControl.stallBit false
  let a := { a with toggle := a.toggle.set ep dir false }
  match dir with
  | .toDevice => if ep = .control then a else a.armOut ep
  | .toHost => a.setStaged ep 0

instance : Controller Adapter where
  perform
    | .interrupts, a => a.interrupts
    | .controlEvents, a => ({ setupEnd := a.setupEnd }, { a with setupEnd := false })
    | .enableEvents events, a => ((), a.enableEvents events)
    | .connect, a => ((), a.connect)
    | .disconnect, a => ((), a.disconnect)
    | .setAddress address, a => ((), a.setAddress address)
    | .configure ep dir maxPacket _, a => ((), a.configure ep dir maxPacket)
    | .rxReady ep, a => (a.rxReady ep, a)
    | .rxCount ep, a => (UInt16.ofNat (a.rxCount ep), a)
    | .fifoRead ep width, a =>
      let (bs, a) := pullBytes ep width.bytes a
      (valueOfBytes width bs, a)
    | .rxDone ep dataEnd, a => ((), a.rxDone ep dataEnd)
    | .txBusy ep, a => (bit (a.memory.bufferControl ep .toHost) BufferControl.availableBit, a)
    | .fifoWrite ep width value, a => ((), pushBytes ep (bytesOfValue width value) a)
    | .txReady ep _, a => ((), a.txReady ep)
    | .stall ep dir, a => ((), a.stall ep dir)
    | .clearStall ep dir, a => ((), a.clearStall ep dir)

end Adapter

end FlashProgrammer.Rp2040

import FlashProgrammer.Bench.FlashBus
import FlashProgrammer.Bench.Host
import FlashProgrammer.Bench.Tokens
import FlashProgrammer.Rp2040.Pins
import FlashProgrammer.Spi.Wiring

/-!
# The board on the bench

The board with its USB controller as memory, flash chips behind chip-select pins
and a host that sends tokens.  The host may also act while the firmware waits for
the flash endpoint: it then offers the packets of a list one by one and collects
whatever is there.
-/

namespace FlashProgrammer.Bench

open Usb Rp2040 Spi

/-- Something that happened on the board. -/
inductive BoardEvent where
  /-- A pin or block was set up. -/
  | prepared (peripheral : Peripheral)
  | driven (pin : Nat) (level : Level)
  | flushed
  | transaction (slot : Slot) (sent : List UInt8)
  /-- The host collected a packet while the firmware waited. -/
  | collected (packet : List UInt8)
deriving Repr

structure Board where
  usb : Adapter
  bus : FlashBus := {}
  /-- The host acts while the firmware waits. -/
  hosted : Bool := false
  /-- The packets that the host offers. -/
  outgoing : List (List UInt8) := []
  record : Record BoardEvent := {}

namespace Board

def note (b : Board) (e : BoardEvent) : Board := { b with record := b.record.push e }

/-- Drives the chip-select pin of a slot.  Low begins a transaction and high ends it. -/
def driveSlot (b : Board) (slot : Slot) (level : Level) : Board :=
  match level with
  | .low => { b with bus := b.bus.select slot }.note (.driven (slotPin slot) .low)
  | .high =>
    let b :=
      if b.bus.selected = some slot then
        { b with bus := b.bus.deselect }.note (.transaction slot b.bus.current.toList)
      else b
    b.note (.driven (slotPin slot) .high)

instance : Wires Board where
  perform
    | .drive slot level, b => (true, b.driveSlot slot level)
    | .exchange out, b =>
      let (reply, bus) := b.bus.exchange out
      (reply.toOption, { b with bus })
    | .flush, b => (true, b.note .flushed)

instance : ResetLine Board where
  drive level b := (true, b.note (.driven resetPin level))

/-- The host offers the first packet of its list. -/
def offer (b : Board) : Board :=
  match b.outgoing with
  | [] => b
  | packet :: rest =>
    match outToken .flash packet b.usb.memory with
    | (.ok _, memory) => { b with usb.memory := memory, outgoing := rest }
    | (.error _, _) => b

/-- The host collects what is there. -/
def collect (b : Board) : Board :=
  match inToken .flash b.usb.memory with
  | (.ok packet, memory) => { b with usb.memory := memory }.note (.collected packet)
  | (.error _, _) => b

/-- What the host does before the firmware's question is answered. -/
def hostTurn (b : Board) : Usb.Action → Board
  | .rxReady ep => if b.hosted ∧ ep = .flash then b.offer else b
  | .txBusy ep => if b.hosted ∧ ep = .flash then b.collect else b
  | _ => b

instance : Controller Board where
  perform a b :=
    let b := b.hostTurn a
    let (reply, usb) := Controller.perform a b.usb
    (reply, { b with usb })

def modifyMemory (b : Board) (f : Memory → Memory) : Board :=
  { b with usb.memory := f b.usb.memory }

/-- The board after the firmware has set it up. -/
def start (chips : PerSlot (Option NorFlash)) (hosted : Bool) : Wired Board :=
  let adapter := Adapter.ofMemory (Memory.filled 0)
  Wired.ofWires
    { usb := adapter
      bus := { chips }
      hosted
      record := Record.append {} (peripherals.map .prepared) }

end Board

/-- The firmware's USB side on the board. -/
abbrev BoardLink := Link (Wired Board)

namespace BoardLink

def modifyBoard (f : Board → Board) (p : BoardLink) : BoardLink :=
  { p with hw.wires := f p.hw.wires }

def memory (p : BoardLink) : Memory := p.hw.wires.usb.memory

def modifyMemory (f : Memory → Memory) (p : BoardLink) : BoardLink :=
  p.modifyBoard fun b => b.modifyMemory f

/-- One interrupt.  The completed buffers are forgotten after it. -/
def interrupt (bits : Word) (p : BoardLink) : BoardLink :=
  modifyMemory (fun m => (m.set .interruptStatus 0).set .bufferStatus 0)
    (Link.onInterrupt (modifyMemory (fun m => m.set .interruptStatus bits) p))

/-- The interrupt for completed buffers, if there are any. -/
def bufferInterrupt (p : BoardLink) : BoardLink :=
  if (memory p).get .bufferStatus = 0 then p else interrupt (BitVec.twoPow 32 4) p

/-- The host sends a SETUP packet. -/
def setup (packet : List UInt8) (p : BoardLink) : BoardLink :=
  interrupt (BitVec.twoPow 32 16) (modifyMemory (setupToken packet) p)

/-- The host sends data to an endpoint. -/
def sendTo (ep : Endpoint) (data : List UInt8) (p : BoardLink) : Except Refused Unit × BoardLink :=
  let (reply, memory) := outToken ep data (memory p)
  (reply, bufferInterrupt (modifyMemory (fun _ => memory) p))

/-- The host asks an endpoint for data. -/
def collectFrom (ep : Endpoint) (p : BoardLink) : Except Refused (List UInt8) × BoardLink :=
  let (reply, memory) := inToken ep (memory p)
  (reply, bufferInterrupt (modifyMemory (fun _ => memory) p))

/-- Brings the device from power-on to its configuration, with address 5. -/
def enumerate (p : BoardLink) : BoardLink :=
  let p := interrupt (BitVec.twoPow 32 12) (interrupt 0 (Link.attach p))
  let p := (collectFrom .control (setup (addressSetup 5).toBytes p)).2
  (collectFrom .control (setup (configurationSetup 1).toBytes p)).2

end BoardLink

end FlashProgrammer.Bench

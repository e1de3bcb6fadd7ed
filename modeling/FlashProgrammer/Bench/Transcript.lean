import FlashProgrammer.Bench.Board
import FlashProgrammer.Bench.World
import FlashProgrammer.Bench.Wires
import FlashProgrammer.Hex

/-!
# Transcripts

A record of the bench as lines of text, one line for each entry.  Numbers are
decimal, bytes and words of memory are hexadecimal, and a dash stands for nothing.
-/

namespace FlashProgrammer.Bench

open Usb Rp2040

/-! ## Names -/

def slotName : Slot → String
  | .local1 => "Local1"
  | .local2 => "Local2"
  | .external => "External"

def directionName : Direction → String
  | .toDevice => "Out"
  | .toHost => "In"

def levelName : Level → String
  | .low => "low"
  | .high => "high"

def orDash (s : String) : String := if s.isEmpty then "-" else s

/-- The bytes of each access, one digit each. -/
def widthDigits (widths : List Width) : String :=
  String.ofList (widths.map fun width => Hex.digit width.bytes)

/-- A finished transaction with a flash chip. -/
def transactionLine (slot : Slot) (sent : List UInt8) : String :=
  s!"spi {slotName slot} {orDash (Hex.ofBytes sent)}"

/-! ## Lines -/

def Event.line : Event → String
  | .connected => "connect"
  | .disconnected => "disconnect"
  | .listening events => s!"events {events.mask}"
  | .addressed address => s!"address {address}"
  | .configured c =>
    s!"configure {c.endpoint} {directionName c.direction} {c.maxPacket} {c.doubleBuffered}"
  | .released ep widths dataEnd => s!"rx_done {ep} {orDash (widthDigits widths)} {dataEnd}"
  | .committed ep packet widths last =>
    s!"tx {ep} {orDash (Hex.ofBytes packet)} {orDash (widthDigits widths)} {last}"
  | .stalled ep dir => s!"stall {ep} {directionName dir}"
  | .cleared ep dir => s!"clear_stall {ep} {directionName dir}"
  | .transaction slot sent => transactionLine slot sent
  | .reset level => s!"reset {levelName level}"

def lineName (slot : Slot) : String := s!"cs{slot.index}"

def wireLine : Spi.WireAction → String
  | .drive slot level => s!"{lineName slot} {levelName level}"
  | .exchange out => s!"xfer {Hex.ofByte out}"
  | .flush => "flush"

def peripheralLine : Peripheral → String
  | .output pin .low => s!"output {pin} Low"
  | .output pin .high => s!"output {pin} High"
  | .spi c =>
    let phase :=
      match c.phase with
      | .captureOnFirst => "CaptureOnFirstTransition"
      | .captureOnSecond => "CaptureOnSecondTransition"
    let polarity :=
      match c.polarity with
      | .idleLow => "IdleLow"
      | .idleHigh => "IdleHigh"
    s!"spi {c.clock} {c.dataOut} {c.dataIn} {c.hertz} {phase} {polarity}"

def BoardEvent.line : BoardEvent → String
  | .prepared peripheral => peripheralLine peripheral
  | .driven pin level => s!"gpio {pin} {levelName level}"
  | .flushed => "flush"
  | .transaction slot sent => transactionLine slot sent
  | .collected packet => s!"in 1 {Hex.ofBytes packet}"

/-- The lines of the words that differ between two states of the memory: the shared memory below
`limit`, then the registers. -/
def changeLines (before after : Memory) (limit : Nat) : List String :=
  ((before.changedWords after limit).map fun c =>
    s!"dpram {Hex.ofNat 3 c.1} {Hex.ofNat 8 c.2.toNat}") ++
  (before.changedRegisters after).map fun c =>
    s!"reg {Hex.ofNat 2 c.1} {Hex.ofNat 8 c.2.toNat}"

end FlashProgrammer.Bench

import FlashProgrammer.Rp2040.Adapter
import FlashProgrammer.Usb.Setup

/-!
# Tokens on the bench

What the RP2040's USB controller does with the shared memory when the host sends a
token.  A buffer is used only while it is available, and is given back to the
processor when it was used.
-/

namespace FlashProgrammer.Bench

open Usb Rp2040

/-- How the controller refuses a token. -/
inductive Refused where
  /-- The buffer is not available. -/
  | nak
  /-- The endpoint is halted. -/
  | stall
deriving DecidableEq, Repr

/-- Where the controller looks for the buffer of an endpoint. -/
def hostBuffer (m : Memory) (ep : Endpoint) (dir : Direction) : Nat :=
  if ep = .control then 0x100
  else (m.word (Memory.endpointControlOffset ep.val dir)).toNat % 65536 / 64 * 64

/-- Whether the controller may use a buffer. -/
def grant (w : Word) : Except Refused Unit :=
  if bit w BufferControl.stallBit then .error .stall
  else if bit w BufferControl.availableBit then .ok ()
  else .error .nak

/-- Marks the buffer of an endpoint as completed. -/
def complete (m : Memory) (ep : Endpoint) (dir : Direction) : Memory :=
  m.set .bufferStatus (setBit (m.get .bufferStatus) (Adapter.bufferStatusBit ep.val dir) true)

/-- The host sends data, of which a buffer takes 64 bytes at most. -/
def outToken (ep : Endpoint) (data : List UInt8) (m : Memory) : Except Refused Unit × Memory :=
  let w := m.bufferControl ep .toDevice
  match grant w with
  | .error e => (.error e, m)
  | .ok _ =>
    let kept := data.take Memory.bufferLength
    let w := BufferControl.setLength
      (setBit (setBit w BufferControl.availableBit false) BufferControl.fullBit true) kept.length
    let m := (m.setBytes (hostBuffer m ep .toDevice) kept).setBufferControl ep .toDevice w
    (.ok (), complete m ep .toDevice)

/-- The host asks for data. -/
def inToken (ep : Endpoint) (m : Memory) : Except Refused (List UInt8) × Memory :=
  let w := m.bufferControl ep .toHost
  match grant w with
  | .error e => (.error e, m)
  | .ok _ =>
    let data := m.bytes (hostBuffer m ep .toHost) (min (BufferControl.length w) Memory.bufferLength)
    let w := setBit (setBit w BufferControl.availableBit false) BufferControl.fullBit false
    (.ok data, complete (m.setBufferControl ep .toHost w) ep .toHost)

/-- A SETUP packet takes both buffers of endpoint 0 away and is stored at its place. -/
def setupToken (packet : List UInt8) (m : Memory) : Memory :=
  let clear := fun w =>
    setBit (setBit (setBit w BufferControl.stallBit false) BufferControl.availableBit false)
      BufferControl.fullBit false
  let m := m.setBufferControl .control .toHost (clear (m.bufferControl .control .toHost))
  let m := m.setBufferControl .control .toDevice (clear (m.bufferControl .control .toDevice))
  m.setBytes Memory.setupOffset packet

end FlashProgrammer.Bench

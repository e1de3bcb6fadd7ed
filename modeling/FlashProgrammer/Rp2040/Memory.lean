import FlashProgrammer.Usb.PerEndpoint

/-!
# The memory of the RP2040's USB controller

The controller has a memory of 4 KiB, shared with the processor, and a
block of registers.  Both are words of 32 bits.  Offset 0 of the shared memory
holds the SETUP packet, control words follow, and data buffers fill the rest.

Words are read and written whole, bytes as part of their word.  A write to one
word leaves the others alone (`word_setWord_ne`).
-/

namespace FlashProgrammer.Rp2040

open Usb

/-! ## Words -/

/-- A word of memory or a register. -/
abbrev Word := BitVec 32

def bit (w : Word) (i : Nat) : Bool := w.getLsbD i

def setBit (w : Word) (i : Nat) (b : Bool) : Word :=
  if b then w ||| BitVec.twoPow 32 i else w &&& ~~~BitVec.twoPow 32 i

/-- A word of bits. -/
def ofBits (bits : List Nat) : Word := bits.foldl (fun w i => setBit w i true) 0

def byteOf (w : Word) (i : Nat) : UInt8 := UInt8.ofNat (w.toNat >>> (8 * i))

def setByteOf (w : Word) (i : Nat) (b : UInt8) : Word :=
  (w &&& ~~~(0xFF#32 <<< (8 * i))) ||| (BitVec.ofNat 32 b.toNat <<< (8 * i))

/-- A bit is as it was set, and the others are as they were. -/
theorem bit_setBit (w : Word) (i j : Nat) (b : Bool) (hj : j < 32) :
    bit (setBit w i b) j = if i = j then b else bit w j := by
  unfold bit setBit
  cases b with
  | true =>
    simp only [if_true, BitVec.getLsbD_or, BitVec.getLsbD_twoPow]
    by_cases h : i = j <;> simp [h, hj]
  | false =>
    simp only [Bool.false_eq_true, if_false, BitVec.getLsbD_and, BitVec.getLsbD_not,
      BitVec.getLsbD_twoPow]
    by_cases h : i = j <;> simp [h, hj]

/-! ## The memory -/

/-- The shared memory and the registers. -/
structure Memory where
  dpram : Vector Word 1024
  registers : Vector Word 64
deriving DecidableEq

/-- A register of the controller. -/
inductive Register where
  /-- The address the device answers to. -/
  | addressEndpoint
  /-- Main switches. -/
  | mainControl
  /-- Switches of the serial engine. -/
  | sieControl
  /-- What the serial engine saw. -/
  | sieStatus
  /-- The buffers that were completed. -/
  | bufferStatus
  /-- The directions of endpoint 0 that may answer with a stall. -/
  | stallArm
  /-- Where the controller is connected to. -/
  | muxing
  /-- Overrides of the power signals. -/
  | power
  | interruptEnable
  | interruptStatus
deriving DecidableEq, Repr

namespace Register

def offset : Register → Nat
  | addressEndpoint => 0x00
  | mainControl => 0x40
  | sieControl => 0x4C
  | sieStatus => 0x50
  | bufferStatus => 0x58
  | stallArm => 0x68
  | muxing => 0x74
  | power => 0x78
  | interruptEnable => 0x90
  | interruptStatus => 0x98

end Register

namespace Memory

/-- The same byte everywhere in the shared memory, and zero in the registers. -/
def filled (b : UInt8) : Memory where
  dpram := Vector.replicate 1024 (BitVec.ofNat 32 (b.toNat * 0x01010101))
  registers := Vector.replicate 64 0

/-- The word of the shared memory that holds an offset. -/
def word (m : Memory) (offset : Nat) : Word := m.dpram[offset / 4]?.getD 0

def setWord (m : Memory) (offset : Nat) (w : Word) : Memory :=
  { m with dpram := m.dpram.setIfInBounds (offset / 4) w }

/-- The byte of the shared memory at an offset. -/
def byte (m : Memory) (offset : Nat) : UInt8 := byteOf (m.word offset) (offset % 4)

def setByte (m : Memory) (offset : Nat) (b : UInt8) : Memory :=
  m.setWord offset (setByteOf (m.word offset) (offset % 4) b)

/-- The bytes from an offset on. -/
def bytes (m : Memory) (offset length : Nat) : List UInt8 :=
  (List.range length).map fun i => m.byte (offset + i)

def setBytes (m : Memory) (offset : Nat) : List UInt8 → Memory
  | [] => m
  | b :: bs => (m.setByte offset b).setBytes (offset + 1) bs

/-- The register at an offset. -/
def registerAt (m : Memory) (offset : Nat) : Word := m.registers[offset / 4]?.getD 0

def setRegisterAt (m : Memory) (offset : Nat) (w : Word) : Memory :=
  { m with registers := m.registers.setIfInBounds (offset / 4) w }

def get (m : Memory) (r : Register) : Word := m.registerAt r.offset

def set (m : Memory) (r : Register) (w : Word) : Memory := m.setRegisterAt r.offset w

/-- The words of the shared memory below `limit` that differ from an earlier state, by offset. -/
def changedWords (before after : Memory) (limit : Nat) : List (Nat × Word) :=
  (List.range (limit / 4)).filterMap fun i =>
    if after.word (4 * i) = before.word (4 * i) then none else some (4 * i, after.word (4 * i))

/-- The registers that differ from an earlier state, by offset. -/
def changedRegisters (before after : Memory) : List (Nat × Word) :=
  (List.range 64).filterMap fun i =>
    if after.registerAt (4 * i) = before.registerAt (4 * i) then none
    else some (4 * i, after.registerAt (4 * i))

theorem word_setWord_self (m : Memory) {offset : Nat} (w : Word) (h : offset < 4096) :
    (m.setWord offset w).word offset = w := by
  have hi : offset / 4 < 1024 := by omega
  simp [word, setWord, hi]

theorem word_setWord_ne (m : Memory) {a b : Nat} (w : Word) (h : a / 4 ≠ b / 4) :
    (m.setWord a w).word b = m.word b := by
  simp [word, setWord, h]

@[simp] theorem word_setRegisterAt (m : Memory) (a b : Nat) (w : Word) :
    (m.setRegisterAt a w).word b = m.word b := rfl

/-! ## The layout of the shared memory -/

/-- Where the SETUP packet is. -/
def setupOffset : Nat := 0x000

/-- Where the control word of an endpoint is.  Endpoint 0 has none. -/
def endpointControlOffset (ep : Nat) : Direction → Nat
  | .toHost => 0x008 + 8 * (ep - 1)
  | .toDevice => 0x00C + 8 * (ep - 1)

/-- Where the word that hands a buffer over is. -/
def bufferControlOffset (ep : Nat) : Direction → Nat
  | .toHost => 0x080 + 8 * ep
  | .toDevice => 0x084 + 8 * ep

/-- Bytes in a buffer. -/
def bufferLength : Nat := 64

/-- Where the buffer of an endpoint is.  Endpoint 0 has one for both directions. -/
def bufferOffset (ep : Endpoint) (dir : Direction) : Nat :=
  if ep = .control then 0x100 else 0x180 + ((ep.val - 1) * 2 + dir.index) * bufferLength

/-- The word that hands a buffer over. -/
def bufferControl (m : Memory) (ep : Endpoint) (dir : Direction) : Word :=
  m.word (bufferControlOffset ep.val dir)

def setBufferControl (m : Memory) (ep : Endpoint) (dir : Direction) (w : Word) : Memory :=
  m.setWord (bufferControlOffset ep.val dir) w

end Memory

/-! ## The word that hands a buffer over -/

namespace BufferControl

/-- The bit that gives the buffer to the controller. -/
def availableBit : Nat := 10

/-- The bit that answers the host with a stall. -/
def stallBit : Nat := 11

/-- The bit that says which of the two alternating packets this is. -/
def toggleBit : Nat := 13

/-- The bit that says the buffer holds data. -/
def fullBit : Nat := 15

/-- The number of bytes in the buffer: bits 0 to 9. -/
def length (w : Word) : Nat := w.toNat % 1024

def setLength (w : Word) (n : Nat) : Word := (w &&& ~~~0x3FF#32) ||| BitVec.ofNat 32 (n % 1024)

end BufferControl

end FlashProgrammer.Rp2040

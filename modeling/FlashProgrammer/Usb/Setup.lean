import FlashProgrammer.LittleEndian
import FlashProgrammer.Usb.Controller

/-!
# SETUP packets

A control transfer begins with eight bytes that say what is asked, of whom, and
how much data follows in which direction.
-/

namespace FlashProgrammer.Usb

/-- Who defined a control request. -/
inductive RequestKind where
  | standard
  | deviceClass
  | vendor
  | reserved
deriving DecidableEq, Repr

/-- Whom a control request addresses. -/
inductive Recipient where
  | device
  | interface
  | endpoint
  | other
deriving DecidableEq, Repr

structure Setup where
  /-- Direction, kind and recipient. -/
  requestType : UInt8
  request : UInt8
  /-- First argument. -/
  value : UInt16
  /-- Second argument: an endpoint or interface. -/
  index : UInt16
  /-- Bytes of the data stage. -/
  length : UInt16
deriving DecidableEq, Repr

namespace Setup

def size : Nat := 8

def ofBytes (bs : List UInt8) : Setup where
  requestType := bs.getD 0 0
  request := bs.getD 1 0
  value := UInt16.ofNat (LittleEndian.field bs 2 2)
  index := UInt16.ofNat (LittleEndian.field bs 4 2)
  length := UInt16.ofNat (LittleEndian.field bs 6 2)

def toBytes (s : Setup) : List UInt8 :=
  [s.requestType, s.request] ++ LittleEndian.encode 2 s.value.toNat ++
    LittleEndian.encode 2 s.index.toNat ++ LittleEndian.encode 2 s.length.toNat

/-- The direction of the data stage: bit 7 of the request type. -/
def direction (s : Setup) : Direction :=
  if s.requestType.toNat.testBit 7 then .toHost else .toDevice

/-- Who defined the request: bits 5 and 6 of the request type. -/
def kind (s : Setup) : RequestKind :=
  match s.requestType.toNat / 32 % 4 with
  | 0 => .standard
  | 1 => .deviceClass
  | 2 => .vendor
  | _ => .reserved

/-- Whom the request addresses: bits 0 to 4 of the request type. -/
def recipient (s : Setup) : Recipient :=
  match s.requestType.toNat % 32 with
  | 0 => .device
  | 1 => .interface
  | 2 => .endpoint
  | _ => .other

/-- The endpoint and direction that the second argument names. -/
def endpoint? (s : Setup) : Option (Endpoint × Direction) :=
  if h : s.index.toNat % 16 < 4 then
    some (⟨s.index.toNat % 16, h⟩, if s.index.toNat.testBit 7 then .toHost else .toDevice)
  else none

def valueLow (s : Setup) : UInt8 := UInt8.ofNat s.value.toNat

def valueHigh (s : Setup) : UInt8 := UInt8.ofNat (s.value.toNat / 256)

@[simp] theorem length_toBytes (s : Setup) : s.toBytes.length = 8 := by
  simp [toBytes]

theorem ofNat_decode_encode (n : UInt16) :
    UInt16.ofNat (LittleEndian.decode (LittleEndian.encode 2 n.toNat)) = n := by
  rw [LittleEndian.decode_encode n.toNat_lt, UInt16.ofNat_toNat]

/-- A packet is read back from its bytes. -/
theorem ofBytes_toBytes (s : Setup) : ofBytes s.toBytes = s := by
  obtain ⟨requestType, request, value, index, length⟩ := s
  have hv := ofNat_decode_encode value
  have hi := ofNat_decode_encode index
  have hl := ofNat_decode_encode length
  simp only [LittleEndian.encode] at hv hi hl
  simp only [ofBytes, toBytes, LittleEndian.encode, LittleEndian.field, List.cons_append,
    List.nil_append, List.drop_succ_cons, List.drop_zero, List.take_succ_cons, List.take_zero,
    List.getD_cons_zero, List.getD_cons_succ, hv, hi, hl]

end Setup

/-! ## Standard requests -/

/-- The requests that every device must understand. -/
inductive StandardRequest where
  | getStatus
  | clearFeature
  | setFeature
  | setAddress
  | getDescriptor
  | setDescriptor
  | getConfiguration
  | setConfiguration
  | getInterface
  | setInterface
deriving DecidableEq, Repr

namespace StandardRequest

/-- The standard request with a code.  Isochronous endpoints do not exist here, so the request
that would synchronise them is not among them. -/
def ofByte? (code : UInt8) : Option StandardRequest :=
  if code = 0x00 then some getStatus
  else if code = 0x01 then some clearFeature
  else if code = 0x03 then some setFeature
  else if code = 0x05 then some setAddress
  else if code = 0x06 then some getDescriptor
  else if code = 0x07 then some setDescriptor
  else if code = 0x08 then some getConfiguration
  else if code = 0x09 then some setConfiguration
  else if code = 0x0A then some getInterface
  else if code = 0x0B then some setInterface
  else none

end StandardRequest

/-- The feature that halts an endpoint. -/
def endpointHalt : UInt16 := 0

end FlashProgrammer.Usb

import FlashProgrammer.Protocol.FrameError
import FlashProgrammer.Protocol.Opcode
import FlashProgrammer.Protocol.PageNumber

/-!
# Responses

What the programmer answers.  A read is answered with raw pages and a write with
nothing, so neither has a response.  `decode_encode` says that the host reads
what the programmer wrote.
-/

namespace FlashProgrammer.Protocol

/-- How an erase or write stands. -/
inductive EraseStatus where
  | inProgress
  | complete
  /-- Nothing was started. -/
  | invalid
deriving DecidableEq, Repr

namespace EraseStatus

def toByte : EraseStatus → UInt8
  | inProgress => 0
  | complete => 1
  | invalid => 2

def ofByte? (b : UInt8) : Option EraseStatus :=
  if b = 0 then some inProgress
  else if b = 1 then some complete
  else if b = 2 then some invalid
  else none

@[simp] theorem ofByte?_toByte (s : EraseStatus) : ofByte? s.toByte = some s := by
  cases s <;> decide

end EraseStatus

/-- What a verification found. -/
inductive VerifyStatus where
  | differs
  | agrees
  /-- Nothing was written, or the chip could not be read. -/
  | invalid
deriving DecidableEq, Repr

namespace VerifyStatus

def toByte : VerifyStatus → UInt8
  | differs => 0
  | agrees => 1
  | invalid => 2

def ofByte? (b : UInt8) : Option VerifyStatus :=
  if b = 0 then some differs
  else if b = 1 then some agrees
  else if b = 2 then some invalid
  else none

@[simp] theorem ofByte?_toByte (s : VerifyStatus) : ofByte? s.toByte = some s := by
  cases s <;> decide

end VerifyStatus

/-- How the geometry of a listed chip was obtained. -/
structure DeviceFlags where
  /-- The part is unknown and its geometry a guess. -/
  bestGuess : Bool := false
  /-- The geometry came from the chip's own tables. -/
  fromSfdp : Bool := false
  /-- There is no such slot. -/
  invalid : Bool := false
deriving DecidableEq, Repr

namespace DeviceFlags

def toByte (f : DeviceFlags) : UInt8 :=
  (if f.bestGuess then 1 else 0) + (if f.fromSfdp then 2 else 0) + (if f.invalid then 4 else 0)

/-- The flags in bits 0, 1 and 2.  The other bits are dropped. -/
def ofByte (b : UInt8) : DeviceFlags where
  bestGuess := b.toNat.testBit 0
  fromSfdp := b.toNat.testBit 1
  invalid := b.toNat.testBit 2

@[simp] theorem ofByte_toByte (f : DeviceFlags) : ofByte f.toByte = f := by
  rcases f with ⟨_ | _, _ | _, _ | _⟩ <;> decide

end DeviceFlags

/-- What the host is told of one chip. -/
structure DeviceInfo where
  /-- Capacity in bytes. -/
  size : UInt32
  manufacturer : UInt8
  deviceType : UInt8
  /-- Bytes in a page. -/
  pageSize : PageNumber
  /-- Bytes in an erase block. -/
  eraseSize : PageNumber
  /-- How the geometry was obtained. -/
  flags : DeviceFlags
deriving DecidableEq, Repr

namespace DeviceInfo

/-- The answer for a slot that does not exist. -/
def missing : DeviceInfo where
  size := 0
  manufacturer := 0
  deviceType := 0
  pageSize := .ofNat 0
  eraseSize := .ofNat 0
  flags := { invalid := true }

end DeviceInfo

/-- An answer of the programmer. -/
inductive Response where
  | deviceCount (internal external : UInt8)
  | listDevice (info : DeviceInfo)
  | targetDevice
  /-- How the erase or write stands, and the block or page it is at. -/
  | erase (status : EraseStatus) (current : PageNumber)
  | verify (status : VerifyStatus)
  | resetTarget
deriving DecidableEq, Repr

namespace Response

def opcode : Response → Opcode
  | deviceCount .. => .deviceCount
  | listDevice .. => .listDevice
  | targetDevice => .targetDevice
  | erase .. => .erase
  | verify .. => .verify
  | resetTarget => .resetTarget

/-- The bytes after the opcode. -/
def body : Response → List UInt8
  | targetDevice | resetTarget => []
  | deviceCount internal external => [internal, external]
  | listDevice info =>
    LittleEndian.encode 4 info.size.toNat ++ info.manufacturer :: info.deviceType ::
      (info.pageSize.toBytes ++ info.eraseSize.toBytes ++ [info.flags.toByte])
  | erase status current => status.toByte :: current.toBytes
  | verify status => [status.toByte]

/-- The frame of a response. -/
def encode (r : Response) : List UInt8 :=
  r.opcode.toByte :: r.body

def frameLength : Opcode → Nat
  | .targetDevice | .resetTarget | .read | .write => 1
  | .deviceCount => 3
  | .listDevice => 14
  | .erase => 5
  | .verify => 2

/-- The length of the longest frame in either direction. -/
def maxFrameLength : Nat := 14

/-- Reads the body of a known opcode.  A read and a write have no response. -/
def decodeBody (op : Opcode) (body : List UInt8) : Except FrameError Response :=
  match op, body with
  | .targetDevice, _ => .ok .targetDevice
  | .resetTarget, _ => .ok .resetTarget
  | .read, _ => .error (.unknownOpcode op.toByte)
  | .write, _ => .error (.unknownOpcode op.toByte)
  | .deviceCount, internal :: external :: _ => .ok (.deviceCount internal external)
  | .listDevice, s0 :: s1 :: s2 :: s3 :: manufacturer :: deviceType ::
      p0 :: p1 :: p2 :: e0 :: e1 :: e2 :: flags :: _ =>
    .ok (.listDevice
      { size := UInt32.ofNat (LittleEndian.decode [s0, s1, s2, s3])
        manufacturer
        deviceType
        pageSize := .ofBytes p0 p1 p2
        eraseSize := .ofBytes e0 e1 e2
        flags := .ofByte flags })
  | .erase, s :: a :: b :: c :: _ =>
    match EraseStatus.ofByte? s with
    | some status => .ok (.erase status (.ofBytes a b c))
    | none => .error (.invalidField op.toByte s)
  | .verify, s :: _ =>
    match VerifyStatus.ofByte? s with
    | some status => .ok (.verify status)
    | none => .error (.invalidField op.toByte s)
  | op, body => .error (.truncated op.toByte (body.length + 1) (frameLength op))

/-- Reads a response frame, as the host does. -/
def decode : List UInt8 → Except FrameError Response
  | [] => .error .empty
  | b :: body =>
    match Opcode.ofByte? b with
    | some op => decodeBody op body
    | none => .error (.unknownOpcode b)

theorem length_encode (r : Response) : r.encode.length = frameLength r.opcode := by
  cases r <;> simp [encode, body, frameLength, opcode]

theorem size_decode_encode (n : UInt32) :
    UInt32.ofNat (LittleEndian.decode (LittleEndian.encode 4 n.toNat)) = n := by
  rw [LittleEndian.decode_encode n.toNat_lt, UInt32.ofNat_toNat]

theorem decode_encode (r : Response) (rest : List UInt8) : decode (r.encode ++ rest) = .ok r := by
  cases r with
  | listDevice info =>
    obtain ⟨size, manufacturer, deviceType, pageSize, eraseSize, flags⟩ := info
    have h := size_decode_encode size
    simp [encode, decode, decodeBody, body, opcode, PageNumber.toBytes_eq,
      PageNumber.ofBytes_toBytes, LittleEndian.encode]
    simpa [LittleEndian.encode] using h
  | _ =>
    simp [encode, decode, decodeBody, body, opcode, PageNumber.toBytes_eq,
      PageNumber.ofBytes_toBytes]

end Response

end FlashProgrammer.Protocol

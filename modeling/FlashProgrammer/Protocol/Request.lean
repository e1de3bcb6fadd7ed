import FlashProgrammer.Protocol.FrameError
import FlashProgrammer.Protocol.Opcode
import FlashProgrammer.Protocol.PageNumber

/-!
# Requests

What the host asks for.  A request frame is an opcode and a fixed body; bytes
past the body are ignored.  `decode_encode` says that the programmer reads what
the host wrote, whatever follows it.

The bus code of a slot is not checked here.  A pair that names no slot reaches
the programmer and selects nothing.
-/

namespace FlashProgrammer.Protocol

/-- What an erase request asks for. -/
inductive EraseOperation where
  | all
  /-- One erase block. -/
  | page
  /-- A range of erase blocks. -/
  | pageRange
  /-- How far the running operation has come. -/
  | status
deriving DecidableEq, Repr

namespace EraseOperation

def toByte : EraseOperation → UInt8
  | all => 0
  | page => 1
  | pageRange => 2
  | status => 3

def ofByte? (b : UInt8) : Option EraseOperation :=
  if b = 0 then some all
  else if b = 1 then some page
  else if b = 2 then some pageRange
  else if b = 3 then some status
  else none

@[simp] theorem ofByte?_toByte (o : EraseOperation) : ofByte? o.toByte = some o := by
  cases o <;> decide

theorem toByte_of_ofByte? {b : UInt8} {o : EraseOperation} (h : ofByte? b = some o) :
    o.toByte = b := by
  unfold ofByte? at h
  repeat' split at h
  all_goals first | (cases h; subst_vars; rfl) | cases h

end EraseOperation

/-- A request of the host. -/
inductive Request where
  | deviceCount
  /-- What the chip of a slot is. -/
  | listDevice (number bus : UInt8)
  /-- Select the chip that the following requests address. -/
  | targetDevice (number bus : UInt8)
  /-- Erase blocks, or ask how far an erase or write has come. -/
  | erase (operation : EraseOperation) (first last : PageNumber)
  /-- Read one page. -/
  | read (page : PageNumber)
  /-- Write the next `count` bytes to one page. -/
  | write (page count : PageNumber)
  /-- Compare the last written page with the chip. -/
  | verify
  /-- Pulse the reset line of the target board. -/
  | resetTarget
deriving DecidableEq, Repr

namespace Request

def opcode : Request → Opcode
  | deviceCount => .deviceCount
  | listDevice .. => .listDevice
  | targetDevice .. => .targetDevice
  | erase .. => .erase
  | read .. => .read
  | write .. => .write
  | verify => .verify
  | resetTarget => .resetTarget

/-- The bytes after the opcode. -/
def body : Request → List UInt8
  | deviceCount | verify | resetTarget => []
  | listDevice number bus | targetDevice number bus => [number, bus]
  | erase operation first last => operation.toByte :: (first.toBytes ++ last.toBytes)
  | read page => page.toBytes
  | write page count => page.toBytes ++ count.toBytes

/-- The frame of a request. -/
def encode (r : Request) : List UInt8 :=
  r.opcode.toByte :: r.body

/-- The length of the frames of an opcode. -/
def frameLength : Opcode → Nat
  | .deviceCount | .verify | .resetTarget => 1
  | .listDevice | .targetDevice => 3
  | .erase => 8
  | .read => 4
  | .write => 7

/-- Reads the body of a known opcode.  Fails only on a body that is too short or names no
operation. -/
def decodeBody (op : Opcode) (body : List UInt8) : Except FrameError Request :=
  match op, body with
  | .deviceCount, _ => .ok .deviceCount
  | .verify, _ => .ok .verify
  | .resetTarget, _ => .ok .resetTarget
  | .listDevice, number :: bus :: _ => .ok (.listDevice number bus)
  | .targetDevice, number :: bus :: _ => .ok (.targetDevice number bus)
  | .erase, o :: a :: b :: c :: d :: e :: f :: _ =>
    match EraseOperation.ofByte? o with
    | some operation => .ok (.erase operation (.ofBytes a b c) (.ofBytes d e f))
    | none => .error (.invalidField op.toByte o)
  | .read, a :: b :: c :: _ => .ok (.read (.ofBytes a b c))
  | .write, a :: b :: c :: d :: e :: f :: _ => .ok (.write (.ofBytes a b c) (.ofBytes d e f))
  | op, body => .error (.truncated op.toByte (body.length + 1) (frameLength op))

/-- Reads a request frame. -/
def decode : List UInt8 → Except FrameError Request
  | [] => .error .empty
  | b :: body =>
    match Opcode.ofByte? b with
    | some op => decodeBody op body
    | none => .error (.unknownOpcode b)

theorem length_encode (r : Request) : r.encode.length = frameLength r.opcode := by
  cases r <;> simp [encode, body, frameLength, opcode]

theorem decode_encode (r : Request) (rest : List UInt8) : decode (r.encode ++ rest) = .ok r := by
  cases r <;>
    simp [encode, decode, decodeBody, body, opcode, PageNumber.toBytes_eq,
      PageNumber.ofBytes_toBytes]

end Request

end FlashProgrammer.Protocol

import FlashProgrammer.Protocol.Request
import FlashProgrammer.Protocol.Response

/-!
# The frames of requests

A request and its frame determine each other, and every other frame is refused for
one reason.  `Reading f outcome` lists the outcomes of reading a frame: it is empty,
its opcode is unknown, it is too short for its opcode, it names no operation, or it
begins with the encoding of a request.

The five exclude each other, and `decode_eq_iff` says that reading comes to the one
that holds.  `request_codec` reads off it which frames are requests and which fault
every other frame has.
-/

namespace FlashProgrammer.Protocol

/-! ## Codes -/

theorem Opcode.ofByte?_eq_none_iff {b : UInt8} : ofByte? b = none ↔ 7 < b := by
  unfold ofByte?
  grind

theorem EraseOperation.ofByte?_eq_none_iff {b : UInt8} : ofByte? b = none ↔ 3 < b := by
  unfold ofByte?
  grind

/-- A byte is an opcode, or it is past the last one. -/
theorem Opcode.known_or_gt (b : UInt8) : (∃ op : Opcode, op.toByte = b) ∨ 7 < b := by
  cases h : ofByte? b with
  | none => exact .inr (ofByte?_eq_none_iff.mp h)
  | some op => exact .inl ⟨op, toByte_of_ofByte? h⟩

namespace Request

/-! ## Writing a frame -/

theorem length_encode_le (r : Request) : r.encode.length ≤ Response.maxFrameLength := by
  rw [length_encode]
  cases r.opcode <;> decide

/-- Writes the frame over the front of a buffer that has room for the longest one, and says how long
it is. -/
def encodeInto (r : Request) (buffer : Vector UInt8 Response.maxFrameLength) :
    Nat × Vector UInt8 Response.maxFrameLength :=
  (r.encode.length,
    ⟨(r.encode ++ buffer.toList.drop r.encode.length).toArray, by
      have hlength := r.length_encode_le
      simp only [List.size_toArray, List.length_append, List.length_drop, Vector.length_toList]
      omega⟩)

/-- The bytes that were written are the frame, whatever was in the buffer. -/
theorem take_encodeInto (r : Request) (buffer : Vector UInt8 Response.maxFrameLength) :
    (r.encodeInto buffer).2.toList.take (r.encodeInto buffer).1 = r.encode :=
  List.take_left

/-! ## Reading a frame -/

/-- What reading a frame comes to. -/
inductive Reading (f : List UInt8) : Except FrameError Request → Prop where
  /-- There is no opcode. -/
  | empty (h : f = []) : Reading f (.error .empty)
  /-- The opcode is past the last one. -/
  | unknown {b : UInt8} (hhead : f.head? = some b) (h : 7 < b) :
      Reading f (.error (.unknownOpcode b))
  /-- The frame is shorter than the frames of its opcode. -/
  | truncated {op : Opcode} (hhead : f.head? = some op.toByte) (h : f.length < frameLength op) :
      Reading f (.error (.truncated op.toByte f.length (frameLength op)))
  /-- The frame of an erase is long enough and names no operation. -/
  | invalid {v : UInt8} (hhead : f.head? = some Opcode.erase.toByte)
      (hlength : frameLength .erase ≤ f.length) (hvalue : f[1]? = some v) (h : 3 < v) :
      Reading f (.error (.invalidField Opcode.erase.toByte v))
  /-- The frame begins with the encoding of a request. -/
  | request {r : Request} (h : r.encode <+: f) : Reading f (.ok r)

theorem decode_cons (op : Opcode) (body : List UInt8) :
    decode (op.toByte :: body) = decodeBody op body := by
  simp only [decode, Opcode.ofByte?_toByte]

theorem decode_of_unknown {b : UInt8} (h : 7 < b) (body : List UInt8) :
    decode (b :: body) = .error (.unknownOpcode b) := by
  rw [decode, Opcode.ofByte?_eq_none_iff.mpr h]

theorem decodeBody_of_short {op : Opcode} {body : List UInt8}
    (h : body.length + 1 < frameLength op) :
    decodeBody op body = .error (.truncated op.toByte (body.length + 1) (frameLength op)) := by
  fun_cases decodeBody op body with
  | case10 => rfl
  | _ => exact absurd h (by simp [frameLength])

/-- One case for each way through the reader. -/
theorem reading_decodeBody (op : Opcode) (body : List UInt8) :
    Reading (op.toByte :: body) (decodeBody op body) := by
  by_cases hlong : frameLength op ≤ body.length + 1
  · match op, body, hlong with
    | .deviceCount, rest, _ => exact .request (r := .deviceCount) ⟨rest, rfl⟩
    | .verify, rest, _ => exact .request (r := .verify) ⟨rest, rfl⟩
    | .resetTarget, rest, _ => exact .request (r := .resetTarget) ⟨rest, rfl⟩
    | .listDevice, number :: bus :: rest, _ =>
      exact .request (r := .listDevice number bus) ⟨rest, rfl⟩
    | .targetDevice, number :: bus :: rest, _ =>
      exact .request (r := .targetDevice number bus) ⟨rest, rfl⟩
    | .erase, o :: a :: b :: c :: d :: e :: f :: rest, hlength =>
      rw [decodeBody]
      cases hoperation : EraseOperation.ofByte? o with
      | none => exact .invalid rfl hlength rfl (EraseOperation.ofByte?_eq_none_iff.mp hoperation)
      | some operation =>
        refine .request ⟨rest, ?_⟩
        have hbyte := EraseOperation.toByte_of_ofByte? hoperation
        simp [encode, Request.body, Request.opcode, hbyte]
    | .read, a :: b :: c :: rest, _ =>
      refine .request (r := .read (.ofBytes a b c)) ⟨rest, ?_⟩
      simp [encode, Request.body, Request.opcode]
    | .write, a :: b :: c :: d :: e :: f :: rest, _ =>
      refine .request (r := .write (.ofBytes a b c) (.ofBytes d e f)) ⟨rest, ?_⟩
      simp [encode, Request.body, Request.opcode]
  · have hshort := Nat.lt_of_not_le hlong
    rw [decodeBody_of_short hshort]
    exact .truncated rfl hshort

theorem reading_decode (f : List UInt8) : Reading f (decode f) := by
  cases f with
  | nil => exact .empty rfl
  | cons b body =>
    rcases Opcode.known_or_gt b with ⟨op, rfl⟩ | hunknown
    · rw [decode_cons]
      exact reading_decodeBody op body
    · rw [decode_of_unknown hunknown]
      exact .unknown rfl hunknown

/-- Reading a frame comes to what the frame is. -/
theorem Reading.decode_eq {f : List UInt8} {outcome : Except FrameError Request}
    (h : Reading f outcome) : decode f = outcome := by
  cases h with
  | empty h =>
    rw [h]
    rfl
  | unknown hhead h =>
    obtain ⟨body, rfl⟩ := List.head?_eq_some_iff.mp hhead
    exact decode_of_unknown h body
  | truncated hhead h =>
    obtain ⟨body, rfl⟩ := List.head?_eq_some_iff.mp hhead
    rw [decode_cons, decodeBody_of_short h]
    rfl
  | invalid hhead hlength hvalue h =>
    match f, hhead, hlength, hvalue with
    | _ :: o :: a :: b :: c :: d :: e :: f :: rest, hhead, _, hvalue =>
      cases hhead
      cases hvalue
      rw [decode_cons, decodeBody, EraseOperation.ofByte?_eq_none_iff.mpr h]
  | request h =>
    obtain ⟨rest, rfl⟩ := h
    exact decode_encode _ rest

theorem decode_eq_iff {f : List UInt8} {outcome : Except FrameError Request} :
    decode f = outcome ↔ Reading f outcome :=
  ⟨fun h => h ▸ reading_decode f, Reading.decode_eq⟩

/-- Which frames are requests, and which fault every other frame has.

A request is read back from the front of the buffer it was written into, whatever was in the buffer
and whatever follows.  A frame is read as a request exactly if it begins with the encoding of the
request.  Otherwise it is empty, its opcode is past the last one, it is shorter than the frames of
its opcode, or it is the frame of an erase that is long enough and names no operation. -/
theorem request_codec :
    (∀ (r : Request) (buffer : Vector UInt8 Response.maxFrameLength) (rest : List UInt8),
      (r.encodeInto buffer).1 = frameLength r.opcode ∧ (r.encodeInto buffer).1 ≤ 14 ∧
      decode ((r.encodeInto buffer).2.toList.take (r.encodeInto buffer).1 ++ rest) = .ok r) ∧
    (∀ f r, decode f = .ok r ↔ r.encode <+: f) ∧
    (∀ f, decode f = .error .empty ↔ f = []) ∧
    (∀ f b, decode f = .error (.unknownOpcode b) ↔ f.head? = some b ∧ 7 < b) ∧
    (∀ f b length expected, decode f = .error (.truncated b length expected) ↔
      ∃ op : Opcode, f.head? = some op.toByte ∧ f.length < frameLength op ∧
        b = op.toByte ∧ length = f.length ∧ expected = frameLength op) ∧
    (∀ f b v, decode f = .error (.invalidField b v) ↔
      f.head? = some 3 ∧ 8 ≤ f.length ∧ f[1]? = some v ∧ 3 < v ∧ b = 3) := by
  refine ⟨fun r buffer rest => ⟨r.length_encode, r.length_encode_le, ?_⟩, fun f r => ?_, fun f => ?_, fun f b => ?_,
    fun f b length expected => ?_, fun f b v => ?_⟩
  · rw [take_encodeInto]
    exact decode_encode r rest
  · rw [decode_eq_iff]
    exact ⟨fun | .request h => h, .request⟩
  · rw [decode_eq_iff]
    exact ⟨fun | .empty h => h, .empty⟩
  · rw [decode_eq_iff]
    exact ⟨fun | .unknown hhead h => ⟨hhead, h⟩, fun ⟨hhead, h⟩ => .unknown hhead h⟩
  · rw [decode_eq_iff]
    constructor
    · rintro (_ | _ | ⟨hhead, h⟩ | _ | _)
      exact ⟨_, hhead, h, rfl, rfl, rfl⟩
    · rintro ⟨op, hhead, h, rfl, rfl, rfl⟩
      exact .truncated hhead h
  · rw [decode_eq_iff]
    constructor
    · rintro (_ | _ | _ | ⟨hhead, hlength, hvalue, h⟩ | _)
      exact ⟨hhead, hlength, hvalue, h, rfl⟩
    · rintro ⟨hhead, hlength, hvalue, h, rfl⟩
      exact .invalid hhead hlength hvalue h

end Request

end FlashProgrammer.Protocol

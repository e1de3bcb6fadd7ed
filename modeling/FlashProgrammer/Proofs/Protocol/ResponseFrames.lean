import FlashProgrammer.Proofs.Protocol.RequestFrames

/-!
# The frames of responses

What the host makes of a frame.  A response is read from the front of any frame that
begins with its encoding, but one byte is read through a mask: of the flags of a listed
chip only three bits have a meaning.  `definedBits` clears the others, and reading does
not see the difference.

`Reading f outcome` lists the outcomes of reading a frame: it is empty, its opcode has
no response, it is too short for its opcode, its status has no meaning, or, up to the
bits without a meaning, it begins with the encoding of a response.  The five exclude
each other, and `decode_eq_iff` says that reading comes to the one that holds.
-/

namespace FlashProgrammer.Protocol

/-! ## Codes -/

theorem Opcode.toByte_inj {op op' : Opcode} : op.toByte = op'.toByte ↔ op = op' := by
  constructor
  · intro h
    have hread := congrArg ofByte? h
    simpa only [ofByte?_toByte, Option.some.injEq] using hread
  · rintro rfl
    rfl

theorem EraseStatus.toByte_of_ofByte? {b : UInt8} {s : EraseStatus} (h : ofByte? b = some s) :
    s.toByte = b := by
  unfold ofByte? at h
  repeat' split at h
  all_goals first | (cases h; subst_vars; rfl) | cases h

theorem EraseStatus.ofByte?_eq_none_iff {b : UInt8} : ofByte? b = none ↔ 2 < b := by
  unfold ofByte?
  grind

theorem VerifyStatus.toByte_of_ofByte? {b : UInt8} {s : VerifyStatus} (h : ofByte? b = some s) :
    s.toByte = b := by
  unfold ofByte? at h
  repeat' split at h
  all_goals first | (cases h; subst_vars; rfl) | cases h

theorem VerifyStatus.ofByte?_eq_none_iff {b : UInt8} : ofByte? b = none ↔ 2 < b := by
  unfold ofByte?
  grind

namespace DeviceFlags

/-- The bits that flags have a meaning for. -/
def definedMask : UInt8 := 0x07

theorem toByte_and_definedMask (f : DeviceFlags) : f.toByte &&& definedMask = f.toByte := by
  rcases f with ⟨_ | _, _ | _, _ | _⟩ <;> decide

theorem toByte_ofByte (b : UInt8) : (ofByte b).toByte = b &&& definedMask := by
  have hall : ∀ n : Fin 256, (ofByte (.ofNat n)).toByte = .ofNat n &&& definedMask := by
    decide +kernel
  have hb := hall ⟨b.toNat, b.toNat_lt⟩
  rwa [UInt8.ofNat_toNat] at hb

/-- Reading flags does not see the other bits. -/
@[simp] theorem ofByte_and_definedMask (b : UInt8) : ofByte (b &&& definedMask) = ofByte b := by
  rw [← toByte_ofByte, ofByte_toByte]

end DeviceFlags

namespace Response

theorem length_encode_le (r : Response) : r.encode.length ≤ maxFrameLength := by
  rw [length_encode]
  cases r.opcode <;> decide

/-! ## Bits without a meaning -/

/-- Where the flags of a listed chip stand. -/
def flagsOffset : Nat := 13

/-- The frame with the bits cleared that have no meaning.  Only the flags of a listed chip have such
bits. -/
def definedBits (f : List UInt8) : List UInt8 :=
  if f.head? = some Opcode.listDevice.toByte then
    f.modify flagsOffset (· &&& DeviceFlags.definedMask)
  else f

theorem decode_cons (op : Opcode) (body : List UInt8) :
    decode (op.toByte :: body) = decodeBody op body := by
  simp only [decode, Opcode.ofByte?_toByte]

theorem decodeBody_of_short {op : Opcode} {body : List UInt8}
    (h : body.length + 1 < frameLength op) :
    decodeBody op body = .error (.truncated op.toByte (body.length + 1) (frameLength op)) := by
  fun_cases decodeBody op body with
  | case11 => rfl
  | _ => exact absurd h (by simp [frameLength])

/-- The status of an erase or a verification is the first byte of the body. -/
theorem decodeBody_of_invalid {op : Opcode} {body : List UInt8} {v : UInt8}
    (hop : op = .erase ∨ op = .verify) (hlength : frameLength op ≤ body.length + 1)
    (hvalue : body[0]? = some v) (h : 2 < v) :
    decodeBody op body = .error (.invalidField op.toByte v) := by
  rcases hop with rfl | rfl
  · rcases body with _ | ⟨s, _ | ⟨a, _ | ⟨b, _ | ⟨c, rest⟩⟩⟩⟩
    case cons.cons.cons.cons =>
      cases hvalue
      rw [decodeBody, EraseStatus.ofByte?_eq_none_iff.mpr h]
    all_goals simp [frameLength] at hlength
  · obtain ⟨rest, rfl⟩ := List.head?_eq_some_iff.mp (List.head?_eq_getElem?.trans hvalue)
    rw [decodeBody, VerifyStatus.ofByte?_eq_none_iff.mpr h]

/-- Reading does not see the bits without a meaning. -/
theorem decode_definedBits (f : List UInt8) : decode (definedBits f) = decode f := by
  rw [definedBits]
  split
  · next hhead =>
    obtain ⟨body, rfl⟩ := List.head?_eq_some_iff.mp hhead
    by_cases hlong : flagsOffset ≤ body.length
    · match body, hlong with
      | s0 :: s1 :: s2 :: s3 :: manufacturer :: deviceType :: p0 :: p1 :: p2 :: e0 :: e1 :: e2 ::
          flags :: rest, _ =>
        simp [flagsOffset, List.modify_succ_cons, List.modify_zero_cons, decode_cons, decodeBody]
    · rw [List.modify_eq_self (show (_ :: body).length ≤ flagsOffset from Nat.lt_of_not_le hlong)]
  · rfl

theorem definedBits_of_ne {op : Opcode} (h : op ≠ .listDevice) (body : List UInt8) :
    definedBits (op.toByte :: body) = op.toByte :: body := by
  rw [definedBits, if_neg]
  intro hhead
  exact h (Opcode.toByte_inj.mp (Option.some.inj hhead))

/-- An encoding has no bits without a meaning. -/
theorem definedBits_encode (r : Response) : definedBits r.encode = r.encode := by
  by_cases hlisted : r.opcode = .listDevice
  · cases r with
    | listDevice info =>
      simp [definedBits, encode, body, opcode, flagsOffset, LittleEndian.encode,
        PageNumber.toBytes_eq, DeviceFlags.toByte_and_definedMask]
    | _ => cases hlisted
  · exact definedBits_of_ne hlisted r.body

/-! ## Reading a frame -/

/-- Opcodes that have no response: those of a read and of a write, and what is past the last one. -/
def HasNoResponse (b : UInt8) : Prop :=
  b = Opcode.read.toByte ∨ b = Opcode.write.toByte ∨ 7 < b

/-- What reading a frame comes to. -/
inductive Reading (f : List UInt8) : Except FrameError Response → Prop where
  /-- There is no opcode. -/
  | empty (h : f = []) : Reading f (.error .empty)
  /-- The opcode has no response. -/
  | unknown {b : UInt8} (hhead : f.head? = some b) (h : HasNoResponse b) :
      Reading f (.error (.unknownOpcode b))
  /-- The frame is shorter than the frames of its opcode. -/
  | truncated {op : Opcode} (hhead : f.head? = some op.toByte) (h : f.length < frameLength op) :
      Reading f (.error (.truncated op.toByte f.length (frameLength op)))
  /-- The frame of an erase or a verification is long enough, and its status has no meaning. -/
  | invalid {op : Opcode} {v : UInt8} (hop : op = .erase ∨ op = .verify)
      (hhead : f.head? = some op.toByte) (hlength : frameLength op ≤ f.length)
      (hvalue : f[1]? = some v) (h : 2 < v) :
      Reading f (.error (.invalidField op.toByte v))
  /-- Up to the bits without a meaning, the frame begins with the encoding of a response. -/
  | response {r : Response} (h : r.encode <+: definedBits f) : Reading f (.ok r)

theorem decode_of_no_response {b : UInt8} (h : HasNoResponse b) (body : List UInt8) :
    decode (b :: body) = .error (.unknownOpcode b) := by
  rcases h with rfl | rfl | h
  · rw [decode_cons, decodeBody]
  · rw [decode_cons, decodeBody]
  · rw [decode, Opcode.ofByte?_eq_none_iff.mpr h]

/-- One case for each way through the reader. -/
theorem reading_decodeBody (op : Opcode) (body : List UInt8) :
    Reading (op.toByte :: body) (decodeBody op body) := by
  by_cases hlong : frameLength op ≤ body.length + 1
  · match op, body, hlong with
    | .read, rest, _ => exact .unknown rfl (.inl rfl)
    | .write, rest, _ => exact .unknown rfl (.inr (.inl rfl))
    | .targetDevice, rest, _ => exact .response (r := .targetDevice) ⟨rest, rfl⟩
    | .resetTarget, rest, _ => exact .response (r := .resetTarget) ⟨rest, rfl⟩
    | .deviceCount, internal :: external :: rest, _ =>
      exact .response (r := .deviceCount internal external) ⟨rest, rfl⟩
    | .listDevice, s0 :: s1 :: s2 :: s3 :: manufacturer :: deviceType :: p0 :: p1 :: p2 :: e0 ::
        e1 :: e2 :: flags :: rest, _ =>
      refine .response ⟨rest, ?_⟩
      have hsize : (UInt32.ofNat (LittleEndian.decode [s0, s1, s2, s3])).toNat =
          LittleEndian.decode [s0, s1, s2, s3] :=
        UInt32.toNat_ofNat_of_lt' (LittleEndian.decode_lt [s0, s1, s2, s3])
      have hbytes := LittleEndian.encode_decode [s0, s1, s2, s3]
      simp only [List.length_cons, List.length_nil] at hbytes
      simp [definedBits, flagsOffset, encode, Response.body, Response.opcode, hsize, hbytes,
        DeviceFlags.toByte_ofByte]
    | .erase, s :: a :: b :: c :: rest, hlength =>
      rw [decodeBody]
      cases hstatus : EraseStatus.ofByte? s with
      | none =>
        exact .invalid (.inl rfl) rfl hlength rfl (EraseStatus.ofByte?_eq_none_iff.mp hstatus)
      | some status =>
        refine .response ⟨rest, ?_⟩
        have hbyte := EraseStatus.toByte_of_ofByte? hstatus
        simp [definedBits_of_ne, encode, Response.body, Response.opcode, hbyte]
    | .verify, s :: rest, hlength =>
      rw [decodeBody]
      cases hstatus : VerifyStatus.ofByte? s with
      | none =>
        exact .invalid (.inr rfl) rfl hlength rfl (VerifyStatus.ofByte?_eq_none_iff.mp hstatus)
      | some status =>
        refine .response ⟨rest, ?_⟩
        have hbyte := VerifyStatus.toByte_of_ofByte? hstatus
        simp [definedBits_of_ne, encode, Response.body, Response.opcode, hbyte]
  · have hshort := Nat.lt_of_not_le hlong
    rw [decodeBody_of_short hshort]
    exact .truncated rfl hshort

theorem reading_decode (f : List UInt8) : Reading f (decode f) := by
  cases f with
  | nil => exact .empty rfl
  | cons b body =>
    rcases Opcode.known_or_gt b with ⟨op, rfl⟩ | hunknown
    · rw [decode_cons]
      exact reading_decodeBody op body
    · have hnone : HasNoResponse b := .inr (.inr hunknown)
      rw [decode_of_no_response hnone]
      exact .unknown rfl hnone

/-- Reading a frame comes to what the frame is. -/
theorem Reading.decode_eq {f : List UInt8} {outcome : Except FrameError Response}
    (h : Reading f outcome) : decode f = outcome := by
  cases h with
  | empty h =>
    rw [h]
    rfl
  | unknown hhead h =>
    obtain ⟨body, rfl⟩ := List.head?_eq_some_iff.mp hhead
    exact decode_of_no_response h body
  | truncated hhead h =>
    obtain ⟨body, rfl⟩ := List.head?_eq_some_iff.mp hhead
    rw [decode_cons, decodeBody_of_short h]
    rfl
  | invalid hop hhead hlength hvalue h =>
    obtain ⟨body, rfl⟩ := List.head?_eq_some_iff.mp hhead
    rw [decode_cons]
    exact decodeBody_of_invalid hop hlength hvalue h
  | response h =>
    obtain ⟨rest, hrest⟩ := h
    rw [← decode_definedBits, ← hrest]
    exact decode_encode _ rest

theorem decode_eq_iff {f : List UInt8} {outcome : Except FrameError Response} :
    decode f = outcome ↔ Reading f outcome :=
  ⟨fun h => h ▸ reading_decode f, Reading.decode_eq⟩

end Response

end FlashProgrammer.Protocol

import FlashProgrammer.Bench.Rig
import FlashProgrammer.Proofs.Programmer.Reachable
import FlashProgrammer.Proofs.Protocol.ResponseFrames

/-!
# The frames the host is answered with

What the programmer answers are responses as the host reads them: the frame goes out
as it was encoded, and the host reads the same response from it.

A response carries its numbers in fields of 24 and 32 bits, and the programmer counts
without a bound.  `Says s r response` states what each field is to mean for the request
`r` in the state `s`, in numbers that are not cut.  That they all fit is what
`WellFormed` is needed for: pages, blocks and ranges come from requests of three bytes
each, a range goes on below its last block, and an identified chip has a capacity of
32 bits.  Only an erase block that does not fit is announced as the largest that does.
-/

namespace FlashProgrammer.Programmer

open Flash Protocol Usb Trace
open Bench (Rig)

/-! ## What the fields mean -/

/-- The block or page that the answer to an erase request is about. -/
inductive Concerns (s : Programmer) (operation : EraseOperation) (first last : Nat) :
    Nat → Prop where
  /-- The block that the request names first. -/
  | named : Concerns s operation first last first
  /-- The first of the blocks that the request stands for. -/
  | begun {b e : Nat} (hspan : span? first last operation = some (b, e)) :
      Concerns s operation first last b
  /-- What is outstanding. -/
  | outstanding : Concerns s operation first last s.job.position
  /-- The next block of the range that is being erased. -/
  | next {current next final : Nat} (hjob : s.job = .erase current next final)
      (hnext : next ≤ final) : Concerns s operation first last next

/-- What a response says to a request. -/
inductive Says (s : Programmer) : Request → Response → Prop where
  | deviceCount : Says s .deviceCount (.deviceCount Slot.internalCount Slot.externalCount)
  | missing {number bus : UInt8} (hslot : Slot.find? number bus = none) :
      Says s (.listDevice number bus) (.listDevice .missing)
  | listed {number bus : UInt8} {slot : Slot} {g : Geometry} {info : DeviceInfo}
      (hslot : Slot.find? number bus = some slot) (hg : Identified g)
      (hsize : info.size.toNat = g.capacity) (hmanufacturer : info.manufacturer = g.manufacturer)
      (hdeviceType : info.deviceType = g.deviceType) (hpage : info.pageSize.val = g.pageLength)
      (herase : info.eraseSize.val = min g.eraseSize PageNumber.max)
      (hflags : info.flags = provenanceFlags g.provenance) :
      Says s (.listDevice number bus) (.listDevice info)
  | targetDevice {number bus : UInt8} : Says s (.targetDevice number bus) .targetDevice
  | erase {operation : EraseOperation} {first last current : PageNumber} {status : EraseStatus}
      (h : Concerns s operation first.val last.val current.val) :
      Says s (.erase operation first last) (.erase status current)
  | verify {status : VerifyStatus} : Says s .verify (.verify status)
  | resetTarget : Says s .resetTarget .resetTarget

/-! ## What the numbers are -/

theorem WellFormed.position_lt {s : Programmer} (h : s.WellFormed) :
    s.job.position < addressReach := by
  cases hjob : s.job with
  | idle => decide
  | erase current next last =>
    obtain ⟨_, _, _, _, hle, _, hreach⟩ := h.erasing _ _ _ hjob
    exact Nat.lt_of_le_of_lt hle hreach
  | write page =>
    obtain ⟨_, _, _, _, hreach⟩ := h.writing _ hjob
    exact hreach

/-- What an erase request is answered about has a number of three bytes. -/
theorem Concerns.lt {s : Programmer} (hs : s.WellFormed) {operation : EraseOperation}
    {first last : PageNumber} {n : Nat} (h : Concerns s operation first.val last.val n) :
    n < addressReach := by
  cases h with
  | named => exact first.isLt
  | begun hspan =>
    cases operation with
    | all =>
      cases hspan
      decide
    | page =>
      cases hspan
      exact first.isLt
    | pageRange =>
      cases hspan
      exact first.isLt
    | status => cases hspan
  | outstanding => exact hs.position_lt
  | next hjob hnext =>
    obtain ⟨_, _, _, _, _, _, hreach⟩ := hs.erasing _ _ _ hjob
    exact Nat.lt_of_le_of_lt hnext hreach

/-- The number in an answer to an erase request is not cut. -/
theorem Concerns.told {s : Programmer} (hs : s.WellFormed) {operation : EraseOperation}
    {first last : PageNumber} {n : Nat} (h : Concerns s operation first.val last.val n)
    (status : EraseStatus) : Says s (.erase operation first last) (eraseResponse status n) := by
  refine .erase ?_
  rw [PageNumber.val_ofNat_of_lt (h.lt hs)]
  exact h

/-- The numbers in what is said of an identified chip are not cut, or announced to be. -/
theorem told_deviceInfo {s : Programmer} {number bus : UInt8} {slot : Slot} {g : Geometry}
    (hslot : Slot.find? number bus = some slot) (hg : Identified g) :
    Says s (.listDevice number bus) (.listDevice (deviceInfo g)) := by
  refine .listed hslot hg ?_ rfl rfl ?_ ?_ rfl
  · have hcapacity : g.capacity ≤ 0xFFFFFFFF := hg.capacity_le
    exact UInt32.toNat_ofNat_of_lt' (show g.capacity < 2 ^ 32 by omega)
  · have hpage := g.pageLength_le
    exact PageNumber.val_ofNat_of_lt (by omega)
  · have hmax : min g.eraseSize PageNumber.max ≤ 0xFFFFFF := Nat.min_le_right _ _
    exact PageNumber.val_ofNat_of_lt (by omega)

/-- Every answer says what its request asks for. -/
theorem Serves.told {s s' : Programmer} {r : Request} {data : List UInt8} {ts : List Transaction}
    {response : Response} (h : Serves s r data ts (some response) s') (hs : s.WellFormed) :
    Says s r response := by
  cases h with
  | deviceCount => exact .deviceCount
  | listedNone hslot => exact .missing hslot
  | listed hslot hg _ => exact told_deviceInfo hslot hg
  | targetedNone _ => exact .targetDevice
  | targeted _ _ _ => exact .targetDevice
  | eraseUntargeted _ => exact Concerns.named.told hs _
  | statusUnread _ _ => exact Concerns.outstanding.told hs _
  | statusBusy _ _ => exact Concerns.outstanding.told hs _
  | statusDone _ _ _ => exact Concerns.outstanding.told hs _
  | statusNext _ _ hjob hnext _ => exact (Concerns.next hjob hnext).told hs _
  | statusNextFailed _ _ hjob hnext _ => exact (Concerns.next hjob hnext).told hs _
  | @eraseOutstanding _ _ _ _ _ _ active _ _ hjob =>
    have hposition : s.job.position = active := by
      rw [Job.position, hjob, Option.getD_some]
    rw [← hposition]
    exact Concerns.outstanding.told hs _
  | eraseOutOfRange _ _ _ _ => exact Concerns.named.told hs _
  | eraseStarted _ hspan _ _ _ _ => exact (Concerns.begun hspan).told hs _
  | eraseFailed _ hspan _ _ _ _ => exact (Concerns.begun hspan).told hs _
  | verifyNothing _ => exact .verify
  | verifyRead _ _ _ => exact .verify
  | verifyUnread _ _ _ => exact .verify
  | resetTarget => exact .resetTarget

/-! ## What goes out -/

section Answering

variable {ω : Type} [Spi.Bus ω] [ResetLine ω]

/-- Only a read and a write are not answered with a response. -/
theorem replyTo_eq_none_iff (r : Request) (s : Station ω) :
    replyTo r s = none ↔ r.opcode = .read ∨ r.opcode = .write := by
  cases r <;> simp [replyTo, answer, Request.opcode]

variable [Controller ω]

/-- What is answered goes out in one frame. -/
theorem serve_of_replyTo {r : Request} {s : Station ω} {response : Response}
    (h : replyTo r s = some response) :
    (serve r s).2 =
      (Link.write flashEndpoint response.encode ⟨s.2.device, (s.1.answer r s.2.hw).2.2⟩).2 := by
  have hserve : serve r s = respond r s := by
    cases r with
    | read page => cases h
    | write page count => cases h
    | _ => rfl
  rw [replyTo] at h
  rw [hserve, respond]
  generalize s.1.answer r s.2.hw = answered at h ⊢
  obtain ⟨_, programmer, hw⟩ := answered
  cases h
  rfl

end Answering

/-- A response and its frame determine each other up to the bits without a meaning, every other
frame is refused for one reason, and the host reads what the programmer answered.

A response is read back from the front of its frame whatever follows.  A frame is read as a response
exactly if the response is written back as the front of the frame, with the bits without a meaning
cleared.  Otherwise it is empty, its opcode has no response, it is shorter than the frames of its
opcode, or it is the frame of an erase or a verification with a status above 2.  In every reachable
state each request but a read and a write is answered with one frame, from which the host reads
the response that was meant, with every number in full. -/
theorem response_codec :
    (∀ (r : Response) (rest : List UInt8), r.encode.length = Response.frameLength r.opcode ∧
      Response.definedBits r.encode = r.encode ∧ Response.decode (r.encode ++ rest) = .ok r) ∧
    (∀ f r, Response.decode f = .ok r ↔
      r.encode = (Response.definedBits f).take (Response.frameLength r.opcode)) ∧
    (∀ f, Response.decode f = .error .empty ↔ f = []) ∧
    (∀ f b, Response.decode f = .error (.unknownOpcode b) ↔
      f.head? = some b ∧ (b = 4 ∨ b = 5 ∨ 7 < b)) ∧
    (∀ f b length expected, Response.decode f = .error (.truncated b length expected) ↔
      ∃ op : Opcode, f.head? = some op.toByte ∧ f.length < Response.frameLength op ∧
        b = op.toByte ∧ length = f.length ∧ expected = Response.frameLength op) ∧
    (∀ f b v, Response.decode f = .error (.invalidField b v) ↔
      f.head? = some b ∧ (b = 3 ∧ 5 ≤ f.length ∨ b = 6 ∧ 2 ≤ f.length) ∧
        f[1]? = some v ∧ 2 < v) ∧
    ∀ {ω : Type} [Spi.Bus ω] [ResetLine ω] [Controller ω] (s : Station ω) (r : Request),
      Reachable s.1 →
      (replyTo r s = none ↔ r.opcode = .read ∨ r.opcode = .write) ∧
      ∀ response, replyTo r s = some response →
        Says s.1 r response ∧
        ∃ hw frame, (serve r s).2 = (Link.write flashEndpoint frame ⟨s.2.device, hw⟩).2 ∧
          ∀ rest, Response.decode (frame ++ rest) = .ok response := by
  refine ⟨fun r rest => ⟨r.length_encode, r.definedBits_encode, r.decode_encode rest⟩,
    fun f r => ?_, fun f => ?_, fun f b => ?_, fun f b length expected => ?_, fun f b v => ?_,
    fun s r hs => ⟨replyTo_eq_none_iff r s, fun response hreply => ⟨?_, ?_⟩⟩⟩
  · rw [Response.decode_eq_iff, ← r.length_encode, ← List.prefix_iff_eq_take]
    exact ⟨fun | .response h => h, .response⟩
  · rw [Response.decode_eq_iff]
    exact ⟨fun | .empty h => h, .empty⟩
  · rw [Response.decode_eq_iff]
    exact ⟨fun | .unknown hhead h => ⟨hhead, h⟩, fun ⟨hhead, h⟩ => .unknown hhead h⟩
  · rw [Response.decode_eq_iff]
    constructor
    · rintro (_ | _ | ⟨hhead, h⟩ | _ | _)
      exact ⟨_, hhead, h, rfl, rfl, rfl⟩
    · rintro ⟨op, hhead, h, rfl, rfl, rfl⟩
      exact .truncated hhead h
  · rw [Response.decode_eq_iff]
    constructor
    · rintro (_ | _ | _ | ⟨rfl | rfl, hhead, hlength, hvalue, h⟩ | _)
      · exact ⟨hhead, .inl ⟨rfl, hlength⟩, hvalue, h⟩
      · exact ⟨hhead, .inr ⟨rfl, hlength⟩, hvalue, h⟩
    · rintro ⟨hhead, ⟨rfl, hlength⟩ | ⟨rfl, hlength⟩, hvalue, h⟩
      · exact .invalid (.inl rfl) hhead hlength hvalue h
      · exact .invalid (.inr rfl) hhead hlength hvalue h
  · have hserves := hs.serves r
    rw [hreply] at hserves
    exact hserves.told hs.wellFormed
  · exact ⟨_, response.encode, serve_of_replyTo hreply, response.decode_encode⟩

/-- A programmer that was told to erase blocks 1 and 2 of a part of 1 MiB and has seen the first of
them end. -/
def rangeHalfErased : Station Rig :=
  let poll := serve (.erase .status (.ofNat 0) (.ofNat 0))
  poll (poll (serve (.erase .pageRange (.ofNat 1) (.ofNat 2))
    (Rig.targeting { id := [0xEF, 0x40, 0x14], size := 0x100000 })))

/-- The host is told that block 2 is being erased.  From a frame with all flags of a listed chip set
it reads those that have a meaning. -/
theorem response_codec_range :
    Reachable rangeHalfErased.1 ∧
    Says rangeHalfErased.1 (.erase .status (.ofNat 0) (.ofNat 0))
      (.erase .inProgress ⟨2, by decide⟩) ∧
    Response.decode ([0x03, 0x00, 0x02, 0x00, 0x00] ++ [0xAA]) =
      .ok (.erase .inProgress ⟨2, by decide⟩) ∧
    Response.decode [0x01, 0, 0, 0x10, 0, 0xEF, 0x40, 0, 1, 0, 0, 0x10, 0, 0xFF] =
      .ok (.listDevice ⟨0x100000, 0xEF, 0x40, ⟨0x100, by decide⟩, ⟨0x1000, by decide⟩,
        ⟨true, true, true⟩⟩) := by
  have hreachable : Reachable rangeHalfErased.1 :=
    .served _ _ (.served _ _ (.served _ _ (.served _ _ (.start {}))))
  have hreply : replyTo (.erase .status (.ofNat 0) (.ofNat 0)) rangeHalfErased =
      some (.erase .inProgress ⟨2, by decide⟩) := by
    decide +kernel
  obtain ⟨hround, hread, _, _, _, _, hanswer⟩ := response_codec
  obtain ⟨htold, _⟩ := (hanswer rangeHalfErased _ hreachable).2 _ hreply
  have hframe : (Response.erase .inProgress ⟨2, by decide⟩).encode =
      [0x03, 0x00, 0x02, 0x00, 0x00] := by
    decide
  refine ⟨hreachable, htold, ?_, (hread _ _).mpr (by decide)⟩
  rw [← hframe]
  exact (hround _ _).2.2

end FlashProgrammer.Programmer

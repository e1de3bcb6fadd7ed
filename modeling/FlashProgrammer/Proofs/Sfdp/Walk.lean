import FlashProgrammer.Proofs.Sfdp.Tables
import FlashProgrammer.Proofs.Trace.View

/-!
# The reads of a walk

A walk through a chip's description seen from the side of the reader: what it was asked, in order,
and what came of each read.

`Search` says how the parameter headers are gone through and `Walk` how the whole description is,
one constructor for each way to end.  Both are about the bytes that were read and not about what the
walk made of them: `tablePlace` and `tableSize` say which bytes of a parameter header name the
table.  `discover_exact` says that every walk with any reader is one of these ways.
-/

namespace FlashProgrammer.Sfdp

/-! ## Exchanges with a reader -/

/-- One read of a description: where, how many bytes, and what came of it. -/
structure Exchange where
  address : Nat
  length : Nat
  reply : Except Fault (List UInt8)

/-- Where a read was, and of how many bytes. -/
def Exchange.span (x : Exchange) : Nat × Nat := (x.address, x.length)

/-- A reader that keeps its exchanges, oldest first. -/
def logged {ω : Type} (read : Reader ω) : Reader (ω × List Exchange) :=
  fun address length w =>
    let (reply, hw) := read address length w.1
    (reply, hw, w.2 ++ [⟨address, length, reply⟩])

/-! ## What the bytes of a header say -/

/-- The letters SFDP. -/
def letters : List UInt8 := [0x53, 0x46, 0x44, 0x50]

/-- A header that a walk goes on from: it has the letters and is of major revision 1. -/
structure Opens (bs : List UInt8) : Prop where
  signed : bs.take 4 = letters
  major_eq : byteAt bs 5 = 1

/-- How many parameter headers follow a header: one more than its field says. -/
def followers (bs : List UInt8) : Nat := (byteAt bs 6).toNat + 1

/-- A parameter header of id 0xFF00 and major revision 1. -/
def PointsAtBasic (bs : List UInt8) : Prop :=
  byteAt bs 0 = 0x00 ∧ byteAt bs 7 = 0xFF ∧ byteAt bs 2 = 1

/-- Where the table begins that a parameter header points at: bytes 4 to 6, the lowest first. -/
def tablePlace (bs : List UInt8) : Nat :=
  (byteAt bs 4).toNat + 0x100 * (byteAt bs 5).toNat + 0x10000 * (byteAt bs 6).toNat

/-- How many bytes of that table are read: byte 3 gives its length in words of four bytes, and at
most 16 words are read. -/
def tableSize (bs : List UInt8) : Nat := 4 * min (byteAt bs 3).toNat 16

theorem signed_iff (bs : List UInt8) :
    LittleEndian.field bs 0 4 = signature ↔ bs.take 4 = letters := by
  show LittleEndian.decode (bs.take 4) = signature ↔ _
  constructor
  · intro h
    -- Fewer than four bytes make a number below the signature.
    have hlength : (bs.take 4).length = 4 := by
      refine Nat.le_antisymm (List.length_take_le 4 bs) (Nat.le_of_not_lt fun hshort => ?_)
      have hlt := Nat.lt_of_lt_of_le (LittleEndian.decode_lt (bs.take 4))
        (LittleEndian.bound_mono (Nat.le_of_lt_succ hshort))
      rw [h] at hlt
      exact absurd hlt (by decide)
    have hback := LittleEndian.encode_decode (bs.take 4)
    rw [hlength, h] at hback
    exact hback.symm
  · intro h
    rw [h]
    decide

theorem isBasic_iff (bs : List UInt8) :
    (ParameterHeader.parse bs).isBasic = true ↔ PointsAtBasic bs := by
  have hlow := (byteAt bs 0).toNat_lt
  have hhigh := (byteAt bs 7).toNat_lt
  simp only [ParameterHeader.isBasic, ParameterHeader.parse, basicTableId, LittleEndian.decode,
    PointsAtBasic, Bool.and_eq_true, beq_iff_eq, ← UInt8.toNat_inj, UInt8.reduceToNat]
  omega

theorem pointer_parse (bs : List UInt8) : (ParameterHeader.parse bs).pointer = tablePlace bs := by
  show LittleEndian.field bs 4 3 = tablePlace bs
  rw [field_succ, field_succ, field_succ]
  show (byteAt bs 4).toNat + 256 * ((byteAt bs 5).toNat + 256 * ((byteAt bs 6).toNat + 256 * 0)) = _
  rw [tablePlace]
  omega

theorem parse_of_signed {bs : List UInt8} (h : bs.take 4 = letters) :
    Header.parse bs = .ok ⟨byteAt bs 4, byteAt bs 5, followers bs⟩ :=
  if_pos ((signed_iff bs).mpr h)

theorem parse_of_unsigned {bs : List UInt8} (h : bs.take 4 ≠ letters) :
    Header.parse bs = .error .badSignature :=
  if_neg fun hsigned => h ((signed_iff bs).mp hsigned)

/-! ## The parameter headers -/

/-- The reads of parameter headers with these replies, after `k` headers that were read before. -/
def headerReads (k : Nat) (replies : List (Except Fault (List UInt8))) : List Exchange :=
  replies.mapIdx fun i reply => ⟨headerLength * (k + i + 1), headerLength, reply⟩

@[simp] theorem headerReads_nil (k : Nat) : headerReads k [] = [] := rfl

theorem headerReads_cons (k : Nat) (reply : Except Fault (List UInt8))
    (replies : List (Except Fault (List UInt8))) :
    headerReads k (reply :: replies) =
      ⟨headerLength * (k + 1), headerLength, reply⟩ :: headerReads (k + 1) replies := by
  simp only [headerReads, List.mapIdx_cons, Nat.add_zero, List.cons.injEq, true_and]
  refine congrArg (fun f => List.mapIdx f replies) (funext fun i => ?_)
  rw [Nat.add_right_comm k 1 i, Nat.add_assoc k i 1]

/-- How at most `n` parameter headers are gone through: the replies, and what came of it.  That is
the header that points at a basic table, byte by byte, if there is one. -/
inductive Search (n : Nat) : List (Except Fault (List UInt8)) → Except Refusal (List UInt8) → Prop
  /-- None of them points at a basic table. -/
  | unfound {passed : List (List UInt8)} (hpassed : ∀ bs ∈ passed, ¬PointsAtBasic bs)
      (hall : passed.length = n) : Search n (passed.map .ok) (.error .noBasicTable)
  /-- One could not be read, and none before it points at a basic table. -/
  | unread {passed : List (List UInt8)} (hpassed : ∀ bs ∈ passed, ¬PointsAtBasic bs)
      (hmore : passed.length < n) (e : Fault) :
      Search n (passed.map .ok ++ [.error e]) (.error (.read e))
  /-- One points at a basic table, and none before it does. -/
  | found {passed : List (List UInt8)} {bs : List UInt8}
      (hpassed : ∀ bs ∈ passed, ¬PointsAtBasic bs) (hmore : passed.length < n)
      (hbasic : PointsAtBasic bs) :
      Search n (passed.map .ok ++ [.ok bs]) (.ok bs)

/-- A header that does not point at a basic table is passed over. -/
theorem Search.pass {n : Nat} {replies : List (Except Fault (List UInt8))}
    {result : Except Refusal (List UInt8)} {bs : List UInt8} (hbs : ¬PointsAtBasic bs)
    (h : Search n replies result) : Search (n + 1) (.ok bs :: replies) result := by
  have hcons : ∀ {passed : List (List UInt8)}, (∀ b ∈ passed, ¬PointsAtBasic b) →
      ∀ b ∈ bs :: passed, ¬PointsAtBasic b :=
    fun hpassed => List.forall_mem_cons.mpr ⟨hbs, hpassed⟩
  cases h with
  | unfound hpassed hall => exact .unfound (hcons hpassed) (congrArg (· + 1) hall)
  | unread hpassed hmore e => exact .unread (hcons hpassed) (Nat.succ_lt_succ hmore) e
  | found hpassed hmore hbasic => exact .found (hcons hpassed) (Nat.succ_lt_succ hmore) hbasic

@[simp] theorem map_reply_headerReads (k : Nat) (replies : List (Except Fault (List UInt8))) :
    (headerReads k replies).map Exchange.reply = replies := by
  induction replies generalizing k with
  | nil => rfl
  | cons reply replies ih => rw [headerReads_cons, List.map_cons, ih]

theorem Search.length_le {n : Nat} {replies : List (Except Fault (List UInt8))}
    {result : Except Refusal (List UInt8)} (h : Search n replies result) :
    replies.length ≤ n := by
  cases h with
  | unfound _ hall => rw [List.length_map]; exact Nat.le_of_eq hall
  | unread _ hmore _ | found _ hmore _ =>
    rw [List.length_append, List.length_map]
    exact hmore

/-- A search fails with a fault exactly if one of the replies is that fault. -/
theorem Search.read_iff {n : Nat} {replies : List (Except Fault (List UInt8))}
    {result : Except Refusal (List UInt8)} (h : Search n replies result) (e : Fault) :
    result = .error (.read e) ↔ .error e ∈ replies := by
  cases h with
  | unfound _ _ => simp
  | unread _ _ e' => simp [eq_comm]
  | found _ _ _ => simp

/-- The last reply is the only one that can be a fault. -/
theorem Search.dropLast_ok {n : Nat} {replies : List (Except Fault (List UInt8))}
    {result : Except Refusal (List UInt8)} (h : Search n replies result) :
    ∀ reply ∈ replies.dropLast, reply.isOk := by
  have hpassed : ∀ (passed : List (List UInt8)), ∀ reply ∈ passed.map Except.ok,
      (reply : Except Fault (List UInt8)).isOk := by
    simp [Except.isOk, Except.toBool]
  cases h with
  | unfound _ _ => exact fun reply hreply => hpassed _ reply (List.dropLast_subset _ hreply)
  | unread _ _ _ | found _ _ _ =>
    rw [List.dropLast_concat]
    exact hpassed _

/-- A search that found a header got every reply. -/
theorem Search.all_ok {n : Nat} {replies : List (Except Fault (List UInt8))}
    {header : List UInt8} (h : Search n replies (.ok header)) :
    ∀ reply ∈ replies, reply.isOk := by
  intro reply hreply
  cases reply with
  | ok bs => rfl
  | error e => exact nomatch (h.read_iff e).mpr hreply

/-! ## The whole description -/

/-- The read of the table that a parameter header points at. -/
def tableRead (header : List UInt8) (reply : Except Fault (List UInt8)) : Exchange :=
  ⟨tablePlace header, tableSize header, reply⟩

/-- How a walk goes: the reads, and what came of it. -/
inductive Walk : List Exchange → Except Refusal Parameters → Prop
  /-- The header could not be read. -/
  | unread (e : Fault) : Walk [⟨0, headerLength, .error e⟩] (.error (.read e))
  /-- The header has other letters. -/
  | unsigned {bs : List UInt8} (hletters : bs.take 4 ≠ letters) :
      Walk [⟨0, headerLength, .ok bs⟩] (.error .badSignature)
  /-- The header is of another major revision. -/
  | unsupported {bs : List UInt8} (hletters : bs.take 4 = letters) (hmajor : byteAt bs 5 ≠ 1) :
      Walk [⟨0, headerLength, .ok bs⟩] (.error (.unsupportedRevision (byteAt bs 5)))
  /-- No parameter header points at a basic table, or one of them could not be read. -/
  | unfound {bs : List UInt8} {replies : List (Except Fault (List UInt8))} {e : Refusal}
      (hopens : Opens bs) (hsearch : Search (followers bs) replies (.error e)) :
      Walk (⟨0, headerLength, .ok bs⟩ :: headerReads 0 replies) (.error e)
  /-- The basic table could not be read. -/
  | tableUnread {bs : List UInt8} {replies : List (Except Fault (List UInt8))}
      {header : List UInt8} (hopens : Opens bs)
      (hsearch : Search (followers bs) replies (.ok header)) (e : Fault) :
      Walk (⟨0, headerLength, .ok bs⟩ :: headerReads 0 replies ++ [tableRead header (.error e)])
        (.error (.read e))
  /-- The basic table was read. -/
  | described {bs : List UInt8} {replies : List (Except Fault (List UInt8))}
      {header : List UInt8} (hopens : Opens bs)
      (hsearch : Search (followers bs) replies (.ok header)) (table : List UInt8) :
      Walk (⟨0, headerLength, .ok bs⟩ :: headerReads 0 replies ++ [tableRead header (.ok table)])
        (Parameters.parse table)

/-- The replies that a walk got, in order. -/
def repliesOf (log : List Exchange) : List (Except Fault (List UInt8)) := log.map Exchange.reply

section Walk

variable {log : List Exchange} {result : Except Refusal Parameters}

/-- The header at address 0 is read first. -/
theorem Walk.head_span (h : Walk log result) :
    log.head?.map Exchange.span = some (0, headerLength) := by
  cases h <;> rfl

/-- A walk fails with a fault exactly if one of the replies is that fault. -/
theorem Walk.read_iff (h : Walk log result) (e : Fault) :
    result = .error (.read e) ↔ .error e ∈ repliesOf log := by
  cases h with
  | unread e' => simp [repliesOf, eq_comm]
  | unsigned _ | unsupported _ _ => simp [repliesOf]
  | @unfound _ _ refusal _ hsearch =>
    have hread := hsearch.read_iff e
    simpa [repliesOf] using hread
  | tableUnread _ hsearch e' =>
    have hread := hsearch.read_iff e
    simp_all [repliesOf, tableRead, eq_comm]
  | described _ hsearch table =>
    have hread := hsearch.read_iff e
    have hparse : Parameters.parse table ≠ .error (.read e) :=
      fun h => nomatch Parameters.eq_of_parse_eq_error h
    simp_all [repliesOf, tableRead]

/-- The last reply is the only one that can be a fault. -/
theorem Walk.dropLast_ok (h : Walk log result) :
    ∀ reply ∈ (repliesOf log).dropLast, reply.isOk := by
  cases h with
  | unread _ | unsigned _ | unsupported _ _ => simp [repliesOf]
  | @unfound bs replies _ _ hsearch =>
    have hreplies : repliesOf (⟨0, headerLength, .ok bs⟩ :: headerReads 0 replies) =
        .ok bs :: replies := by
      simp [repliesOf]
    rw [hreplies]
    cases replies with
    | nil => simp
    | cons reply rest =>
      rw [List.dropLast_cons_cons]
      exact List.forall_mem_cons.mpr ⟨rfl, hsearch.dropLast_ok⟩
  | tableUnread _ hsearch _ | described _ hsearch _ =>
    rw [repliesOf, List.map_append, List.map_singleton, List.dropLast_concat, List.map_cons,
      map_reply_headerReads]
    exact List.forall_mem_cons.mpr ⟨rfl, hsearch.all_ok⟩

/-- A header, at most 256 parameter headers and a table are read. -/
theorem Walk.length_le (h : Walk log result) : log.length ≤ 258 := by
  have hsearched : ∀ {bs replies} {found : Except Refusal (List UInt8)},
      Search (followers bs) replies found → (headerReads 0 replies).length ≤ 256 := by
    intro bs replies found hsearch
    have hle := hsearch.length_le
    have hbyte := (byteAt bs 6).toNat_lt
    rw [followers] at hle
    rw [headerReads, List.length_mapIdx]
    omega
  cases h with
  | unread _ | unsigned _ | unsupported _ _ => simp
  | unfound _ hsearch =>
    have hle := hsearched hsearch
    rw [List.length_cons]
    omega
  | tableUnread _ hsearch _ | described _ hsearch _ =>
    have hle := hsearched hsearch
    rw [List.length_append, List.length_cons, List.length_singleton]
    omega

end Walk

section Walking

variable {ω : Type} (read : Reader ω)

theorem findBasic_search (n k address : Nat) (haddress : address = headerLength * (k + 1))
    (w : ω) (log : List Exchange) :
    ∃ replies found, Search n replies found ∧
      (findBasic (logged read) n address (w, log)).1 = found.map ParameterHeader.parse ∧
      (findBasic (logged read) n address (w, log)).2.2 = log ++ headerReads k replies := by
  have hnone : ∀ bs ∈ ([] : List (List UInt8)), ¬PointsAtBasic bs := nofun
  induction n generalizing k address w log with
  | zero => exact ⟨[], _, .unfound hnone rfl, rfl, by simp [findBasic]⟩
  | succ n ih =>
    simp only [findBasic, logged]
    generalize read address headerLength w = answered
    obtain ⟨e | bs, w'⟩ := answered
    · exact ⟨[.error e], _, .unread hnone (Nat.succ_pos n) e, rfl,
        by simp [headerReads_cons, haddress]⟩
    · by_cases hbasic : PointsAtBasic bs
      · simp only [(isBasic_iff bs).mpr hbasic, if_true]
        exact ⟨[.ok bs], _, .found hnone (Nat.succ_pos n) hbasic, rfl,
          by simp [headerReads_cons, haddress]⟩
      · simp only [mt (isBasic_iff bs).mp hbasic]
        obtain ⟨replies, found, hsearch, hfound, hlog⟩ :=
          ih (k + 1) (address + headerLength) (congrArg (· + headerLength) haddress) w'
            (log ++ [⟨address, headerLength, .ok bs⟩])
        refine ⟨.ok bs :: replies, found, hsearch.pass hbasic, hfound, ?_⟩
        rw [headerReads_cons, ← haddress]
        simpa using hlog

theorem discover_walk (w : ω) :
    Walk (discover (logged read) (w, [])).2.2 (discover (logged read) (w, [])).1 := by
  simp only [discover, logged]
  generalize read 0 headerLength w = answered
  obtain ⟨e | bs, w'⟩ := answered
  · exact .unread e
  · by_cases hletters : bs.take 4 = letters
    · simp only [parse_of_signed hletters]
      by_cases hmajor : byteAt bs 5 = 1
      · obtain ⟨replies, sought, hsearch, hfound, hlog⟩ :=
          findBasic_search read (followers bs) 0 headerLength rfl w'
            [⟨0, headerLength, .ok bs⟩]
        simp only [hmajor, if_true, List.nil_append]
        generalize findBasic (logged read) (followers bs) headerLength _ = found at hfound hlog ⊢
        obtain ⟨outcome, w'', log⟩ := found
        obtain rfl : outcome = sought.map ParameterHeader.parse := hfound
        obtain rfl := hlog
        cases sought with
        | error e => exact .unfound ⟨hletters, hmajor⟩ hsearch
        | ok header =>
          simp only [Except.map, readTable, logged, pointer_parse]
          generalize read (tablePlace header) _ w'' = answered
          obtain ⟨e | table, w₃⟩ := answered
          · exact .tableUnread ⟨hletters, hmajor⟩ hsearch e
          · exact .described ⟨hletters, hmajor⟩ hsearch table
      · simp only [hmajor, if_false]
        exact .unsupported hletters hmajor
    · simp only [parse_of_unsigned hletters]
      exact .unsigned hletters

end Walking

/-- What is read of a description, and what comes of it.

For every reader, whatever it answers and however it fails.  The reads and the result are those of
one of the ways of `Walk`: the header at address 0, the parameter headers from address 8 on up to
the first that points at a basic table, and that table once.  The result says which of them it was:
it is a fault exactly if a read failed with that fault, and after a read that failed there is none. -/
theorem discover_exact {ω : Type} (read : Reader ω) (w : ω) :
    let walked := discover (logged read) (w, [])
    let result := walked.1
    let log := walked.2.2
    (result, walked.2.1) = discover read w ∧
    Walk log result ∧
    log.head?.map Exchange.span = some (0, headerLength) ∧
    (∀ reply ∈ (repliesOf log).dropLast, reply.isOk) ∧
    (∀ e, result = .error (.read e) ↔ .error e ∈ repliesOf log) ∧
    log.length ≤ 258 := by
  intro walked result log
  have hwalk : Walk log result := discover_walk read w
  have halike : Flash.ReadsAlike Prod.fst read (logged read) := fun _ _ _ => rfl
  have hsame : discover read w = (result, walked.2.1) := Flash.discover_view halike (w, [])
  exact ⟨hsame.symm, hwalk, hwalk.head_span, hwalk.dropLast_ok, hwalk.read_iff, hwalk.length_le⟩

-- The second parameter header of three points at the table, and the third is not read.
example :
    let basic := [0x00, 0x06, 0x01, 0x02, 0x20, 0x00, 0x00, 0xFF]
    let image : Bench.SfdpImage :=
      { bytes := [0x53, 0x46, 0x44, 0x50, 0x06, 0x01, 0x02, 0xFF] ++ List.replicate 8 0xFF ++ basic ++
          basic ++ [0xE5, 0x20, 0xFF, 0xFF, 0x19, 0x00, 0x00, 0x80] }
    (discover Bench.SfdpImage.read image).1 = .ok ⟨0x2000000, 0x20, 0x1000, 0x100⟩ ∧
      (discover Bench.SfdpImage.read image).2.reads.toList = [(0, 8), (8, 8), (16, 8), (0x20, 8)] := by
  constructor <;> rfl

end FlashProgrammer.Sfdp

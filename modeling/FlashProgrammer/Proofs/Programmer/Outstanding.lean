import FlashProgrammer.Proofs.Programmer.Isolation

/-!
# Outstanding operations

A chip that is at work ignores everything but status reads.  What keeps the programmer
from starting an operation on such a chip is only its own memory of the one that is
outstanding, and targeting forgets that.

`Overlooks s chips` is the state in which this shows: the target is at work and nothing
is outstanding.  `outstanding_exact` says that an operation reaches a chip at work
exactly in that state, that the chip then ignores it while the host is told that it
runs, and that the only way into the state is to target a chip that is at work.
-/

namespace FlashProgrammer.Bench

open Flash

/-! ## A chip at work -/

namespace NorFlash

/-- At the end of a transaction a chip at work changes nothing. -/
theorem finish_of_isBusy {c : NorFlash} (h : c.isBusy = true) (sent : List UInt8) :
    c.finish sent = c := by
  cases sent with
  | nil => rfl
  | cons opcode rest =>
    by_cases hstatus : opcode = 0x05
    · subst hstatus
      exact finish_read c rest (by decide)
    · simp [finish, h, hstatus]

theorem size_finish (c : NorFlash) (sent : List UInt8) : (c.finish sent).size = c.size := by
  simp only [finish, modify, start]
  repeat' split
  all_goals rfl

/-- Whether or not it brought the work of the chip on, a transaction changes the memory at its
end. -/
theorem memory_told (c : NorFlash) (sent : List UInt8) :
    (c.told sent).size = c.size ∧ (c.told sent).cells = (c.finish sent).cells := by
  rw [told_eq]
  split
  · next hstatus =>
    have hfinish : c.finish sent = c := by
      cases sent with
      | nil => rfl
      | cons opcode rest =>
        obtain rfl : opcode = 0x05 := by simpa using hstatus
        exact finish_read c rest (by decide)
    rw [hfinish]
    split <;> exact ⟨rfl, rfl⟩
  · exact ⟨c.size_finish sent, rfl⟩

/-- A chip at rest takes the write enable. -/
theorem told_writeEnable (c : NorFlash) :
    c.told [0x06] = if c.isBusy then c else { c with writable := true } := by
  rw [told_eq, if_neg (by decide)]
  cases hbusy : c.isBusy with
  | true => exact finish_of_isBusy hbusy _
  | false => simp [finish, hbusy]

/-- Reading sets no chip to work. -/
theorem isBusy_of_told {c : NorFlash} {sent : List UInt8}
    (h : ∀ opcode, sent.head? = some opcode → opcode ∈ Trace.Transaction.readOpcodes)
    (hbusy : (c.told sent).isBusy = true) : c.isBusy = true := by
  rw [told_eq, finish_of_reads c h] at hbusy
  split at hbusy
  · split at hbusy
    · simp only [isBusy, Bool.or_eq_true, decide_eq_true_eq] at hbusy ⊢
      exact hbusy.imp_right fun h => Nat.lt_of_lt_of_le h (Nat.sub_le _ _)
    · exact hbusy
  · exact hbusy

/-- Reading keeps what a chip is once it is at rest. -/
theorem ready_told {c : NorFlash} {sent : List UInt8}
    (h : ∀ opcode, sent.head? = some opcode → opcode ∈ Trace.Transaction.readOpcodes) :
    (c.told sent).ready = c.ready := by
  rw [told_eq, finish_of_reads c h]
  split
  · split <;> rfl
  · rfl

/-- A transaction that reads something other than the status leaves a chip alone. -/
theorem told_of_reads {c : NorFlash} {sent : List UInt8}
    (h : ∀ opcode, sent.head? = some opcode → opcode ∈ Trace.Transaction.readOpcodes)
    (hstatus : sent.head? ≠ some 0x05) : c.told sent = c := by
  rw [told_eq, if_neg hstatus, finish_of_reads c h]

end NorFlash

/-! ## Reading -/

/-- A chip that is at work after it was read was at work before. -/
theorem Plays.isBusy_of_reads {chips chips' : Chips} {ts : List Trace.Transaction} {slot : Slot}
    {c : NorFlash} (h : Plays chips ts chips') (hreads : ∀ t ∈ ts, t.modifies = false)
    (hc : chips'.get slot = some c) (hbusy : c.isBusy = true) :
    ∃ b, chips.get slot = some b ∧ b.isBusy = true := by
  induction h with
  | stop chips => exact ⟨c, hc, hbusy⟩
  | @hear _ _ t _ _ _ ih =>
    obtain ⟨b, hb, hbusy⟩ := ih (fun t ht => hreads t (List.mem_cons_of_mem _ ht)) hc
    rw [get_hear, Option.map_eq_some_iff] at hb
    obtain ⟨a, ha, rfl⟩ := hb
    refine ⟨a, ha, ?_⟩
    split at hbusy
    · exact NorFlash.isBusy_of_told
        (fun _ => Trace.Transaction.head_mem_of_reads (hreads t List.mem_cons_self)) hbusy
    · exact hbusy

/-- Chips that are only asked what they are do not change. -/
theorem Plays.eq_of_asks {chips chips' : Chips} {ts : List Trace.Transaction}
    (h : Plays chips ts chips') (hreads : ∀ t ∈ ts, t.modifies = false)
    (hstatus : ∀ t ∈ ts, t.sent.head? ≠ some 0x05) (slot : Slot) :
    chips'.get slot = chips.get slot := by
  induction h with
  | stop chips => rfl
  | @hear _ _ t _ _ _ ih =>
    rw [ih (fun t ht => hreads t (List.mem_cons_of_mem _ ht))
      (fun t ht => hstatus t (List.mem_cons_of_mem _ ht)), get_hear]
    have hread : ∀ opcode, t.sent.head? = some opcode → opcode ∈ Trace.Transaction.readOpcodes :=
      fun _ => Trace.Transaction.head_mem_of_reads (hreads t List.mem_cons_self)
    have htold : ∀ c : NorFlash, c.told t.sent = c := fun c =>
      NorFlash.told_of_reads hread (hstatus t List.mem_cons_self)
    simp only [htold, ite_self, Option.map_id']

/-- A chip that says it is at rest is. -/
theorem Plays.isBusy_of_polls {chips chips' : Chips} {slot : Slot} {t : Trace.Transaction}
    {ts : List Trace.Transaction} (h : Plays chips (t :: ts) chips')
    (hpolls : Polls slot (.ok false) t) {c : NorFlash}
    (hc : (Bench.hear chips t).2.get slot = some c) : c.isBusy = false := by
  obtain ⟨hslot, hstatus, hidle⟩ := hpolls.ok
  obtain rfl := hslot
  cases h with
  | hear hreceived _ =>
    rw [get_hear, Option.map_eq_some_iff] at hc
    obtain ⟨b, hb, rfl⟩ := hc
    have hsent : t.sent = [0x05, 0xFF] := by simpa [Trace.Transaction.readsStatus] using hstatus
    rw [hear_answers hb, hsent, NorFlash.answers_status] at hreceived
    have hrest : b.isBusy = false := by
      rw [← NorFlash.isBusyStatus_status, ← hidle, Trace.Transaction.saysBusy, hreceived]
      rfl
    rw [if_pos rfl]
    cases hbusy : (b.told t.sent).isBusy with
    | false => rfl
    | true =>
      have hbefore := NorFlash.isBusy_of_told
        (fun _ => Trace.Transaction.head_mem_of_reads hpolls.reads) hbusy
      rw [hrest] at hbefore
      cases hbefore

/-! ## Meeting a chip -/

/-- A transaction with the chip it goes to, as it finds it. -/
structure Meeting where
  transaction : Trace.Transaction
  chip : Option NorFlash

/-- What each transaction finds. -/
def meetings : Chips → List Trace.Transaction → List Meeting
  | _, [] => []
  | chips, t :: ts => ⟨t, chips.get t.slot⟩ :: meetings (hear chips t).2 ts

@[simp] theorem length_meetings (chips : Chips) (ts : List Trace.Transaction) :
    (meetings chips ts).length = ts.length := by
  induction ts generalizing chips with
  | nil => rfl
  | cons t ts ih => simp [meetings, ih]

theorem mem_of_mem_meetings {chips : Chips} {ts : List Trace.Transaction} {m : Meeting}
    (h : m ∈ meetings chips ts) : m.transaction ∈ ts := by
  induction ts generalizing chips with
  | nil => cases h
  | cons t ts ih =>
    rcases List.mem_cons.mp h with rfl | h
    · exact List.mem_cons_self
    · exact List.mem_cons_of_mem _ (ih h)

end FlashProgrammer.Bench

namespace FlashProgrammer.Flash

open Bench (Chips Plays Meeting NorFlash meetings get_hear)
open Trace

/-! ## Starting an operation -/

section Starting

variable {slot : Slot} {i : Instruction} {ts : List Transaction} {chips chips' : Chips}

/-- Both transactions of an operation find the chip at work, or neither does. -/
theorem Modifies.finds (h : Modifies slot i (.ok ()) ts) (hgood : ∀ t ∈ ts, t.fault = none)
    {m : Meeting} (hm : m ∈ meetings chips ts) {c : NorFlash} (hc : m.chip = some c) :
    ∃ b, chips.get slot = some b ∧ c.isBusy = b.isBusy := by
  obtain ⟨_, t, u, rfl, rfl, hsent, huslot, _⟩ := h.of_fault_none hgood
  simp only [meetings, List.mem_cons, List.not_mem_nil, or_false, huslot] at hm
  rcases hm with rfl | rfl
  · exact ⟨c, hc, rfl⟩
  · simp only [get_hear, if_true, hsent, Option.map_eq_some_iff] at hc
    obtain ⟨b, hb, rfl⟩ := hc
    refine ⟨b, hb, ?_⟩
    rw [NorFlash.told_writeEnable]
    split <;> rfl

/-- A chip at rest does what it is told, and a chip at work nothing. -/
theorem Modifies.memoryOf (h : Modifies slot i (.ok ()) ts) (hgood : ∀ t ∈ ts, t.fault = none)
    (hplays : Plays chips ts chips') {c : NorFlash} (hc : chips.get slot = some c) :
    Bench.memoryOf chips' slot =
      some (c.size, if c.isBusy = true then c.cells else (c.ready.finish i.clocked).cells) := by
  obtain ⟨_, t, u, rfl, rfl, htsent, huslot, husent⟩ := h.of_fault_none hgood
  rw [Bench.memoryOf, hplays.eq_foldl]
  simp only [List.foldl_cons, List.foldl_nil]
  rw [get_hear, get_hear, hc]
  simp only [Option.map_some, huslot, if_true, htsent, husent]
  obtain ⟨hsize, hcells⟩ := (c.told [0x06]).memory_told i.clocked
  rw [hsize, hcells, NorFlash.told_writeEnable]
  cases hbusy : c.isBusy with
  | true => simp only [if_true, NorFlash.finish_of_isBusy hbusy]
  | false =>
    simp only [Bool.false_eq_true, if_false]
    rw [NorFlash.ready_eq hbusy]

/-- The last transaction of an operation is the instruction itself. -/
theorem Modifies.getLast? (h : Modifies slot i (.ok ()) ts) (hgood : ∀ t ∈ ts, t.fault = none)
    {m : Meeting} (hm : (meetings chips ts).getLast? = some m) :
    m.transaction.slot = slot ∧ m.transaction.sent = i.clocked := by
  obtain ⟨_, t, u, rfl, rfl, _, huslot, husent⟩ := h.of_fault_none hgood
  cases hm
  exact ⟨huslot, husent⟩

end Starting

end FlashProgrammer.Flash

namespace FlashProgrammer.Programmer

open Flash Protocol Usb Trace
open Bench (Chips Listening Meeting NorFlash Plays Rig Shows memoryOf meetings shows_listening)

/-! ## What a request starts -/

/-- The transactions of a request that start an operation, as they meet the chips.  A status request
first asks whether the last operation is done. -/
def operations : Request → List Meeting → List Meeting
  | .erase .status _ _, ms => ms.tail
  | .erase _ _ _, ms => ms
  | .write _ _, ms => ms
  | _, _ => []

/-- What a request starts if no byte fails. -/
inductive Launch (s : Programmer) (r : Request) (s' : Programmer) : List Transaction → Prop where
  /-- It only reads. -/
  | nothing {ts : List Transaction} (hreads : ∀ t ∈ ts, t.modifies = false)
      (hnone : ∀ ms, ms.length = ts.length → operations r ms = []) : Launch s r s' ts
  /-- Nothing was outstanding, and something was started. -/
  | first {slot : Slot} {i : Instruction} {ts : List Transaction} (htarget : s.target = some slot)
      (hjob : s.job = .idle) (hmodifies : Modifies slot i (.ok ()) ts)
      (hall : ∀ ms, operations r ms = ms) (hafter : s'.job ≠ .idle) : Launch s r s' ts
  /-- What was outstanding is done, and something else was started. -/
  | next {slot : Slot} {i : Instruction} {p : Transaction} {ts : List Transaction}
      (htarget : s.target = some slot) (hjob : s.job ≠ .idle) (hpolls : Polls slot (.ok false) p)
      (hmodifies : Modifies slot i (.ok ()) ts) (htail : ∀ ms, operations r ms = ms.tail)
      (hafter : s'.job ≠ .idle) : Launch s r s' (p :: ts)

section Requests

variable {s s' : Programmer} {r : Request} {data : List UInt8} {ts : List Transaction}
  {reply : Option Response} {chips chips' : Chips}

/-- An instruction that was not given was cut short by a fault. -/
theorem not_good_of_error {slot : Slot} {i : Instruction} {e : Fault}
    (h : Modifies slot i (.error e) ts) (hgood : ∀ t ∈ ts, t.fault = none) : False := by
  obtain ⟨hok, _⟩ := h.of_fault_none hgood
  cases hok

theorem operations_all {operation : EraseOperation} {first last : PageNumber} {b e : Nat}
    (hspan : span? first.val last.val operation = some (b, e)) (ms : List Meeting) :
    operations (.erase operation first last) ms = ms := by
  cases operation with
  | status => cases hspan
  | all | page | pageRange => rfl

theorem Serves.launch (h : Serves s r data ts reply s') (hgood : ∀ t ∈ ts, t.fault = none) :
    Launch s r s' ts := by
  have hlone : ∀ {first last : PageNumber} (t : Transaction) (ms : List Meeting),
      ms.length = [t].length → operations (.erase .status first last) ms = [] := by
    intro first last t ms hlength
    obtain ⟨m, rfl⟩ := List.length_eq_one_iff.mp hlength
    rfl
  have hempty : ∀ {r : Request} (ms : List Meeting), ms.length = 0 → operations r ms = [] := by
    intro r ms hlength
    obtain rfl := List.length_eq_zero_iff.mp hlength
    cases r with
    | erase operation first last => cases operation <;> rfl
    | _ => rfl
  cases h with
  | deviceCount | listedNone _ | targetedNone _ | eraseUntargeted _ | eraseOutstanding _ _ _
  | eraseOutOfRange _ _ _ _ | readRefused _ | writeRefused _ | writeIncomplete _ _ _ _ _ _
  | verifyNothing _ | resetTarget =>
    exact .nothing (by simp) hempty
  | listed _ _ hasks | targeted _ _ hasks =>
    exact .nothing (fun t ht => (hasks t ht).reads) fun _ _ => rfl
  | statusUnread _ hpolls => exact absurd (hgood _ (by simp)) hpolls.fault
  | statusBusy _ hpolls | statusDone _ hpolls _ =>
    exact .nothing (by simpa using hpolls.reads) (hlone _)
  | statusNext hsel hpolls hjob _ hmodifies =>
    refine .next (target_of_selected hsel) ?_ hpolls hmodifies (fun _ => rfl) nofun
    rw [hjob]
    exact nofun
  | statusNextFailed _ _ _ _ hmodifies =>
    exact (not_good_of_error hmodifies fun t ht => hgood t (List.mem_cons_of_mem _ ht)).elim
  | eraseStarted hsel hspan hjob _ _ hmodifies =>
    exact .first (target_of_selected hsel) hjob hmodifies (operations_all hspan) nofun
  | eraseFailed _ _ _ _ _ hmodifies | writeFailed _ _ _ _ _ _ hmodifies =>
    exact (not_good_of_error hmodifies hgood).elim
  | writeProgrammed hsel hjob _ _ _ _ hmodifies =>
    exact .first (target_of_selected hsel) hjob hmodifies (fun _ => rfl) nofun
  | readTried _ _ hreads => exact .nothing hreads.reads fun _ _ => rfl
  | verifyRead _ _ hreads | verifyUnread _ _ hreads =>
    exact .nothing hreads.reads fun _ _ => rfl

/-! ## What it meets -/

/-- The target is at work although nothing is outstanding. -/
def Overlooks (s : Programmer) (chips : Chips) : Prop :=
  s.job = .idle ∧ ∃ slot c, s.target = some slot ∧ chips.get slot = some c ∧ c.isBusy = true

/-- The request targets a chip that is at work. -/
def TargetsBusy (r : Request) (chips : Chips) : Prop :=
  ∃ number bus slot c, r = .targetDevice number bus ∧ Slot.find? number bus = some slot ∧
    chips.get slot = some c ∧ c.isBusy = true

/-- A transaction that does not only read belongs to an operation. -/
theorem Launch.covers (h : Launch s r s' ts) {m : Meeting} (hm : m ∈ meetings chips ts)
    (hmodifies : m.transaction.modifies = true) : m ∈ operations r (meetings chips ts) := by
  cases h with
  | nothing hreads _ =>
    rw [hreads _ (Bench.mem_of_mem_meetings hm)] at hmodifies
    cases hmodifies
  | first _ _ _ hall _ => rwa [hall]
  | next _ _ hpolls _ htail _ =>
    rw [htail]
    rcases List.mem_cons.mp hm with rfl | hm
    · rw [hpolls.reads] at hmodifies
      cases hmodifies
    · exact hm

/-- An operation meets a chip at work exactly if that was overlooked. -/
theorem Launch.finds (h : Launch s r s' ts) (hgood : ∀ t ∈ ts, t.fault = none)
    (hplays : Plays chips ts chips') {m : Meeting} (hm : m ∈ operations r (meetings chips ts))
    {c : NorFlash} (hc : m.chip = some c) : c.isBusy = true ↔ Overlooks s chips := by
  cases h with
  | nothing _ hnone =>
    rw [hnone _ (Bench.length_meetings chips ts)] at hm
    cases hm
  | @first slot _ _ htarget hjob hmodifies hall _ =>
    rw [hall] at hm
    obtain ⟨b, hb, hbusy⟩ := hmodifies.finds hgood hm hc
    rw [hbusy]
    constructor
    · exact fun hwork => ⟨hjob, slot, b, htarget, hb, hwork⟩
    · rintro ⟨_, slot', b', htarget', hb', hwork⟩
      rw [htarget] at htarget'
      cases htarget'
      rw [hb] at hb'
      cases hb'
      exact hwork
  | next htarget hjob hpolls hmodifies htail _ =>
    rw [htail] at hm
    obtain ⟨b, hb, hbusy⟩ := hmodifies.finds
      (fun t ht => hgood t (List.mem_cons_of_mem _ ht)) hm hc
    rw [hbusy, hplays.isBusy_of_polls hpolls hb]
    exact ⟨nofun, fun hover => absurd hover.1 hjob⟩

/-- What an operation does to a chip that was not overlooked. -/
theorem Launch.performs (h : Launch s r s' ts) (hgood : ∀ t ∈ ts, t.fault = none)
    (hplays : Plays chips ts chips') (hover : ¬Overlooks s chips) {m : Meeting}
    (hm : (operations r (meetings chips ts)).getLast? = some m) {c : NorFlash}
    (hc : chips.get m.transaction.slot = some c) :
    memoryOf chips' m.transaction.slot =
      some (c.size, (c.ready.finish m.transaction.sent).cells) := by
  cases h with
  | nothing _ hnone =>
    rw [hnone _ (Bench.length_meetings chips ts)] at hm
    cases hm
  | @first slot _ _ htarget hjob hmodifies hall _ =>
    rw [hall] at hm
    obtain ⟨hslot, hsent⟩ := hmodifies.getLast? hgood hm
    rw [hslot] at hc ⊢
    have hrest : c.isBusy = false := by
      cases hbusy : c.isBusy with
      | false => rfl
      | true => exact absurd ⟨hjob, slot, c, htarget, hc, hbusy⟩ hover
    rw [hmodifies.memoryOf hgood hplays hc, hsent, hrest]
    rfl
  | @next slot i p us htarget hjob hpolls hmodifies htail _ =>
    have hgood' := fun t ht => hgood t (List.mem_cons_of_mem p ht)
    rw [htail] at hm
    obtain ⟨hslot, hsent⟩ := hmodifies.getLast? hgood' hm
    rw [hslot] at hc ⊢
    have hpolled : (Bench.hear chips p).2.get slot = some (c.told p.sent) := by
      rw [Bench.get_hear, hc, Option.map_some, if_pos hpolls.slot_eq.symm]
    have hrest := hplays.isBusy_of_polls hpolls hpolled
    cases hplays with
    | hear _ hplays =>
      have hready : (c.told p.sent).ready = c.ready :=
        NorFlash.ready_told fun _ => Transaction.head_mem_of_reads hpolls.reads
      rw [hmodifies.memoryOf hgood' hplays hpolled, hsent, hrest, hready, (c.memory_told p.sent).1]
      rfl

/-- A chip that was overlooked ignores the operation, and the other chips do not hear it. -/
theorem Launch.ignored (h : Launch s r s' ts) (hgood : ∀ t ∈ ts, t.fault = none)
    (hplays : Plays chips ts chips') (hover : Overlooks s chips) (slot : Slot) :
    memoryOf chips' slot = memoryOf chips slot := by
  obtain ⟨hidle, target, c, htarget, hc, hbusy⟩ := hover
  cases h with
  | nothing hreads _ =>
    exact hplays.memoryOf_eq fun t ht _ _ => Transaction.head_mem_of_reads (hreads t ht)
  | first htarget' _ hmodifies _ _ =>
    rw [htarget] at htarget'
    cases htarget'
    by_cases hslot : slot = target
    · subst hslot
      rw [hmodifies.memoryOf hgood hplays hc, hbusy, memoryOf, hc]
      rfl
    · refine hplays.memoryOf_eq fun t ht hslot' => ?_
      rw [hmodifies.slot_eq t ht] at hslot'
      exact absurd hslot'.symm hslot
  | next _ hjob _ _ _ _ => exact absurd hidle hjob

/-- A request that starts an operation leaves it outstanding. -/
theorem Launch.outstanding (h : Launch s r s' ts) {m : Meeting}
    (hm : m ∈ operations r (meetings chips ts)) : s'.job ≠ .idle := by
  cases h with
  | nothing _ hnone =>
    rw [hnone _ (Bench.length_meetings chips ts)] at hm
    cases hm
  | first _ _ _ _ hafter => exact hafter
  | next _ _ _ _ _ hafter => exact hafter

/-! ## How an operation comes to be overlooked -/

/-- Only targeting loses sight of an operation. -/
theorem Serves.overlooked_before (h : Serves s r data ts reply s')
    (hgood : ∀ t ∈ ts, t.fault = none) (hplays : Plays chips ts chips')
    (hr : ∀ number bus, r ≠ .targetDevice number bus) (hover : Overlooks s' chips') :
    Overlooks s chips := by
  have hreading : (∀ t ∈ ts, t.modifies = false) → s.job = s'.job → s.target = s'.target →
      Overlooks s chips := by
    intro hreads hjob htarget
    obtain ⟨hidle, slot, c, hslot, hc, hbusy⟩ := hover
    obtain ⟨b, hb, hwork⟩ := hplays.isBusy_of_reads hreads hc hbusy
    exact ⟨hjob ▸ hidle, slot, b, htarget ▸ hslot, hb, hwork⟩
  cases h with
  | targetedNone _ | targeted _ _ _ => exact absurd rfl (hr _ _)
  | deviceCount | listedNone _ | eraseUntargeted _ | eraseOutstanding _ _ _
  | eraseOutOfRange _ _ _ _ | readRefused _ | writeRefused _ | writeIncomplete _ _ _ _ _ _
  | verifyNothing _ | resetTarget => exact hreading (by simp) rfl rfl
  | listed _ _ hasks => exact hreading (fun t ht => (hasks t ht).reads) rfl rfl
  | readTried _ _ hreads => exact hreading hreads.reads rfl rfl
  | verifyRead _ _ hreads | verifyUnread _ _ hreads => exact hreading hreads.reads rfl rfl
  | statusBusy _ hpolls => exact hreading (by simpa using hpolls.reads) rfl rfl
  | statusUnread _ hpolls => exact absurd (hgood _ (by simp)) hpolls.fault
  | statusDone hsel hpolls _ =>
    -- The chip was just found at rest.
    obtain ⟨_, slot, c, htarget, hc, hbusy⟩ := hover
    cases (target_of_selected hsel).symm.trans htarget
    rw [hplays.eq_foldl] at hc
    rw [hplays.isBusy_of_polls hpolls hc] at hbusy
    cases hbusy
  | statusNext _ _ _ _ _ | eraseStarted _ _ _ _ _ _ | writeProgrammed _ _ _ _ _ _ _ =>
    cases hover.1
  | statusNextFailed _ _ _ _ hmodifies =>
    exact (not_good_of_error hmodifies fun t ht => hgood t (List.mem_cons_of_mem _ ht)).elim
  | eraseFailed _ _ _ _ _ hmodifies | writeFailed _ _ _ _ _ _ hmodifies =>
    exact (not_good_of_error hmodifies hgood).elim

/-- Targeting a chip loses sight of its operation. -/
theorem Serves.overlooks_iff_targetsBusy (h : Serves s r data ts reply s')
    (hplays : Plays chips ts chips') {number bus : UInt8} (hr : r = .targetDevice number bus) :
    Overlooks s' chips' ↔ TargetsBusy r chips := by
  subst hr
  cases h with
  | targetedNone hslot =>
    constructor
    · rintro ⟨_, _, _, htarget, _⟩
      cases htarget
    · rintro ⟨_, _, _, _, hr, hslot', _⟩
      cases hr
      rw [hslot] at hslot'
      cases hslot'
  | @targeted _ _ slot _ _ hslot _ hasks =>
    have hchips := hplays.eq_of_asks (fun t ht => (hasks t ht).reads)
      (fun t ht => (hasks t ht).head_ne) slot
    constructor
    · rintro ⟨_, _, c, htarget, hc, hbusy⟩
      cases htarget
      exact ⟨number, bus, slot, c, rfl, hslot, hchips ▸ hc, hbusy⟩
    · rintro ⟨_, _, _, c, hr, hslot', hc, hbusy⟩
      cases hr
      rw [hslot] at hslot'
      cases hslot'
      exact ⟨rfl, slot, c, rfl, hchips ▸ hc, hbusy⟩

end Requests

/-! ## Sessions -/

section Sessions

/-- Requests served one after the other with chips that answer every byte and were at rest before
the first one.  Each request is kept with the chips as it found them. -/
inductive Session : Programmer → List (Request × Chips) → Chips → Prop where
  | start (budget : WaitBudget) (chips : Chips)
      (hrest : ∀ slot c, chips.get slot = some c → c.isBusy = false) : Session { budget } [] chips
  | serve {ω : Type} [Spi.Bus ω] [ResetLine ω] [Controller ω] {f : ω → Listening} (hf : Shows f)
      (r : Request) (s : Station ω) {xs : List (Request × Chips)}
      (h : Session s.1 xs (f s.2.hw).chips) (hgood : ∀ t ∈ transactionsOf r s, t.fault = none) :
      Session (serve r s).1 (xs ++ [(r, (f s.2.hw).chips)]) (f (serve r s).2.hw).chips

theorem Session.reachable {s : Programmer} {xs : List (Request × Chips)} {chips : Chips}
    (h : Session s xs chips) : Reachable s := by
  induction h with
  | start budget _ _ => exact .start budget
  | serve _ r s _ _ ih => exact .served r s ih

/-- As long as no chip at work is targeted, none is overlooked. -/
theorem Session.targetsBusy_of_overlooks {s : Programmer} {xs : List (Request × Chips)}
    {chips : Chips} (h : Session s xs chips) (hover : Overlooks s chips) :
    ∃ x ∈ xs, TargetsBusy x.1 x.2 := by
  induction h with
  | start budget chips hrest =>
    obtain ⟨_, _, _, htarget, _⟩ := hover
    cases htarget
  | serve hf r s h hgood ih =>
    have hserves := h.reachable.serves r
    have hplays := hf.serve r s
    by_cases hr : ∃ number bus, r = .targetDevice number bus
    · obtain ⟨number, bus, hr⟩ := hr
      exact ⟨_, List.mem_append_right _ (List.mem_singleton_self _),
        (hserves.overlooks_iff_targetsBusy hplays hr).mp hover⟩
    · have hbefore := hserves.overlooked_before hgood hplays
        (fun number bus hr' => hr ⟨number, bus, hr'⟩) hover
      obtain ⟨x, hx, hbusy⟩ := ih hbefore
      exact ⟨x, List.mem_append_left _ hx, hbusy⟩

/-- Whether operations reach chips at rest.

In a session with chips that answer every byte, everything that does not only read belongs to the
operation that a request starts, and that reaches its chip at work exactly if the chip was
overlooked.  Otherwise the chip does what it is told.  An overlooked chip ignores the operation, no
memory changes, and yet the operation is outstanding afterwards.

A chip is overlooked only after some request targeted a chip that was at work, and such a request
always leads there. -/
theorem outstanding_exact {ω : Type} [Spi.Bus ω] [ResetLine ω] [Controller ω]
    {f : ω → Listening} (hf : Shows f) {s : Station ω} {xs : List (Request × Chips)}
    (hs : Session s.1 xs (f s.2.hw).chips) (r : Request)
    (hgood : ∀ t ∈ transactionsOf r s, t.fault = none) :
    let chips := (f s.2.hw).chips
    let chips' := (f (serve r s).2.hw).chips
    let met := meetings chips (transactionsOf r s)
    (∀ m ∈ met, m.transaction.modifies = true → m ∈ operations r met) ∧
    (∀ m ∈ operations r met, (serve r s).1.job ≠ .idle ∧
      ∀ c, m.chip = some c → (c.isBusy = true ↔ Overlooks s.1 chips)) ∧
    (¬Overlooks s.1 chips → ∀ m, (operations r met).getLast? = some m →
      ∀ c, chips.get m.transaction.slot = some c →
        memoryOf chips' m.transaction.slot =
          some (c.size, (c.ready.finish m.transaction.sent).cells)) ∧
    (Overlooks s.1 chips → ∀ slot, memoryOf chips' slot = memoryOf chips slot) ∧
    (Overlooks s.1 chips → ∃ x ∈ xs, TargetsBusy x.1 x.2) ∧
    ((∃ number bus, r = .targetDevice number bus) →
      (Overlooks (serve r s).1 chips' ↔ TargetsBusy r chips)) := by
  intro chips chips' met
  have hserves := hs.reachable.serves r
  have hplays := hf.serve r s
  have hlaunch := hserves.launch hgood
  refine ⟨?_, ?_, ?_, ?_, ?_, ?_⟩
  · exact fun m hm hmodifies => hlaunch.covers hm hmodifies
  · exact fun m hm => ⟨hlaunch.outstanding hm, fun c hc => hlaunch.finds hgood hplays hm hc⟩
  · exact fun hover m hm c hc => hlaunch.performs hgood hplays hover hm hc
  · exact fun hover slot => hlaunch.ignored hgood hplays hover slot
  · exact hs.targetsBusy_of_overlooks
  · rintro ⟨number, bus, hr⟩
    exact hserves.overlooks_iff_targetsBusy hplays hr

end Sessions

/-! ## On the bench -/

/-- An erase of one block. -/
def eraseBlock (block : Nat) : Request := .erase .page (.ofNat block) (.ofNat 0)

/-- A status request. -/
def pollErase : Request := .erase .status (.ofNat 0) (.ofNat 0)

/-- A programmer that targets a part of 1 MiB full of zeros. -/
def oneTargeted : Station Rig := Rig.targeting (part 0x14 0x100000)

/-- The same part, targeted once more while its first block is erased. -/
def retargeted : Station Rig := serve (.targetDevice 0 0) (serve (eraseBlock 0) oneTargeted)

theorem session_oneTargeted : ∃ xs, Session oneTargeted.1 xs oneTargeted.2.hw.spi.chips := by
  have hstart : Session {} [] ⟨some (part 0x14 0x100000), none, none⟩ := by
    refine .start {} _ fun slot c hc => ?_
    cases slot <;> cases hc
    decide
  exact ⟨_, .serve shows_listening (.targetDevice 0 0)
    (Rig.station ⟨some (part 0x14 0x100000), none, none⟩) hstart (by decide +kernel)⟩

theorem session_retargeted : ∃ xs, Session retargeted.1 xs retargeted.2.hw.spi.chips := by
  obtain ⟨_, htargeted⟩ := session_oneTargeted
  have hstarted := Session.serve shows_listening (eraseBlock 0) oneTargeted htargeted
    (by decide +kernel)
  exact ⟨_, .serve shows_listening (.targetDevice 0 0) (serve (eraseBlock 0) oneTargeted) hstarted
    (by decide +kernel)⟩

/-- The second block of a part that was just targeted is erased. -/
theorem outstanding_exact_one_erase :
    (∀ t ∈ transactionsOf (eraseBlock 1) oneTargeted, t.fault = none) ∧
    ¬Overlooks oneTargeted.1 oneTargeted.2.hw.spi.chips ∧
    (memoryOf (serve (eraseBlock 1) oneTargeted).2.hw.spi.chips .local1).map
      (fun memory => (memory.2 0xFFF, memory.2 0x1000)) = some (0x00, 0xFF) := by
  have hgood : ∀ t ∈ transactionsOf (eraseBlock 1) oneTargeted, t.fault = none := by
    decide +kernel
  have hrest : ¬Overlooks oneTargeted.1 oneTargeted.2.hw.spi.chips := by
    rintro ⟨_, slot, c, htarget, hc, hbusy⟩
    have hslot : oneTargeted.1.target = some .local1 := by decide +kernel
    have hidle : (oneTargeted.2.hw.spi.chips.get .local1).map NorFlash.isBusy = some false := by
      decide +kernel
    rw [hslot] at htarget
    cases htarget
    rw [hc, Option.map_some, hbusy] at hidle
    cases hidle
  obtain ⟨_, hsession⟩ := session_oneTargeted
  obtain ⟨_, _, hperforms, _⟩ := outstanding_exact shows_listening hsession (eraseBlock 1) hgood
  refine ⟨hgood, hrest, ?_⟩
  have hsaid : transactionsOf (eraseBlock 1) oneTargeted =
      [⟨.local1, [0x06], [0xFF], none⟩,
        ⟨.local1, [0x20, 0x00, 0x10, 0x00], [0xFF, 0xFF, 0xFF, 0xFF], none⟩] := by
    decide +kernel
  have hcells : (oneTargeted.2.hw.spi.chips.get .local1).map (fun c =>
      ((c.ready.finish [0x20, 0x00, 0x10, 0x00]).cells 0xFFF,
        (c.ready.finish [0x20, 0x00, 0x10, 0x00]).cells 0x1000)) = some (0x00, 0xFF) := by
    decide +kernel
  have hlast := hperforms hrest
  rw [hsaid] at hlast
  cases hc : oneTargeted.2.hw.spi.chips.get .local1 with
  | none =>
    rw [hc] at hcells
    cases hcells
  | some c =>
    rw [hc] at hcells
    rw [show memoryOf (serve (eraseBlock 1) oneTargeted).2.hw.spi.chips .local1 = _ from
      hlast _ rfl c hc]
    exact hcells

/-- A part that is targeted while it erases is overlooked.  It ignores the next erase, and yet the
host is told that this runs and at last that it is complete. -/
theorem retargeted_part_ignores_erase :
    (∃ xs, Session retargeted.1 xs retargeted.2.hw.spi.chips) ∧
    (meetings retargeted.2.hw.spi.chips (transactionsOf (eraseBlock 1) retargeted)).map
        (fun m => (m.transaction.sent, m.chip.map NorFlash.isBusy)) =
      [([0x06], some true), ([0x20, 0x00, 0x10, 0x00], some true)] ∧
    (serveAll [eraseBlock 1, pollErase, pollErase, pollErase] retargeted).1.map Exchange.reply =
      [some (eraseResponse .inProgress 1), some (eraseResponse .inProgress 1),
        some (eraseResponse .inProgress 1), some (eraseResponse .complete 1)] ∧
    (memoryOf (serveAll [eraseBlock 1, pollErase, pollErase, pollErase]
        retargeted).2.2.hw.spi.chips .local1).map (fun memory => memory.2 0x1000) = some 0x00 := by
  refine ⟨session_retargeted, ?_, ?_, ?_⟩
  · decide +kernel
  · decide +kernel
  · decide +kernel

end FlashProgrammer.Programmer

import FlashProgrammer.Proofs.Flash.Identifying
import FlashProgrammer.Proofs.Trace.Transaction

/-!
# What is said to a chip

For every operation on a flash chip, the transactions it consists of.  Each relation
below pairs the result of an operation with the transactions that brought it about,
and a lemma of the same name says that the operation issued them, on any hardware.

A transaction that carries an instruction starts with the bytes of the instruction
and, unless a byte failed, goes on with a filler byte for each byte of the reply.
-/

namespace FlashProgrammer.Flash

open Trace

variable {ω : Type} [Spi.Bus ω]

/-! ## One instruction -/

/-- A transaction carries an instruction to a slot, with a result. -/
inductive Carries (slot : Slot) (i : Instruction) :
    Except Fault (List UInt8) → Transaction → Prop where
  /-- All of it went out and the whole reply came in. -/
  | replied {echo reply : List UInt8} (hecho : echo.length = i.bytes.length)
      (hreply : reply.length = i.replyLength) :
      Carries slot i (.ok reply) ⟨slot, i.clocked, echo ++ reply, none⟩
  /-- A byte failed, and only those before it went out. -/
  | failed {n : Nat} {received : List UInt8} {e : Fault} (hn : n < i.clocked.length) :
      Carries slot i (.error e) ⟨slot, i.clocked.take n, received, some e⟩

theorem Carries.slot_eq {slot : Slot} {i : Instruction} {result : Except Fault (List UInt8)}
    {t : Transaction} (h : Carries slot i result t) : t.slot = slot := by
  cases h <;> rfl

/-- Without a fault the reply came in, and all of the instruction went out. -/
theorem Carries.of_fault_none {slot : Slot} {i : Instruction} {result : Except Fault (List UInt8)}
    {t : Transaction} (h : Carries slot i result t) (hfault : t.fault = none) :
    ∃ reply, result = .ok reply ∧ t.sent = i.clocked := by
  cases h with
  | replied _ _ => exact ⟨_, rfl, rfl⟩
  | failed _ => cases hfault

/-- Whatever came of it, what went out is the beginning of the instruction. -/
theorem Carries.sent_eq {slot : Slot} {i : Instruction} {result : Except Fault (List UInt8)}
    {t : Transaction} (h : Carries slot i result t) : ∃ n, t.sent = i.clocked.take n := by
  cases h with
  | replied _ _ => exact ⟨i.clocked.length, (List.take_length).symm⟩
  | @failed n _ _ _ => exact ⟨n, rfl⟩

/-- Clocking an instruction out and its reply in. -/
theorem moves_clock (i : Instruction) (w : Traced ω) :
    (∃ echo reply, echo.length = i.bytes.length ∧ reply.length = i.replyLength ∧
      (clock i w).1 = .ok reply ∧ Moves i.clocked (echo ++ reply) none w (clock i w).2) ∨
    (∃ n received e, n < i.clocked.length ∧ (clock i w).1 = .error e ∧
      Moves (i.clocked.take n) received (some e) w (clock i w).2) := by
  obtain ⟨result, moves, htried, hresult, hadds⟩ := tracks_clock tracks_adds i w
  have hmoves := moves_of_adds hadds
  cases result with
  | ok bs =>
    have hlength := htried.length_eq
    obtain ⟨hout, hin, hfault⟩ := htried.of_ok
    rw [Instruction.length_clocked] at hlength
    refine .inl ⟨bs.take i.bytes.length, bs.drop i.bytes.length, ?_, ?_, hresult, ?_⟩
    · rw [List.length_take]
      omega
    · rw [List.length_drop]
      omega
    · rwa [hout, hin, hfault, ← List.take_append_drop i.bytes.length bs] at hmoves
  | error e =>
    obtain ⟨hfault, n, hn, hout⟩ := htried.of_error
    rw [hout, hfault] at hmoves
    exact .inr ⟨n, _, e, hn, hresult, hmoves⟩

theorem execute_carries (slot : Slot) (i : Instruction) (w : Traced ω) :
    ∃ t, Carries slot i (execute slot i w).1 t ∧ Issues [t] w (execute slot i w).2 := by
  rcases moves_clock i (Spi.select slot w) with
    ⟨echo, reply, hecho, hreply, hresult, hmoves⟩ | ⟨n, received, e, hn, hresult, hmoves⟩
  · refine ⟨_, ?_, issues_of_moves hmoves⟩
    show Carries slot i (clock i (Spi.select slot w)).1 _
    rw [hresult]
    exact .replied hecho hreply
  · refine ⟨_, ?_, issues_of_moves hmoves⟩
    show Carries slot i (clock i (Spi.select slot w)).1 _
    rw [hresult]
    exact .failed hn

/-! ## Waiting and reading -/

/-- One status read, with what it said of the chip. -/
def Polls (slot : Slot) (result : Except Fault Bool) (t : Transaction) : Prop :=
  ∃ reply, Carries slot .readStatus reply t ∧
    result = reply.map fun bs => isBusyStatus (bs.getD 0 0)

theorem isBusy_polls (slot : Slot) (w : Traced ω) :
    ∃ t, Polls slot (isBusy slot w).1 t ∧ Issues [t] w (isBusy slot w).2 := by
  obtain ⟨t, hcarries, hissues⟩ := execute_carries slot .readStatus w
  refine ⟨t, ⟨_, hcarries, ?_⟩, hissues⟩
  show ((execute slot .readStatus w).1.map _).map _ = _
  cases (execute slot .readStatus w).1 <;> rfl

/-- Status reads until the chip is idle, at most so many. -/
inductive Waits (slot : Slot) : Nat → Except Fault Unit → List Transaction → Prop where
  /-- It was never seen idle. -/
  | spent : Waits slot 0 (.error .flashBusy) []
  /-- It is idle. -/
  | idle {n : Nat} {t : Transaction} (h : Polls slot (.ok false) t) : Waits slot (n + 1) (.ok ()) [t]
  /-- It is busy, and is asked again. -/
  | busy {n : Nat} {t : Transaction} {result : Except Fault Unit} {ts : List Transaction}
      (h : Polls slot (.ok true) t) (hrest : Waits slot n result ts) :
      Waits slot (n + 1) result (t :: ts)
  /-- It could not be asked. -/
  | failed {n : Nat} {t : Transaction} {e : Fault} (h : Polls slot (.error e) t) :
      Waits slot (n + 1) (.error e) [t]

theorem Waits.length_le {slot : Slot} {n : Nat} {result : Except Fault Unit} {ts : List Transaction}
    (h : Waits slot n result ts) : ts.length ≤ n := by
  induction h with
  | spent => exact Nat.le_refl 0
  | idle | failed => exact Nat.succ_le_succ (Nat.zero_le _)
  | busy _ _ ih => exact Nat.succ_le_succ ih

/-- A wait does nothing but read the status. -/
theorem Waits.polls {slot : Slot} {n : Nat} {result : Except Fault Unit} {ts : List Transaction}
    (h : Waits slot n result ts) : ∀ t ∈ ts, ∃ result, Polls slot result t := by
  induction h with
  | spent => exact fun _ ht => nomatch ht
  | idle hpolls | failed hpolls => exact List.forall_mem_singleton.mpr ⟨_, hpolls⟩
  | busy hpolls _ ih => exact List.forall_mem_cons.mpr ⟨⟨_, hpolls⟩, ih⟩

theorem waitIdle_waits (slot : Slot) (polls : Nat) (w : Traced ω) :
    ∃ ts, Waits slot polls (waitIdle slot polls w).1 ts ∧
      Issues ts w (waitIdle slot polls w).2 := by
  induction polls generalizing w with
  | zero => exact ⟨[], .spent, issues_refl w⟩
  | succ polls ih =>
    obtain ⟨t, hpolls, hissues⟩ := isBusy_polls slot w
    rw [waitIdle]
    generalize isBusy slot w = asked at hpolls hissues ⊢
    obtain ⟨_ | _ | _, w'⟩ := asked
    · exact ⟨[t], .failed hpolls, hissues⟩
    · exact ⟨[t], .idle hpolls, hissues⟩
    · obtain ⟨ts, hwaits, hrest⟩ := ih w'
      exact ⟨t :: ts, .busy hpolls hwaits, hissues.trans hrest⟩

/-- A wait until the chip is idle, and then a read of its memory. -/
inductive ReadsIdle (slot : Slot) (polls address length : Nat) :
    Except Fault (List UInt8) → List Transaction → Prop where
  /-- It became idle and was read. -/
  | read {ts : List Transaction} {t : Transaction} {result : Except Fault (List UInt8)}
      (hwaits : Waits slot polls (.ok ()) ts)
      (h : Carries slot (.readData address length) result t) :
      ReadsIdle slot polls address length result (ts ++ [t])
  /-- It was not seen idle, and was not read. -/
  | kept {ts : List Transaction} {e : Fault} (hwaits : Waits slot polls (.error e) ts) :
      ReadsIdle slot polls address length (.error e) ts

theorem ReadsIdle.length_eq {slot : Slot} {polls address length : Nat} {bs : List UInt8}
    {ts : List Transaction} (h : ReadsIdle slot polls address length (.ok bs) ts) :
    bs.length = length := by
  cases h with
  | read _ hcarries =>
    cases hcarries with
    | replied _ hreply => exact hreply

/-! ## Modifying -/

/-- A write enable and, if it went out, an instruction that modifies the chip. -/
inductive Modifies (slot : Slot) (i : Instruction) :
    Except Fault Unit → List Transaction → Prop where
  /-- Both were given, and the second one went out or not. -/
  | given {t u : Transaction} {enabled result : Except Fault (List UInt8)}
      (henable : Carries slot .writeEnable enabled t) (hok : enabled.isOk)
      (h : Carries slot i result u) : Modifies slot i (result.map fun _ => ()) [t, u]
  /-- The write enable failed. -/
  | kept {t : Transaction} {e : Fault} (henable : Carries slot .writeEnable (.error e) t) :
      Modifies slot i (.error e) [t]

/-- Without a fault a write enable and the instruction went out. -/
theorem Modifies.of_fault_none {slot : Slot} {i : Instruction} {result : Except Fault Unit}
    {ts : List Transaction} (h : Modifies slot i result ts) (hfault : ∀ t ∈ ts, t.fault = none) :
    result = .ok () ∧ ∃ t u, ts = [t, u] ∧ t.slot = slot ∧ t.sent = [0x06] ∧
      u.slot = slot ∧ u.sent = i.clocked := by
  cases h with
  | kept henable =>
    obtain ⟨_, hreply, _⟩ := henable.of_fault_none (hfault _ (by simp))
    cases hreply
  | @given t u _ _ henable _ hcarries =>
    obtain ⟨_, _, hsent⟩ := henable.of_fault_none (hfault t (by simp))
    obtain ⟨_, hreply, hgiven⟩ := hcarries.of_fault_none (hfault u (by simp))
    exact ⟨by rw [hreply]; rfl, t, u, rfl, henable.slot_eq, hsent, hcarries.slot_eq, hgiven⟩

theorem modify_modifies (slot : Slot) (i : Instruction) (w : Traced ω) :
    ∃ ts, Modifies slot i (Flash.modify slot i w).1 ts ∧
      Issues ts w (Flash.modify slot i w).2 := by
  obtain ⟨t, henable, hissues⟩ := execute_carries slot .writeEnable w
  simp only [Flash.modify, writeEnable, command]
  generalize execute slot .writeEnable w = enabled at henable hissues ⊢
  obtain ⟨_ | _, w'⟩ := enabled
  · exact ⟨[t], .kept henable, hissues⟩
  · obtain ⟨u, hcarries, hrest⟩ := execute_carries slot i w'
    exact ⟨[t, u], .given henable rfl hcarries, hissues.trans hrest⟩

/-! ## Identifying -/

/-- A transaction that asks a chip what it is. -/
def Asks (slot : Slot) (t : Transaction) : Prop :=
  ∃ result, Carries slot .readId result t ∨
    ∃ address length, Carries slot (.readSfdp address length) result t

/-- Reads of a description ask the chip what it is. -/
theorem reads_asks {slot : Slot} {w w' : Traced ω} (h : Sfdp.Reads (readSfdp slot) w w') :
    ∃ ts, (∀ t ∈ ts, Asks slot t) ∧ Issues ts w w' := by
  induction h with
  | refl => exact ⟨[], by simp, issues_refl w⟩
  | @more w' _ address length ih =>
    obtain ⟨ts, hall, hissues⟩ := ih
    obtain ⟨t, hcarries, hread⟩ := execute_carries slot (.readSfdp address length) w'
    have hasks : Asks slot t := ⟨_, .inr ⟨address, length, hcarries⟩⟩
    refine ⟨ts ++ [t], ?_, hissues.trans hread⟩
    intro u hu
    rcases List.mem_append.mp hu with hu | hu
    · exact hall u hu
    · exact List.mem_singleton.mp hu ▸ hasks

theorem identify_asks (slot : Slot) (w : Traced ω) :
    ∃ ts, (∀ t ∈ ts, Asks slot t) ∧ Issues ts w (identify slot w).2 := by
  obtain ⟨t, hcarries, hread⟩ := execute_carries slot .readId w
  have hasks : Asks slot t := ⟨_, .inl hcarries⟩
  rw [identify_eq]
  obtain ⟨ts, hall, hissues⟩ := reads_asks (reads_resolve (calledId (readId slot w).1) (readId slot w).2)
  exact ⟨t :: ts, List.forall_mem_cons.mpr ⟨hasks, hall⟩, hread.trans hissues⟩

end FlashProgrammer.Flash

import FlashProgrammer.Proofs.Flash.Said

/-!
# Reading and modifying

Four instructions only read: the memory, the status register, the description of the
chip and its id.  Every other one may modify the chip.  Waiting, reading and
identifying consist of instructions that only read, also where one is cut short by a
fault, and all transactions of an operation go to the same chip.
-/

namespace FlashProgrammer.Trace.Transaction

/-- The opcodes of the instructions that only read: memory, status, description and id. -/
def readOpcodes : List UInt8 := [0x03, 0x05, 0x5A, 0x9F]

/-- A transaction modifies its chip or enables that: it does not only read. -/
def modifies (t : Transaction) : Bool := t.sent.head?.any fun opcode => opcode ∉ readOpcodes

/-- A transaction reads the status register. -/
def readsStatus (t : Transaction) : Bool := t.sent == [0x05, 0xFF]

/-- The status byte that came in reports a running erase or write. -/
def saysBusy (t : Transaction) : Bool := Flash.isBusyStatus (t.received.getD 1 0)

theorem head_mem_of_reads {t : Transaction} (h : t.modifies = false) {opcode : UInt8}
    (hhead : t.sent.head? = some opcode) : opcode ∈ readOpcodes := by
  rw [modifies, hhead] at h
  simpa using h

end FlashProgrammer.Trace.Transaction

namespace FlashProgrammer.Flash

open Trace

/-! ## Only reading -/

/-- An instruction that only reads, however far it went out. -/
theorem Carries.reads {slot : Slot} {i : Instruction} {result : Except Fault (List UInt8)}
    {t : Transaction} (h : Carries slot i result t)
    (hi : i.opcode ∈ Transaction.readOpcodes) : t.modifies = false := by
  obtain ⟨n, hsent⟩ := h.sent_eq
  rw [Transaction.modifies, hsent]
  cases n with
  | zero => rfl
  | succ n => simpa [Instruction.clocked, Instruction.bytes] using hi

theorem Polls.reads {slot : Slot} {result : Except Fault Bool} {t : Transaction}
    (h : Polls slot result t) : t.modifies = false := by
  obtain ⟨_, hcarries, _⟩ := h
  exact hcarries.reads (by decide)

theorem Waits.reads {slot : Slot} {n : Nat} {result : Except Fault Unit} {ts : List Transaction}
    (h : Waits slot n result ts) : ∀ t ∈ ts, t.modifies = false := by
  induction h with
  | spent => simp
  | idle hpolls | failed hpolls => simpa using hpolls.reads
  | busy hpolls _ ih => simpa using ⟨hpolls.reads, by simpa using ih⟩

theorem ReadsIdle.reads {slot : Slot} {polls address length : Nat}
    {result : Except Fault (List UInt8)} {ts : List Transaction}
    (h : ReadsIdle slot polls address length result ts) : ∀ t ∈ ts, t.modifies = false := by
  cases h with
  | kept hwaits => exact hwaits.reads
  | read hwaits hcarries =>
    intro t ht
    rcases List.mem_append.mp ht with ht | ht
    · exact hwaits.reads t ht
    · obtain rfl := List.mem_singleton.mp ht
      exact hcarries.reads (show (0x03 : UInt8) ∈ _ by decide)

theorem Asks.reads {slot : Slot} {t : Transaction} (h : Asks slot t) : t.modifies = false := by
  obtain ⟨_, hcarries | ⟨_, _, hcarries⟩⟩ := h
  · exact hcarries.reads (by decide)
  · exact hcarries.reads (show (0x5A : UInt8) ∈ _ by decide)

/-- Asking a chip what it is does not read its status. -/
theorem Asks.head_ne {slot : Slot} {t : Transaction} (h : Asks slot t) :
    t.sent.head? ≠ some 0x05 := by
  have key : ∀ {i : Instruction} {result : Except Fault (List UInt8)}, i.opcode ≠ 0x05 →
      Carries slot i result t → t.sent.head? ≠ some 0x05 := by
    intro i result hi hcarries
    obtain ⟨n, hsent⟩ := hcarries.sent_eq
    rw [hsent]
    cases n with
    | zero => exact nofun
    | succ n => simpa [Instruction.clocked, Instruction.bytes] using hi
  obtain ⟨_, hcarries | ⟨_, _, hcarries⟩⟩ := h
  · exact key (by decide) hcarries
  · exact key (show (0x5A : UInt8) ≠ 0x05 by decide) hcarries

/-- A status read that did not fail went out whole and says what was made of it. -/
theorem Polls.ok {slot : Slot} {busy : Bool} {t : Transaction} (h : Polls slot (.ok busy) t) :
    t.slot = slot ∧ t.readsStatus = true ∧ t.saysBusy = busy := by
  obtain ⟨reply, hcarries, hbusy⟩ := h
  cases hcarries with
  | failed hn => cases hbusy
  | @replied echo bs hecho hreply =>
    cases hbusy
    obtain ⟨e, rfl⟩ := List.length_eq_one_iff.mp hecho
    exact ⟨rfl, rfl, rfl⟩

theorem Polls.fault {slot : Slot} {e : Fault} {t : Transaction} (h : Polls slot (.error e) t) :
    t.fault ≠ none := by
  obtain ⟨reply, hcarries, hbusy⟩ := h
  cases hcarries with
  | failed hn => exact Option.some_ne_none _
  | replied _ _ => cases hbusy

/-! ## The chip of an operation -/

theorem Polls.slot_eq {slot : Slot} {result : Except Fault Bool} {t : Transaction}
    (h : Polls slot result t) : t.slot = slot := by
  obtain ⟨_, hcarries, _⟩ := h
  exact hcarries.slot_eq

theorem Waits.slot_eq {slot : Slot} {n : Nat} {result : Except Fault Unit}
    {ts : List Transaction} (h : Waits slot n result ts) : ∀ t ∈ ts, t.slot = slot := by
  induction h with
  | spent => simp
  | idle hpolls | failed hpolls => simpa using hpolls.slot_eq
  | busy hpolls _ ih => simpa using ⟨hpolls.slot_eq, by simpa using ih⟩

theorem ReadsIdle.slot_eq {slot : Slot} {polls address length : Nat}
    {result : Except Fault (List UInt8)} {ts : List Transaction}
    (h : ReadsIdle slot polls address length result ts) : ∀ t ∈ ts, t.slot = slot := by
  cases h with
  | kept hwaits => exact hwaits.slot_eq
  | read hwaits hcarries =>
    intro t ht
    rcases List.mem_append.mp ht with ht | ht
    · exact hwaits.slot_eq t ht
    · obtain rfl := List.mem_singleton.mp ht
      exact hcarries.slot_eq

theorem Modifies.slot_eq {slot : Slot} {i : Instruction} {result : Except Fault Unit}
    {ts : List Transaction} (h : Modifies slot i result ts) : ∀ t ∈ ts, t.slot = slot := by
  cases h with
  | kept henable => simpa using henable.slot_eq
  | given henable _ hcarries => simpa using ⟨henable.slot_eq, hcarries.slot_eq⟩

theorem Asks.slot_eq {slot : Slot} {t : Transaction} (h : Asks slot t) : t.slot = slot := by
  obtain ⟨_, hcarries | ⟨_, _, hcarries⟩⟩ := h <;> exact hcarries.slot_eq

end FlashProgrammer.Flash

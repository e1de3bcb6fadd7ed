import FlashProgrammer.Proofs.Programmer.ShownFailures
import FlashProgrammer.Proofs.Trace.Calls

/-!
# The memory is read while the chip is idle

A read and a verification read the memory of the target, and a chip that is at work would not
hear them.  So they read its status first, at most as often as the budget of polls allows, and
give up if it is not seen idle.

`IdleReading` says what that means on the SPI bus and for the host, and `idle_reads` that it holds
for every station.  Nothing is assumed of what was done before, of the chips, or of when the bus
fails.
-/

namespace FlashProgrammer.Trace.Call

/-- The status was read whole, and reports no running erase or write. -/
def SaysIdle (c : Call) : Prop :=
  ∃ echo status, c.moves = [(0x05, .ok echo), (0xFF, .ok status)] ∧
    Flash.isBusyStatus status = false

/-- The chip was to be asked for its status. -/
def asksStatus (c : Call) : Bool := c.opcode? == some 0x05

/-- The chip was to be asked for its memory. -/
def asksMemory (c : Call) : Bool := c.opcode? == some 0x03

theorem asksMemory_of_asksStatus {c : Call} (h : c.asksStatus = true) : c.asksMemory = false := by
  rw [asksMemory, beq_iff_eq.mp h]
  rfl

end FlashProgrammer.Trace.Call

namespace FlashProgrammer.Flash

open Trace

variable {ω : Type} [Spi.Bus ω]

/-! ## Waiting -/

/-- A status read with a reply consists of two bytes, of which the second one is the reply. -/
theorem Instructs.moves_of_status {slot : Slot} {bs : List UInt8} {c : Call}
    (h : Instructs slot .readStatus (.ok bs) c) :
    ∃ echo status, c.moves = [(0x05, .ok echo), (0xFF, .ok status)] ∧ bs = [status] := by
  obtain ⟨result, htried, hreply⟩ := h.tried
  generalize c.moves = moves at htried
  cases htried with
  | moved pairs hpairs =>
    obtain ⟨⟨_, echo⟩, _, rfl, rfl, hfiller⟩ := List.map_eq_cons_iff.mp hpairs
    obtain ⟨⟨_, status⟩, _, rfl, rfl, hnone⟩ := List.map_eq_cons_iff.mp hfiller
    obtain rfl := List.map_eq_nil_iff.mp hnone
    exact ⟨echo, status, rfl, Except.ok.inj hreply⟩
  | failed _ _ => cases hreply

/-- Whether a chip is busy is asked in one call. -/
theorem isBusy_call (slot : Slot) (w : Traced ω) :
    ∃ c, c.slot = slot ∧ c.asksStatus = true ∧ Makes [c] w (isBusy slot w).2 ∧
      ∀ busy, (isBusy slot w).1 = .ok busy → ¬c.Fails ∧ (busy = false → c.SaysIdle) := by
  obtain ⟨c, hinstructs, hmakes⟩ := makes_execute slot .readStatus w
  refine ⟨c, hinstructs.slot_eq, by simp [Call.asksStatus, hinstructs.opcode_eq, Instruction.readStatus],
    hmakes, fun busy hbusy => ?_⟩
  have hanswer : (isBusy slot w).1 =
      ((execute slot .readStatus w).1.map fun bs => bs.getD 0 0).map isBusyStatus := rfl
  rw [hanswer] at hbusy
  generalize (execute slot .readStatus w).1 = reply at hinstructs hbusy
  cases reply with
  | error e => cases hbusy
  | ok bs =>
    obtain ⟨echo, status, hmoves, rfl⟩ := hinstructs.moves_of_status
    cases hbusy
    exact ⟨hinstructs.not_fails, fun hidle => ⟨echo, status, hmoves, hidle⟩⟩

/-- The calls of a wait until a chip is idle, and whether it was seen to be. -/
structure AwaitsIdle (slot : Slot) (polls : Nat) (ok : Bool) (cs : List Call) : Prop where
  length_le : cs.length ≤ polls
  asks : ∀ c ∈ cs, c.slot = slot ∧ c.asksStatus = true
  /-- The last call found it idle. -/
  idle_of_ok : ok = true → ∃ earlier idle, cs = earlier ++ [idle] ∧ idle.SaysIdle
  moved_of_ok : ok = true → ∀ c ∈ cs, ¬c.Fails

theorem awaitsIdle_in_vain {slot : Slot} {polls : Nat} {cs : List Call} (hlength : cs.length ≤ polls)
    (hasks : ∀ c ∈ cs, c.slot = slot ∧ c.asksStatus = true) : AwaitsIdle slot polls false cs :=
  ⟨hlength, hasks, nofun, nofun⟩

theorem waitIdle_awaits (slot : Slot) (polls : Nat) (w : Traced ω) :
    ∃ cs, AwaitsIdle slot polls (waitIdle slot polls w).1.isOk cs ∧
      Makes cs w (waitIdle slot polls w).2 := by
  induction polls generalizing w with
  | zero => exact ⟨[], awaitsIdle_in_vain (Nat.le_refl 0) (by simp), makes_refl w⟩
  | succ polls ih =>
    obtain ⟨c, hslot, hasks, hmakes, hanswer⟩ := isBusy_call slot w
    rw [waitIdle]
    generalize isBusy slot w = asked at hmakes hanswer ⊢
    obtain ⟨e | busy, w'⟩ := asked
    · exact ⟨[c], awaitsIdle_in_vain (by simp) (by simp [hslot, hasks]), hmakes⟩
    · obtain ⟨hmoved, hidle⟩ := hanswer busy rfl
      cases busy with
      | false =>
        exact ⟨[c], ⟨by simp, by simp [hslot, hasks], fun _ => ⟨[], c, rfl, hidle rfl⟩,
          fun _ => by simpa using hmoved⟩, hmakes⟩
      | true =>
        obtain ⟨cs, hawaits, hrest⟩ := ih w'
        refine ⟨c :: cs, ⟨?_, ?_, fun hok => ?_, fun hok => ?_⟩, hmakes.trans hrest⟩
        · exact Nat.succ_le_succ hawaits.length_le
        · exact List.forall_mem_cons.mpr ⟨⟨hslot, hasks⟩, hawaits.asks⟩
        · obtain ⟨earlier, idle, rfl, hsays⟩ := hawaits.idle_of_ok hok
          exact ⟨c :: earlier, idle, rfl, hsays⟩
        · exact List.forall_mem_cons.mpr ⟨hmoved, hawaits.moved_of_ok hok⟩

/-! ## Reading -/

/-- The calls of a read of memory, and whether it came to an end. -/
structure ReadsBack (polls : Nat) (ok : Bool) (cs : List Call) : Prop where
  /-- Right before the memory is read, the same chip has said that it is idle. -/
  after_idle : ∀ before c after, cs = before ++ c :: after → c.asksMemory = true →
    ∃ earlier idle, before = earlier ++ [idle] ∧ idle.slot = c.slot ∧ idle.SaysIdle
  polls_le : cs.countP Call.asksStatus ≤ polls
  idle_of_ok : ok = true → ∃ c ∈ cs, c.SaysIdle
  moved_of_ok : ok = true → ∀ c ∈ cs, ¬c.Fails

theorem readsBack_nil (polls : Nat) : ReadsBack polls false [] :=
  ⟨fun _ _ _ h => by simp at h, Nat.zero_le _, nofun, nofun⟩

namespace AwaitsIdle

variable {slot : Slot} {polls : Nat} {cs : List Call}

theorem countP_le {ok : Bool} (h : AwaitsIdle slot polls ok cs) :
    cs.countP Call.asksStatus ≤ polls :=
  Nat.le_trans (List.countP_le_length ..) h.length_le

/-- A wait in vain is all there is of a read. -/
theorem readsBack (h : AwaitsIdle slot polls false cs) : ReadsBack polls false cs := by
  refine ⟨fun before c after hsplit hmemory => ?_, h.countP_le, nofun, nofun⟩
  have hstatus := (h.asks c (hsplit ▸ by simp)).2
  rw [Call.asksMemory_of_asksStatus hstatus] at hmemory
  cases hmemory

/-- Once the chip was seen idle, its memory is read. -/
theorem readsBack_concat (h : AwaitsIdle slot polls true cs) {c : Call} {address length : Nat}
    {reply : Except Fault (List UInt8)} (hinstructs : Instructs slot (.readData address length) reply c) :
    ReadsBack polls reply.isOk (cs ++ [c]) := by
  obtain ⟨earlier, idle, rfl, hidle⟩ := h.idle_of_ok rfl
  refine ⟨fun before d after hsplit hmemory => ?_, ?_, fun _ => ⟨idle, by simp, hidle⟩, ?_⟩
  · rcases List.eq_nil_or_concat after with rfl | ⟨after, last, rfl⟩
    · obtain ⟨rfl, hlast⟩ := List.append_inj' hsplit rfl
      obtain rfl := List.singleton_inj.mp hlast
      exact ⟨earlier, idle, rfl, by rw [(h.asks idle (by simp)).1, hinstructs.slot_eq], hidle⟩
    · rw [List.concat_eq_append, ← List.cons_append, ← List.append_assoc] at hsplit
      obtain ⟨hwait, _⟩ := List.append_inj' hsplit rfl
      have hstatus := (h.asks d (hwait ▸ by simp)).2
      rw [Call.asksMemory_of_asksStatus hstatus] at hmemory
      cases hmemory
  · have hnot : c.asksStatus = false := by
      rw [Call.asksStatus, hinstructs.opcode_eq]
      rfl
    rw [List.countP_append, List.countP_singleton, hnot]
    exact h.countP_le
  · intro hok d hd
    cases reply with
    | error e => cases hok
    | ok bs =>
      rcases List.mem_append.mp hd with hd | hd
      · exact h.moved_of_ok rfl d hd
      · rw [List.mem_singleton.mp hd]
        exact hinstructs.not_fails

end AwaitsIdle

end FlashProgrammer.Flash

namespace FlashProgrammer.Programmer

open Flash Protocol Usb Trace
open Bench (Rig)

section Answering

variable {ω : Type} [Spi.Bus ω]

theorem readIdle_readsBack (slot : Slot) (polls address length : Nat) (w : Traced ω) :
    ∃ cs, ReadsBack polls (readIdle slot polls address length w).1.isOk cs ∧
      Makes cs w (readIdle slot polls address length w).2 := by
  obtain ⟨cs, hawaits, hmakes⟩ := waitIdle_awaits slot polls w
  rw [readIdle]
  generalize waitIdle slot polls w = waited at hawaits hmakes ⊢
  obtain ⟨e | _, w'⟩ := waited
  · exact ⟨cs, hawaits.readsBack, hmakes⟩
  · obtain ⟨c, hinstructs, hread⟩ := makes_execute slot (.readData address length) w'
    exact ⟨cs ++ [c], hawaits.readsBack_concat hinstructs, hmakes.trans hread⟩

theorem verify_readsBack (s : Programmer) (w : Traced ω) :
    ∃ cs ok, ReadsBack s.budget.flashPolls ok cs ∧ Makes cs w (s.verify w).2 ∧
      (ok = false → (s.verify w).1 = .invalid) := by
  have hnothing : ∃ cs ok, ReadsBack s.budget.flashPolls ok cs ∧ Makes cs w w ∧
      (ok = false → VerifyStatus.invalid = .invalid) :=
    ⟨[], false, readsBack_nil _, makes_refl w, fun _ => rfl⟩
  rw [verify]
  cases hsel : s.selected with
  | none => exact hnothing
  | some selected =>
    cases hwritten : s.written with
    | none => exact hnothing
    | some written =>
      obtain ⟨slot, g⟩ := selected
      obtain ⟨cs, hreads, hmakes⟩ := readIdle_readsBack slot s.budget.flashPolls
        (g.pageAddress written.page) written.length w
      simp only
      generalize readIdle slot s.budget.flashPolls (g.pageAddress written.page) written.length w =
        read at hreads hmakes ⊢
      obtain ⟨e | bs, w'⟩ := read
      · exact ⟨cs, false, hreads, hmakes, fun _ => rfl⟩
      · exact ⟨cs, true, hreads, hmakes, by simp⟩

end Answering

section Serving

variable {ω : Type} [Spi.Bus ω] [Controller ω]

theorem servePage_readsBack (page : Nat) (s : Station (Traced ω)) :
    ∃ cs ok, ReadsBack s.1.budget.flashPolls ok cs ∧
      Makes cs s.2.hw (servePage page s).2.hw ∧
      (ok = false → Drives [.stall .flash .toHost] s.2.hw (servePage page s).2.hw) ∧
      (servePage page s).1 = s.1 := by
  have hrefused : ∀ t : Station (Traced ω), Makes [] t.2.hw (refuse .toHost t).2.hw :=
    fun t => makes_of_used (used_stallEndpoint flashEndpoint .toHost t.2)
  have hnothing : ∃ cs ok, ReadsBack s.1.budget.flashPolls ok cs ∧
      Makes cs s.2.hw (refuse .toHost s).2.hw ∧
      (ok = false → Drives [.stall .flash .toHost] s.2.hw (refuse .toHost s).2.hw) ∧
      (refuse .toHost s).1 = s.1 :=
    ⟨[], false, readsBack_nil _, hrefused s, fun _ => drives_refuse .toHost s, rfl⟩
  rw [servePage]
  cases s.1.selected with
  | none => exact hnothing
  | some selected =>
    obtain ⟨slot, g⟩ := selected
    simp only
    split
    · obtain ⟨cs, hreads, hmakes⟩ := readIdle_readsBack slot s.1.budget.flashPolls
        (g.pageAddress page) g.pageLength s.2.hw
      have hdrives := drives_readIdle slot s.1.budget.flashPolls (g.pageAddress page) g.pageLength
        s.2.hw
      generalize readIdle slot s.1.budget.flashPolls (g.pageAddress page) g.pageLength s.2.hw =
        read at hreads hmakes hdrives ⊢
      obtain ⟨e | bytes, w⟩ := read
      · have hquiet := hrefused (s.1, ⟨s.2.device, w⟩)
        exact ⟨cs, false, hreads, List.append_nil cs ▸ hmakes.trans hquiet,
          fun _ => hdrives.trans (drives_refuse .toHost (s.1, ⟨s.2.device, w⟩)), rfl⟩
      · have hquiet : Makes [] w _ :=
          makes_of_used (talks_write flashEndpoint bytes ⟨s.2.device, w⟩).used
        exact ⟨cs, true, hreads, List.append_nil cs ▸ hmakes.trans hquiet, by simp, rfl⟩
    · exact hnothing

variable [ResetLine ω]

/-- What happens on the SPI bus while a request is served. -/
def busEventsOf (r : Request) (s : Station ω) : List Event :=
  busEvents (serve r (s.1, traced s.2)).2.hw.events

/-- The calls that a request is served with. -/
def callsOf (r : Request) (s : Station ω) : List Call := calls (busEventsOf r s)

/-- A request reads the memory of a chip only while the chip is idle, and takes nothing from it
otherwise. -/
structure IdleReading (r : Request) (s : Station ω) : Prop where
  /-- The calls are all that happens on the SPI bus. -/
  made : busEventsOf r s = (callsOf r s).flatMap Call.events
  /-- Right before the memory is read, the same chip has said that it is idle. -/
  after_idle : ∀ before c after, callsOf r s = before ++ c :: after → c.asksMemory = true →
    ∃ earlier idle, before = earlier ++ [idle] ∧ idle.slot = c.slot ∧ idle.SaysIdle
  /-- The status is read no more often than the budget allows. -/
  polls_le : (callsOf r s).countP Call.asksStatus ≤ s.1.budget.flashPolls
  /-- If the chip was not seen idle or a byte failed, the outcome is that of a failure. -/
  refused : (∀ c ∈ callsOf r s, ¬c.SaysIdle) ∨ (∃ c ∈ callsOf r s, c.Fails) → Alerts r s
  /-- The programmer remembers what it did before. -/
  unchanged : (serve r s).1 = s.1

/-- What reads the memory as it should, and fails if it could not, is an idle reading. -/
theorem idleReading_of_readsBack {r : Request} {s : Station ω} {cs : List Call} {ok : Bool}
    (h : ReadsBack s.1.budget.flashPolls ok cs)
    (hmakes : Makes cs (.fresh s.2.hw) (serve r (s.1, traced s.2)).2.hw)
    (halerts : ok = false → Alerts r s) (hunchanged : (serve r s).1 = s.1) : IdleReading r s := by
  have hmade : busEventsOf r s = cs.flatMap Call.events := hmakes.busEvents_eq
  have hcalls : callsOf r s = cs := by rw [callsOf, hmade, calls_flatMap]
  have hrefused : (∀ c ∈ cs, ¬c.SaysIdle) ∨ (∃ c ∈ cs, c.Fails) → Alerts r s := by
    cases ok with
    | false => exact fun _ => halerts rfl
    | true =>
      rintro (hbusy | ⟨c, hc, hfails⟩)
      · obtain ⟨c, hc, hidle⟩ := h.idle_of_ok rfl
        exact absurd hidle (hbusy c hc)
      · exact absurd hfails (h.moved_of_ok rfl c hc)
  subst hcalls
  exact ⟨hmade, h.after_idle, h.polls_le, hrefused, hunchanged⟩

theorem idleReading_read (page : PageNumber) (s : Station ω) : IdleReading (.read page) s := by
  obtain ⟨cs, ok, hreads, hmakes, hdrives, hsame⟩ :=
    servePage_readsBack page.val (s.1, traced s.2)
  have huntraced := congrArg Prod.fst (serve_untraced (.read page) (s.1, traced s.2))
  exact idleReading_of_readsBack hreads hmakes (fun hnot => (hdrives hnot).controllerActions_eq)
    (huntraced.trans hsame)

theorem idleReading_verify (s : Station ω) : IdleReading .verify s := by
  obtain ⟨cs, ok, hreads, hmakes, hinvalid⟩ := verify_readsBack s.1 (traced s.2).hw
  have hwritten := makes_of_used (talks_write flashEndpoint
    (Response.verify (s.1.verify (traced s.2).hw).1).encode
    ⟨s.2.device, (s.1.verify (traced s.2).hw).2⟩).used
  have hserved : Makes cs (.fresh s.2.hw) (serve .verify (s.1, traced s.2)).2.hw :=
    List.append_nil cs ▸ hmakes.trans hwritten
  have hreply : replyTo .verify s = some (.verify (s.1.verify (traced s.2).hw).1) :=
    congrArg Prod.fst (answer_hw .verify s.1 (traced s.2).hw)
  refine idleReading_of_readsBack hreads hserved (fun hnot => ?_) rfl
  rw [Alerts, hreply, hinvalid hnot]

/-- The memory of a chip is never read while the chip is busy.

A page that is to be read, and one that is to be verified, is read right after the same chip has
said that it is idle, and the chip is asked that no more often than the budget allows.  If it is
not seen idle or a byte fails, a read halts the endpoint and sends nothing, and a verification is
answered `invalid`.  Either way the programmer remembers what it did before.  The station may be
any: whatever was served before, whatever the chips answer, and whenever the bus fails. -/
theorem idle_reads (s : Station ω) : (∀ page, IdleReading (.read page) s) ∧ IdleReading .verify s :=
  ⟨fun page => idleReading_read page s, idleReading_verify s⟩

end Serving

/-- A chip that stays busy for two polls is asked three times before its memory is read. -/
example :
    (callsOf (.read (.ofNat 0))
      (Rig.targeting { id := [0xEF, 0x40, 0x14], size := 0x100000, busy := 2 })).map
        Call.opcode? = [some 0x05, some 0x05, some 0x05, some 0x03] := by
  decide +kernel

end FlashProgrammer.Programmer

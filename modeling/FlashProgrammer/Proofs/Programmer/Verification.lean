import FlashProgrammer.Bench.Rig
import FlashProgrammer.Proofs.Bench.ChipAnswers
import FlashProgrammer.Proofs.Programmer.Reachable

/-!
# Verifying

A verification compares the page that was programmed last with the page buffer.  The
buffer is shared: every later write fills it packet by packet, and one whose data
does not all come leaves what came in its front.

A `Memo` is what the exchanges of a run say of the last write: the page, the data,
and the bytes that stand in the buffer in place of the data.  `Serves.recalls` says
that serving a request keeps the programmer in step with the memo, `Runs.recalls`
says it of a whole run, and `verdict_exact` compares the answer with the truth.
-/

namespace FlashProgrammer.Programmer

open Flash Protocol Usb Trace
open Bench (FlashBus NorFlash Rig)

/-! ## What a run says of the last write -/

/-- The last write that was programmed. -/
structure Memo where
  page : Nat
  /-- What was written to it. -/
  data : List UInt8
  /-- What stands in the page buffer in place of that. -/
  held : List UInt8
deriving DecidableEq, Repr

/-- Other bytes came for the page buffer. -/
def Memo.overlay (m : Memo) (bytes : List UInt8) : Memo :=
  { m with held := bytes.take m.held.length ++ m.held.drop bytes.length }

/-- A page program went out. -/
def Exchange.programs (x : Exchange) : Bool :=
  x.transactions.any fun t => t.sent.head? == some 0x02

/-- What is known of the last write after one more exchange. -/
def remember (memo : Option Memo) (x : Exchange) : Option Memo :=
  match x.request with
  | .targetDevice _ _ => none
  | .write page _ =>
    if x.programs then some ⟨page.val, x.data, x.data⟩
    else memo.map fun m => m.overlay x.data
  | _ => memo

/-- The last write since a chip was targeted. -/
def remembered (xs : List Exchange) : Option Memo := xs.foldl remember none

/-- A write that is refused brings nothing and changes nothing. -/
theorem remember_of_refused {memo : Option Memo} {page count : PageNumber} {x : Exchange}
    (hwrite : x.request = .write page count) (hprograms : x.programs = false)
    (hdata : x.data = []) : remember memo x = memo := by
  simp only [remember, hwrite, hprograms, hdata]
  cases memo <;> simp [Memo.overlay]

theorem Memo.length_overlay (m : Memo) (bytes : List UInt8) :
    (m.overlay bytes).held.length = m.held.length := by
  simp only [overlay, List.length_append, List.length_take, List.length_drop]
  omega

theorem take_overlay {α : Type} (bytes page : List α) (n : Nat) :
    (bytes ++ page.drop bytes.length).take n =
      bytes.take n ++ (page.take n).drop bytes.length := by
  rw [List.take_append, List.drop_take]

/-! ## What the programmer knows of it -/

/-- The programmer holds the last write in its page buffer, as far as it was not overwritten. -/
inductive Recalls (s : Programmer) : Option Memo → Prop where
  | nothing (hwritten : s.written = none) : Recalls s none
  | page {m : Memo} (hwritten : s.written = some ⟨m.page, m.data.length⟩)
      (hlength : m.held.length = m.data.length)
      (hheld : s.page.take m.data.length = m.held) : Recalls s (some m)

theorem Recalls.overlay {s : Programmer} {memo : Option Memo} (h : Recalls s memo)
    (bytes : List UInt8) :
    Recalls { s with page := bytes ++ s.page.drop bytes.length }
      (memo.map fun m => m.overlay bytes) := by
  cases h with
  | nothing hwritten => exact .nothing hwritten
  | @page m hwritten hlength hheld =>
    refine .page hwritten ((m.length_overlay bytes).trans hlength) ?_
    show (bytes ++ s.page.drop bytes.length).take m.data.length = _
    rw [take_overlay, hheld, ← hlength]
    rfl

/-- Serving a request without a fault keeps the programmer in step with what is known. -/
theorem Serves.recalls {s s' : Programmer} {r : Request} {data : List UInt8}
    {ts : List Transaction} {reply : Option Response} {memo : Option Memo}
    (h : Serves s r data ts reply s') (hs : Recalls s memo) (hfault : ∀ t ∈ ts, t.fault = none) :
    Recalls s' (remember memo ⟨r, data, reply, ts⟩) := by
  cases h with
  | targetedNone _ | targeted _ _ _ => exact .nothing rfl
  | writeRefused _ =>
    rw [remember_of_refused rfl rfl rfl]
    exact hs
  | writeIncomplete _ _ _ _ _ _ => exact hs.overlay data
  | @writeProgrammed page count _ _ _ _ _ _ _ _ _ hbytes hmodifies =>
    obtain ⟨_, t, u, rfl, _, _, _, hsent⟩ := hmodifies.of_fault_none hfault
    have hprograms : Exchange.programs ⟨.write page count, data, none, [t, u]⟩ = true := by
      simp [Exchange.programs, hsent, Instruction.clocked, Instruction.bytes,
        Instruction.pageProgram]
    simp only [remember, hprograms, if_true]
    rw [← hbytes]
    exact .page rfl rfl List.take_left
  | writeFailed _ _ _ _ _ _ hmodifies =>
    obtain ⟨hresult, _⟩ := hmodifies.of_fault_none hfault
    cases hresult
  | statusDone _ _ _ | statusNext _ _ _ _ _ | statusNextFailed _ _ _ _ _
  | eraseStarted _ _ _ _ _ _ =>
    cases hs with
    | nothing hwritten => exact .nothing hwritten
    | page hwritten hlength hheld => exact .page hwritten hlength hheld
  | _ => exact hs

theorem Runs.recalls {s s' : Programmer} {xs : List Exchange} {memo : Option Memo}
    (h : Runs s xs s') (hreachable : Reachable s) (hs : Recalls s memo)
    (hfault : ∀ x ∈ xs, ∀ t ∈ x.transactions, t.fault = none) :
    Recalls s' (xs.foldl remember memo) := by
  induction h generalizing memo with
  | stop s => exact hs
  | serve r s _ ih =>
    refine ih (.served r s hreachable) ?_ fun x hx => hfault x (List.mem_cons_of_mem _ hx)
    exact (hreachable.serves r).recalls hs (hfault _ List.mem_cons_self)

/-! ## The answer -/

/-- The verdict on bytes that were found where others were to be. -/
def verdict (found expected : List UInt8) : VerifyStatus :=
  if found = expected then .agrees else .differs

theorem verdict_eq_iff (found held data : List UInt8) :
    verdict found held = verdict found data ↔ held = data ∨ (found ≠ data ∧ found ≠ held) := by
  by_cases hheld : found = held
  · subst hheld
    by_cases hdata : found = data <;> simp [verdict, hdata]
  · by_cases hdata : found = data
    · subst hdata
      simp [verdict, hheld, eq_comm]
    · simp [verdict, hheld, hdata]

/-- On a bus that works, a chip that comes to rest in time is read and compared. -/
theorem verify_eq {s : Programmer} {b : FlashBus} {slot : Slot} {g : Geometry} {c : NorFlash}
    {w : Written} (hsel : s.selected = some (slot, g)) (hwritten : s.written = some w)
    (haddress : g.pageAddress w.page < addressReach) (hchip : b.Holds slot c)
    (hstuck : c.stuck = false) (hbusy : c.busy < s.budget.flashPolls) :
    (s.verify b).1 =
      verdict (c.readRange (g.pageAddress w.page) w.length) (s.page.take w.length) := by
  obtain ⟨b', hread, _⟩ := hchip.readIdle hstuck hbusy (g.pageAddress w.page) w.length
  have hreach : g.pageAddress w.page % 0x1000000 = g.pageAddress w.page :=
    Nat.mod_eq_of_lt haddress
  rw [hreach] at hread
  simp only [verify, hsel, hwritten, hread, verdict]

section Answering

variable {κ ρ : Type}

theorem isView_spi : IsView (Hardware.spi : Hardware κ FlashBus ρ → FlashBus) := fun _ _ => rfl

variable [ResetLine ρ]

theorem replyTo_verify (s : Station (Hardware κ FlashBus ρ)) :
    replyTo .verify s = some (.verify (s.1.verify s.2.hw.spi).1) := by
  rw [verify_view isView_spi]
  rfl

/-- What a verification answers after any run without a fault on the SPI bus, and when that is the
truth.

If nothing was programmed since a chip was targeted, the answer is that there is nothing to
compare.  Otherwise let `m` be the last write that was programmed, on a chip of at most
`addressReach` bytes that comes to rest within the poll budget.  The answer compares the memory of
the page with what stands in the page buffer in place of the data.  That is the right answer exactly
if the data itself still stands there, or the memory equals neither. -/
theorem verdict_exact {budget : WaitBudget} {xs : List Exchange}
    {s : Station (Hardware κ FlashBus ρ)} (hruns : Runs { budget } xs s.1)
    (hfault : ∀ x ∈ xs, ∀ t ∈ x.transactions, t.fault = none) :
    (remembered xs = none → replyTo .verify s = some (.verify .invalid)) ∧
    ∀ m, remembered xs = some m → ∃ slot g, s.1.selected = some (slot, g) ∧
      ∀ c, g.capacity ≤ addressReach → s.2.hw.spi.Holds slot c → c.stuck = false →
        c.busy < s.1.budget.flashPolls →
        let memory := c.readRange (m.page * g.pageLength) m.data.length
        replyTo .verify s = some (.verify (verdict memory m.held)) ∧
        (replyTo .verify s = some (.verify (verdict memory m.data)) ↔
          m.held = m.data ∨ (memory ≠ m.data ∧ memory ≠ m.held)) := by
  have hrecalls : Recalls s.1 (remembered xs) :=
    hruns.recalls (.start budget) (.nothing rfl) hfault
  rw [replyTo_verify]
  constructor
  · intro hnone
    rw [hnone] at hrecalls
    cases hrecalls with
    | nothing hwritten =>
      rw [verify, hwritten]
      cases s.1.selected <;> rfl
  · intro m hm
    rw [hm] at hrecalls
    cases hrecalls with
    | page hwritten _ hheld =>
      have hwellFormed := (hruns.reachable (.start budget)).wellFormed
      obtain ⟨slot, g, hsel, hpage, _⟩ := hwellFormed.written _ hwritten
      refine ⟨slot, g, hsel, fun c hcapacity hchip hstuck hbusy => ?_⟩
      have haddress : g.pageAddress m.page < addressReach := by
        have hfits : (m.page + 1) * g.pageLength ≤ g.capacity :=
          (Nat.le_div_iff_mul_le g.pageLength_pos).mp hpage
        have hpos := g.pageLength_pos
        rw [Nat.succ_mul] at hfits
        exact Nat.lt_of_lt_of_le (Nat.lt_of_lt_of_le (Nat.lt_add_of_pos_right hpos) hfits)
          hcapacity
      have hanswer := verify_eq hsel hwritten haddress hchip hstuck hbusy
      rw [hheld] at hanswer
      intro memory
      have hmemory : c.readRange (g.pageAddress m.page) m.data.length = memory := rfl
      rw [hmemory] at hanswer
      rw [hanswer]
      refine ⟨rfl, ?_⟩
      rw [Option.some.injEq, Response.verify.injEq]
      exact verdict_eq_iff memory m.held m.data

end Answering

/-! ## On the bench -/

/-- A programmer with a part of 1 MiB, to which the host has sent packets. -/
def sentTo (waiting : List (List UInt8)) : Station Rig :=
  Rig.enumerated ⟨some { id := [0xEF, 0x40, 0x14], size := 0x100000 }, none, none⟩ waiting

/-- Four bytes are written to page 0, which takes two status reads, and verified. -/
def writeAndVerify : List Request :=
  [.targetDevice 0 0, .write (.ofNat 0) (.ofNat 4)] ++
    List.replicate 3 (.erase .status (.ofNat 0) (.ofNat 0)) ++ [.verify]

/-- The four bytes come. -/
def pageWritten : List Exchange × Station Rig := serveAll writeAndVerify (sentTo [[1, 2, 3, 4]])

/-- Then one byte of four comes for page 1. -/
def pageSpoiled : List Exchange × Station Rig :=
  serveAll (writeAndVerify ++ [.write (.ofNat 1) (.ofNat 4)]) (sentTo [[1, 2, 3, 4], [0xFF], []])

theorem verdict_exact_after_one_write :
    remembered pageWritten.1 = some ⟨0, [1, 2, 3, 4], [1, 2, 3, 4]⟩ ∧
    replyTo .verify pageWritten.2 = some (.verify .agrees) := by
  have hremembered : remembered pageWritten.1 = some ⟨0, [1, 2, 3, 4], [1, 2, 3, 4]⟩ := by
    decide +kernel
  refine ⟨hremembered, ?_⟩
  have hruns : Runs {} pageWritten.1 pageWritten.2.1 :=
    runs_serveAll writeAndVerify (sentTo [[1, 2, 3, 4]])
  obtain ⟨slot, g, hsel, hanswer⟩ := (verdict_exact hruns (by decide +kernel)).2 _ hremembered
  have hselected : pageWritten.2.1.selected =
      some (.local1, (Part.sectored 0x40 0x14).geometry ⟨0xEF, 0x40, 0x14⟩) := by
    decide +kernel
  rw [hselected] at hsel
  cases hsel
  obtain ⟨c, hchip⟩ : ∃ c, pageWritten.2.2.hw.spi.chip? .local1 = some c :=
    Option.isSome_iff_exists.mp (by decide +kernel)
  have hstate : (pageWritten.2.2.hw.spi.chip? .local1).map
      (fun c => (c.stuck, c.busy, c.readRange 0 4)) = some (false, 0, [1, 2, 3, 4]) := by
    decide +kernel
  rw [hchip] at hstate
  obtain ⟨hstuck, hbusy, hmemory⟩ : c.stuck = false ∧ c.busy = 0 ∧
      c.readRange 0 4 = [1, 2, 3, 4] := by
    simpa using hstate
  have hpolls : c.busy < pageWritten.2.1.budget.flashPolls := by
    rw [hbusy]
    decide +kernel
  have hworks : pageWritten.2.2.hw.spi.failLeft = 0 := by
    decide +kernel
  obtain ⟨hreply, _⟩ := hanswer c (by decide) ⟨hchip, hworks⟩ hstuck hpolls
  have hpage : c.readRange (0 * 256) 4 = [1, 2, 3, 4] := by
    rw [Nat.zero_mul, hmemory]
  rw [hreply]
  show some (Response.verify (verdict (c.readRange (0 * 256) 4) [1, 2, 3, 4])) = _
  rw [hpage]
  decide

/-- The one byte stands in the page buffer before the rest of the data.  Page 0 is unchanged, but
the verification that agreed before now differs. -/
theorem incomplete_write_spoils_verdict :
    Runs {} pageSpoiled.1 pageSpoiled.2.1 ∧
    (∀ x ∈ pageSpoiled.1, ∀ t ∈ x.transactions, t.fault = none) ∧
    remembered pageSpoiled.1 = some ⟨0, [1, 2, 3, 4], [0xFF, 2, 3, 4]⟩ ∧
    (pageSpoiled.2.2.hw.spi.chip? .local1).map (fun c => (c.isBusy, c.readRange 0 4)) =
      some (false, [1, 2, 3, 4]) ∧
    (pageSpoiled.1.map Exchange.reply)[5]? = some (some (.verify .agrees)) ∧
    replyTo .verify pageSpoiled.2 = some (.verify .differs) := by
  refine ⟨runs_serveAll _ (sentTo [[1, 2, 3, 4], [0xFF], []]), ?_, ?_, ?_, ?_, ?_⟩
  all_goals decide +kernel

end FlashProgrammer.Programmer

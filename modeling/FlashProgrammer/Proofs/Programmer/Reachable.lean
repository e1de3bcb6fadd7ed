import FlashProgrammer.Proofs.Programmer.Serving

/-!
# Reachable programmers

A programmer is `Reachable` if some requests, served one after the other on some
hardware, lead to it from power-on.  The hardware may be another one each time, so
nothing is assumed of what happens between two requests.

`WellFormed` is what they have in common: the selected chip was identified, and what
is outstanding or was written lies inside it.  `Runs` keeps the requests themselves,
each with its reply and its transactions.
-/

namespace FlashProgrammer.Programmer

open Flash Protocol Usb Trace

/-- A programmer after some requests. -/
inductive Reachable : Programmer → Prop where
  /-- At power-on. -/
  | start (budget : WaitBudget) : Reachable { budget }
  /-- A request was served. -/
  | served {ω : Type} [Spi.Bus ω] [ResetLine ω] [Controller ω] (r : Request) (s : Station ω)
      (h : Reachable s.1) : Reachable (serve r s).1

/-- What all reachable programmers have in common. -/
structure WellFormed (s : Programmer) : Prop where
  /-- The page buffer holds the longest page. -/
  page_length : s.page.length = maxPageLength
  /-- The selected chip was identified. -/
  identified : ∀ slot g, s.selected = some (slot, g) → Identified g
  /-- A running erase lies inside the selected chip, and the next block follows the current one. -/
  erasing : ∀ current next last, s.job = .erase current next last →
    ∃ slot g, s.selected = some (slot, g) ∧
      next = current + 1 ∧ current ≤ last ∧ last < g.eraseBlocks ∧ last < addressReach
  /-- The page that is being programmed is one of the selected chip. -/
  writing : ∀ page, s.job = .write page →
    ∃ slot g, s.selected = some (slot, g) ∧ page < g.pageCount ∧ page < addressReach
  /-- The page that was written last is one of the selected chip, and was written in part. -/
  written : ∀ w, s.written = some w →
    ∃ slot g, s.selected = some (slot, g) ∧
      w.page < g.pageCount ∧ w.page < addressReach ∧ 0 < w.length ∧ w.length ≤ g.pageLength

theorem wellFormed_start (budget : WaitBudget) : WellFormed { budget } where
  page_length := List.length_replicate
  identified := fun _ _ h => by cases h
  erasing := fun _ _ _ h => by cases h
  writing := fun _ h => by cases h
  written := fun _ h => by cases h

/-- Nothing that was started is outstanding any more. -/
theorem WellFormed.idle {s : Programmer} (h : s.WellFormed) :
    WellFormed { s with job := .idle } where
  page_length := h.page_length
  identified := h.identified
  erasing := fun _ _ _ hjob => by cases hjob
  writing := fun _ hjob => by cases hjob
  written := h.written

/-- What came of a write stands in the front of the page buffer. -/
theorem WellFormed.page {s : Programmer} (h : s.WellFormed) {bytes : List UInt8}
    (hbytes : bytes.length ≤ maxPageLength) :
    WellFormed { s with page := bytes ++ s.page.drop bytes.length } where
  page_length := by
    rw [List.length_append, List.length_drop, h.page_length]
    omega
  identified := h.identified
  erasing := h.erasing
  writing := h.writing
  written := h.written

/-- Blocks of the selected chip are being erased. -/
theorem WellFormed.erase {s : Programmer} (h : s.WellFormed) {slot : Slot} {g : Geometry}
    {current last : Nat} (hsel : s.selected = some (slot, g)) (hle : current ≤ last)
    (hblocks : last < g.eraseBlocks) (hreach : last < addressReach) :
    WellFormed { s with job := .erase current (current + 1) last } where
  page_length := h.page_length
  identified := h.identified
  erasing := fun _ _ _ hjob => by
    cases hjob
    exact ⟨slot, g, hsel, rfl, hle, hblocks, hreach⟩
  writing := fun _ hjob => by cases hjob
  written := h.written

/-- Another chip was selected, or none. -/
theorem WellFormed.retarget {s : Programmer} (h : s.WellFormed) {target : Option Slot}
    {geometry : Option Geometry} (hg : ∀ g, geometry = some g → Identified g) :
    WellFormed { s with job := .idle, written := none, target, geometry } where
  page_length := h.page_length
  identified := fun slot g hsel => by
    simp only [selected, Option.bind_eq_bind, Option.bind_eq_some_iff] at hsel
    obtain ⟨_, _, g', hg', heq⟩ := hsel
    cases heq
    exact hg g hg'
  erasing := fun _ _ _ hjob => by cases hjob
  writing := fun _ hjob => by cases hjob
  written := fun _ hwritten => by cases hwritten

/-- The blocks that an erase request names have numbers of three bytes. -/
theorem span?_lt {first last : PageNumber} {operation : EraseOperation} {b e : Nat}
    (h : span? first.val last.val operation = some (b, e)) : e < addressReach := by
  have hfirst : first.val < addressReach := first.isLt
  have hlast : last.val < addressReach := last.isLt
  cases operation with
  | all =>
    cases h
    decide
  | page =>
    cases h
    exact hfirst
  | pageRange =>
    cases h
    exact hlast
  | status => cases h

theorem Serves.wellFormed {s s' : Programmer} {r : Request} {data : List UInt8}
    {ts : List Transaction} {reply : Option Response} (h : Serves s r data ts reply s') (hs : s.WellFormed) :
    s'.WellFormed := by
  cases h with
  | deviceCount => exact hs
  | listedNone _ => exact hs
  | listed _ _ _ => exact hs
  | targetedNone _ => exact hs.retarget fun _ h => by cases h
  | targeted _ hg _ =>
    refine hs.retarget fun _ h => ?_
    cases h
    exact hg
  | eraseUntargeted _ => exact hs
  | statusUnread _ _ => exact hs
  | statusBusy _ _ => exact hs
  | statusDone _ _ _ => exact hs.idle
  | statusNext hsel _ hjob hnext _ =>
    obtain ⟨slot', g', hsel', _, _, hblocks, hreach⟩ := hs.erasing _ _ _ hjob
    exact hs.erase hsel' hnext hblocks hreach
  | statusNextFailed _ _ _ _ _ => exact hs.idle
  | eraseOutstanding _ _ _ => exact hs
  | eraseOutOfRange _ _ _ _ => exact hs
  | eraseStarted hsel hspan _ hle hblocks _ => exact hs.erase hsel hle hblocks (span?_lt hspan)
  | eraseFailed _ _ _ _ _ _ => exact hs
  | readRefused _ => exact hs
  | readTried _ _ _ => exact hs
  | writeRefused _ => exact hs
  | @writeIncomplete _ _ _ g _ _ _ _ hcount _ hbytes =>
    have hle := g.pageLength_le
    exact hs.page (show _ ≤ 256 by omega)
  | @writeProgrammed page count slot g _ _ hsel _ hpos hcount hpage hbytes _ =>
    have hle := g.pageLength_le
    have hpaged := hs.page (show data.length ≤ 256 by omega)
    refine ⟨hpaged.page_length, hs.identified, ?_, ?_, ?_⟩
    · intro _ _ _ h
      cases h
    · intro p h
      cases h
      exact ⟨slot, g, hsel, hpage, page.isLt⟩
    · intro w h
      cases h
      exact ⟨slot, g, hsel, hpage, page.isLt, hpos, hcount⟩
  | @writeFailed _ _ _ g _ _ _ _ _ _ hcount _ hbytes _ =>
    have hle := g.pageLength_le
    have hpaged := hs.page (show data.length ≤ 256 by omega)
    refine ⟨hpaged.page_length, hs.identified, hs.erasing, hs.writing, ?_⟩
    intro _ h
    cases h
  | verifyNothing _ => exact hs
  | verifyRead _ _ _ => exact hs
  | verifyUnread _ _ _ => exact hs
  | resetTarget => exact hs

theorem Reachable.wellFormed {s : Programmer} (h : Reachable s) : s.WellFormed := by
  induction h with
  | start budget => exact wellFormed_start budget
  | served r s _ ih => exact (serves r s ih.page_length).wellFormed ih

/-- A request that is answered apart from the main loop does to the programmer what serving it
does.  One that has no answer does nothing. -/
theorem Reachable.answer {ω : Type} [Spi.Bus ω] [ResetLine ω] [Controller ω] {s : Station ω}
    (h : Reachable s.1) (r : Request) : Reachable (s.1.answer r s.2.hw).2.1 := by
  have hresponded : (respond r s).1 = (s.1.answer r s.2.hw).2.1 := by
    rw [respond]
    rcases s.1.answer r s.2.hw with ⟨_ | response, s', w⟩ <;> rfl
  have hserve : Reachable (serve r s).1 := .served r s h
  rw [← hresponded]
  cases r with
  | read | write => exact h
  | _ => exact hserve

/-- Serving a request on a reachable programmer comes to one of the outcomes. -/
theorem Reachable.serves {ω : Type} [Spi.Bus ω] [ResetLine ω] [Controller ω] {s : Station ω}
    (h : Reachable s.1) (r : Request) :
    Serves s.1 r (dataOf r s) (transactionsOf r s) (replyTo r s) (serve r s).1 :=
  Programmer.serves r s h.wellFormed.page_length

/-! ## Runs -/

/-- A request that was served, with what the host and the chips saw of it. -/
structure Exchange where
  request : Request
  /-- The bytes that came for it. -/
  data : List UInt8
  /-- The frame it was answered with, if it was answered with one. -/
  reply : Option Response
  /-- The transactions it was served with. -/
  transactions : List Transaction

/-- Requests served one after the other.  Whatever happens to the hardware between two of them. -/
inductive Runs : Programmer → List Exchange → Programmer → Prop where
  | stop (s : Programmer) : Runs s [] s
  | serve {ω : Type} [Spi.Bus ω] [ResetLine ω] [Controller ω] {xs : List Exchange}
      {s' : Programmer} (r : Request) (s : Station ω) (h : Runs (serve r s).1 xs s') :
      Runs s.1 (⟨r, dataOf r s, replyTo r s, transactionsOf r s⟩ :: xs) s'

/-- Serves requests one after the other while nothing else happens to the hardware. -/
def serveAll {ω : Type} [Spi.Bus ω] [ResetLine ω] [Controller ω] :
    List Request → Station ω → List Exchange × Station ω
  | [], s => ([], s)
  | r :: rs, s =>
    let (xs, s') := serveAll rs (serve r s)
    (⟨r, dataOf r s, replyTo r s, transactionsOf r s⟩ :: xs, s')

theorem runs_serveAll {ω : Type} [Spi.Bus ω] [ResetLine ω] [Controller ω] (rs : List Request)
    (s : Station ω) : Runs s.1 (serveAll rs s).1 (serveAll rs s).2.1 := by
  induction rs generalizing s with
  | nil => exact .stop s.1
  | cons r rs ih => exact .serve r s (ih (serve r s))

theorem Runs.reachable {s s' : Programmer} {xs : List Exchange} (h : Runs s xs s')
    (hs : Reachable s) : Reachable s' := by
  induction h with
  | stop s => exact hs
  | serve r s _ ih => exact ih (.served r s hs)

end FlashProgrammer.Programmer

import FlashProgrammer.Usb.WorkQueue

/-!
# The work queue is a bounded list

The queue is kept in a ring, and nobody who uses it can tell.  A `Queueing` is a way to keep
work, `inRing` is the ring and `inList` is a plain list with the rules spelled out.
`run_inRing` says that both answer every sequence of steps alike, from any head of the ring and
whatever its other cells hold.

`work_queue_exact` says it of a queue that starts out empty, which never holds work twice.
Every head comes up, with every list of work behind it.
-/

namespace FlashProgrammer.Usb

/-! ## Two ways to keep work -/

/-- A way to keep work that waits. -/
structure Queueing (σ : Type) where
  /-- Adds work, and says whether it did. -/
  push : Work → σ → Bool × σ
  /-- Takes the oldest work. -/
  pop : σ → Option Work × σ
  clear : σ → σ
  length : σ → Nat
  isEmpty : σ → Bool

/-- Work is kept in the ring. -/
def inRing : Queueing WorkQueue where
  push work q := q.push work
  pop q := q.pop
  clear _ := .empty
  length q := q.length
  isEmpty q := q.isEmpty

/-- Work is kept in a list of at most eight, none of it twice. -/
def inList : Queueing (List Work) where
  push work waiting :=
    if work ∈ waiting ∨ waiting.length = 8 then (false, waiting) else (true, waiting ++ [work])
  pop
    | [] => (none, [])
    | work :: waiting => (some work, waiting)
  clear _ := []
  length waiting := waiting.length
  isEmpty waiting := waiting.isEmpty

/-! ## Steps -/

/-- What is done to a queue. -/
inductive QueueStep where
  | push (work : Work)
  | pop
  | clear
deriving DecidableEq, Repr

/-- What a queue answers to a step. -/
inductive QueueAnswer where
  | added (success : Bool)
  | taken (work : Option Work)
  | cleared
deriving DecidableEq, Repr

/-- What there is to see of a step: its answer, and what the queue then says of itself. -/
structure QueueSight where
  answer : QueueAnswer
  length : Nat
  isEmpty : Bool
deriving DecidableEq, Repr

namespace Queueing

variable {σ : Type} (k : Queueing σ)

def step : QueueStep → σ → QueueAnswer × σ
  | .push work, s => (.added (k.push work s).1, (k.push work s).2)
  | .pop, s => (.taken (k.pop s).1, (k.pop s).2)
  | .clear, s => (.cleared, k.clear s)

/-- What is seen of a state after an answer. -/
def sight (answer : QueueAnswer) (s : σ) : QueueSight := ⟨answer, k.length s, k.isEmpty s⟩

/-- Takes steps one after the other. -/
def run : List QueueStep → σ → List QueueSight × σ
  | [], s => ([], s)
  | step :: steps, s =>
    let (answer, s) := k.step step s
    let (sights, last) := run steps s
    (k.sight answer s :: sights, last)

theorem run_cons (step : QueueStep) (steps : List QueueStep) (s : σ) :
    k.run (step :: steps) s =
      (k.sight (k.step step s).1 (k.step step s).2 :: (k.run steps (k.step step s).2).1,
        (k.run steps (k.step step s).2).2) := rfl

theorem run_append_snd (steps more : List QueueStep) (s : σ) :
    (k.run (steps ++ more) s).2 = (k.run more (k.run steps s).2).2 := by
  induction steps generalizing s with
  | nil => rfl
  | cons step steps ih => exact ih (k.step step s).2

end Queueing

/-! ## The ring answers as the list does -/

/-- One step answers the same and leaves the same work. -/
theorem step_inRing (step : QueueStep) (q : WorkQueue) :
    (inRing.step step q).1 = (inList.step step q.toList).1 ∧
      (inRing.step step q).2.toList = (inList.step step q.toList).2 := by
  cases step with
  | push work =>
    have hadded := q.push_eq_true_iff work
    have hlist := q.toList_push work
    simp only [Queueing.step, inRing, inList, QueueAnswer.added.injEq, hlist]
    split
    · next hrefused => exact ⟨Bool.eq_false_iff.mpr fun h => hadded.mp h hrefused, rfl⟩
    · next hroom => exact ⟨hadded.mpr hroom, rfl⟩
  | pop =>
    obtain ⟨htaken, hlist⟩ := q.toList_pop
    simp only [Queueing.step, inRing, inList, htaken, hlist]
    cases q.toList <;> exact ⟨rfl, rfl⟩
  | clear => exact ⟨rfl, rfl⟩

theorem sight_inRing (answer : QueueAnswer) (q : WorkQueue) :
    inRing.sight answer q = inList.sight answer q.toList := by
  simp only [Queueing.sight, inRing, inList, q.length_toList, q.isEmpty_eq]

/-- Whatever is done to a ring, the same is seen as if it were its list. -/
theorem run_inRing (steps : List QueueStep) (q : WorkQueue) :
    (inRing.run steps q).1 = (inList.run steps q.toList).1 ∧
      (inRing.run steps q).2.toList = (inList.run steps q.toList).2 := by
  induction steps generalizing q with
  | nil => exact ⟨rfl, rfl⟩
  | cons step steps ih =>
    obtain ⟨hanswer, hlist⟩ := step_inRing step q
    obtain ⟨hsights, hlast⟩ := ih (inRing.step step q).2
    rw [hlist] at hsights hlast
    rw [Queueing.run_cons, Queueing.run_cons, sight_inRing, hanswer, hlist, hsights]
    exact ⟨rfl, hlast⟩

/-- No work waits twice. -/
theorem nodup_run {q : WorkQueue} (h : q.toList.Nodup) (steps : List QueueStep) :
    (inRing.run steps q).2.toList.Nodup := by
  induction steps generalizing q with
  | nil => exact h
  | cons step steps ih =>
    refine ih ?_
    cases step with
    | push work => exact WorkQueue.nodup_push h work
    | pop => exact WorkQueue.nodup_pop h
    | clear => exact List.nodup_nil

/-! ## Every head comes up -/

namespace WorkQueue

theorem head_push (q : WorkQueue) (work : Work) : (q.push work).2.head = q.head := by
  unfold push
  split <;> rfl

theorem head_pop {q : WorkQueue} (h : q.toList ≠ []) :
    q.pop.2.head = WorkRing.behind q.head 1 := by
  have hsome : q.length ≠ 0 := by
    rw [← length_toList]
    exact fun hzero => h (List.length_eq_zero_iff.mp hzero)
  rw [pop, dif_neg hsome]

end WorkQueue

/-- Work that is added and taken again moves the head of an empty queue on. -/
theorem exists_head (n : Nat) :
    ∃ steps, (inRing.run steps .empty).2.toList = [] ∧
      (inRing.run steps .empty).2.head = WorkRing.behind WorkQueue.empty.head n := by
  induction n with
  | zero => exact ⟨[], rfl, rfl⟩
  | succ n ih =>
    obtain ⟨steps, hlist, hhead⟩ := ih
    let work : Work := ⟨0, .toDevice⟩
    refine ⟨steps ++ [.push work, .pop], ?_⟩
    rw [Queueing.run_append_snd]
    generalize (inRing.run steps .empty).2 = q at hlist hhead
    show (q.push work).2.pop.2.toList = [] ∧ (q.push work).2.pop.2.head = _
    have hpushed : (q.push work).2.toList = [work] := by
      rw [q.toList_push, hlist]
      rfl
    have hsome : (q.push work).2.toList ≠ [] := by
      rw [hpushed]
      exact List.cons_ne_nil work []
    refine ⟨?_, ?_⟩
    · rw [(WorkQueue.toList_pop _).2, hpushed]
      rfl
    · rw [WorkQueue.head_pop hsome, q.head_push, hhead]
      apply Fin.ext
      simp only [WorkRing.behind]
      omega

/-- New work that fits is added behind the work that waits, and the head stays. -/
theorem run_pushes (more : List Work) {q : WorkQueue} (hnodup : (q.toList ++ more).Nodup)
    (hlength : (q.toList ++ more).length ≤ 8) :
    (inRing.run (more.map .push) q).2.toList = q.toList ++ more ∧
      (inRing.run (more.map .push) q).2.head = q.head := by
  induction more generalizing q with
  | nil => exact ⟨(List.append_nil _).symm, rfl⟩
  | cons work more ih =>
    have hroom : ¬(work ∈ q.toList ∨ q.toList.length = 8) := by
      rw [List.length_append, List.length_cons] at hlength
      refine not_or.mpr ⟨fun hin => ?_, by omega⟩
      exact (List.nodup_append.mp hnodup).2.2 work hin work List.mem_cons_self rfl
    have hpushed : (q.push work).2.toList = q.toList ++ [work] := by
      rw [q.toList_push, if_neg hroom]
    have hlist : q.toList ++ work :: more = (q.push work).2.toList ++ more := by
      rw [hpushed, List.append_assoc, List.singleton_append]
    rw [hlist] at hnodup hlength ⊢
    obtain ⟨hmore, hhead⟩ := ih hnodup hlength
    exact ⟨hmore, hhead.trans (q.head_push work)⟩

/-- The ring is a list of at most eight pieces of work, none of them twice.

From an empty queue on, whatever is added, taken and cleared, each step is answered as the list
answers it, and after each step both say the same of their length and of being empty.  What waits in
the ring is what waits in the list.  The ring may come to stand anywhere: every head comes up, with
every such list behind it. -/
theorem work_queue_exact :
    (∀ steps : List QueueStep,
      (inRing.run steps .empty).1 = (inList.run steps []).1 ∧
      (inRing.run steps .empty).2.toList = (inList.run steps []).2 ∧
      (inList.run steps []).2.Nodup ∧ (inList.run steps []).2.length ≤ 8) ∧
    ∀ (head : Fin 8) (waiting : List Work), waiting.Nodup → waiting.length ≤ 8 →
      ∃ steps, (inRing.run steps .empty).2.head = head ∧
        (inRing.run steps .empty).2.toList = waiting := by
  refine ⟨fun steps => ?_, fun head waiting hnodup hlength => ?_⟩
  · obtain ⟨hsights, hlist⟩ := run_inRing steps .empty
    have hnodup := nodup_run (q := .empty) List.nodup_nil steps
    have hlength := (inRing.run steps .empty).2.length_le
    rw [← WorkQueue.length_toList] at hlength
    rw [WorkQueue.toList_empty] at hsights hlist
    rw [hlist] at hnodup hlength
    exact ⟨hsights, hlist, hnodup, hlength⟩
  · obtain ⟨steps, hlist, hhead⟩ := exists_head head.val
    have hround : WorkRing.behind WorkQueue.empty.head head.val = head := by
      apply Fin.ext
      simp only [WorkRing.behind, WorkQueue.empty]
      omega
    refine ⟨steps ++ waiting.map .push, ?_⟩
    rw [Queueing.run_append_snd]
    generalize (inRing.run steps .empty).2 = q at hlist hhead
    obtain ⟨hlast, hkept⟩ := run_pushes waiting (q := q) (by rwa [hlist]) (by rwa [hlist])
    exact ⟨hkept.trans (hhead.trans hround), by rw [hlast, hlist, List.nil_append]⟩

end FlashProgrammer.Usb

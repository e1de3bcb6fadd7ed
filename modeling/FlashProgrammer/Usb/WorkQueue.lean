import FlashProgrammer.Usb.Controller

/-!
# The work queue

The interrupt handler records which endpoints have work, and the main loop takes
it from there.  The queue is a ring of eight cells, and the work that waits stands
in consecutive cells from the head on.  `toList` is what waits in it, oldest
first, and the three equations `toList_push`, `toList_pop` and `toList_empty` say
what each operation does to that list: work that already waits is not queued
twice, and a full queue takes nothing.

Reading the ring skips empty cells and taking work from it returns what the cell
holds.  Both are harmless because a queue comes with the fact that no cell of its
waiting work is empty.
-/

namespace FlashProgrammer.Usb

/-- An endpoint and direction with something to do. -/
structure Work where
  endpoint : UInt8
  direction : Direction
deriving DecidableEq, Repr

/-! ## The ring -/

/-- The cells of a queue. -/
structure WorkRing where
  cells : Vector (Option Work) 8
deriving DecidableEq, Repr

namespace WorkRing

/-- What a cell holds. -/
def get (r : WorkRing) (i : Fin 8) : Option Work := r.cells[i]

/-- Another content of a cell. -/
def set (r : WorkRing) (i : Fin 8) (content : Option Work) : WorkRing :=
  ⟨r.cells.set i.val content i.isLt⟩

theorem get_set (r : WorkRing) (i j : Fin 8) (content : Option Work) :
    (r.set i content).get j = if i = j then content else r.get j := by
  simp only [get, set, Fin.getElem_fin, Vector.getElem_set, Fin.ext_iff]

/-- The cell `i` places behind another one. -/
def behind (head : Fin 8) (i : Nat) : Fin 8 :=
  ⟨(head.val + i) % 8, Nat.mod_lt _ (by decide)⟩

@[simp] theorem behind_zero (head : Fin 8) : behind head 0 = head :=
  Fin.ext (Nat.mod_eq_of_lt head.isLt)

/-- From the next cell on, every place is one further from the first. -/
theorem behind_behind_one (head : Fin 8) (i : Nat) :
    behind (behind head 1) i = behind head (i + 1) := by
  apply Fin.ext
  simp only [behind]
  omega

/-- Within one round, other places are other cells. -/
theorem behind_ne {i j : Nat} (hij : i < j) (hj : j < 8) (head : Fin 8) :
    behind head j ≠ behind head i := by
  simp only [behind, ne_eq, Fin.mk.injEq]
  omega

/-- The first `n` cells from the head on hold something. -/
def Filled (r : WorkRing) (head : Fin 8) (n : Nat) : Prop :=
  ∀ i, i < n → (r.get (behind head i)).isSome = true

/-- What the first `n` cells from the head on hold. -/
def window (r : WorkRing) (head : Fin 8) (n : Nat) : List Work :=
  (List.range n).filterMap fun i => r.get (behind head i)

variable {r : WorkRing} {head : Fin 8} {n : Nat}

theorem Filled.length_window (h : r.Filled head n) : (r.window head n).length = n := by
  have hall := List.filterMap_length_eq_length.mpr fun i hi => h i (List.mem_range.mp hi)
  rw [window, hall, List.length_range]

/-- Another piece of work in the cell behind the others. -/
theorem Filled.set (h : r.Filled head n) (work : Work) :
    (r.set (behind head n) (some work)).Filled head (n + 1) := by
  intro i hi
  rw [get_set]
  split
  · rfl
  · next hne =>
    refine h i (Nat.lt_of_le_of_ne (Nat.le_of_lt_succ hi) ?_)
    rintro rfl
    exact hne rfl

/-- Emptying the head leaves the cells behind it as they are. -/
theorem get_clear {i : Nat} (hi : i + 1 < 8) :
    (r.set head none).get (behind (behind head 1) i) = r.get (behind (behind head 1) i) := by
  have hne := behind_ne (Nat.succ_pos i) hi head
  rw [behind_zero] at hne
  rw [behind_behind_one, get_set, if_neg hne.symm]

theorem Filled.clear (h : r.Filled head (n + 1)) (hn : n < 8) :
    (r.set head none).Filled (behind head 1) n := by
  intro i hi
  rw [get_clear (by omega), behind_behind_one]
  exact h (i + 1) (Nat.succ_lt_succ hi)

/-- Two windows are equal if their cells are. -/
theorem window_congr {r' : WorkRing} {head' : Fin 8}
    (h : ∀ i, i < n → r.get (behind head i) = r'.get (behind head' i)) :
    r.window head n = r'.window head' n := by
  have hmap := List.map_congr_left fun i hi => h i (List.mem_range.mp hi)
  have hjoined := congrArg (List.filterMap id) hmap
  rwa [List.filterMap_map, List.filterMap_map] at hjoined

theorem window_set (hn : n < 8) (work : Work) :
    (r.set (behind head n) (some work)).window head (n + 1) = r.window head n ++ [work] := by
  have hold : (r.set (behind head n) (some work)).window head n = r.window head n := by
    refine window_congr fun i hi => ?_
    rw [get_set, if_neg (behind_ne hi hn head)]
  have hnew : (r.set (behind head n) (some work)).get (behind head n) = some work := by
    rw [get_set, if_pos rfl]
  rw [← hold, window, List.range_succ, List.filterMap_append]
  simp [window, hnew]

/-- The first cell and the window from the next one on. -/
theorem window_clear (hn : n < 8) :
    r.window head (n + 1) = (r.get head).toList ++ (r.set head none).window (behind head 1) n := by
  have hrest : (r.set head none).window (behind head 1) n = r.window (behind head 1) n :=
    window_congr fun i hi => get_clear (by omega)
  rw [hrest, window, List.range_succ_eq_map, List.filterMap_cons, List.filterMap_map]
  simp only [window, Function.comp_def, Nat.succ_eq_add_one, behind_zero, behind_behind_one]
  cases r.get head <;> rfl

end WorkRing

/-! ## The queue -/

/-- A bounded queue of work.  Cells that hold no waiting work are unrestricted. -/
structure WorkQueue where
  ring : WorkRing
  /-- The cell of the oldest work. -/
  head : Fin 8
  /-- How much work waits. -/
  length : Nat
  /-- The ring holds all of it. -/
  length_le : length ≤ 8
  /-- No cell of it is empty. -/
  filled : ring.Filled head length
deriving DecidableEq, Repr

namespace WorkQueue

/-- The waiting work, oldest first. -/
def toList (q : WorkQueue) : List Work := q.ring.window q.head q.length

def empty : WorkQueue where
  ring := ⟨Vector.replicate 8 none⟩
  head := 0
  length := 0
  length_le := by decide
  filled := nofun

def isEmpty (q : WorkQueue) : Bool := q.length == 0

theorem length_lt (q : WorkQueue) (h : q.length ≠ 8) : q.length < 8 :=
  Nat.lt_of_le_of_ne q.length_le h

/-- Adds work at the end, unless it already waits or the queue is full.  Says whether it was
added. -/
def push (q : WorkQueue) (work : Work) : Bool × WorkQueue :=
  if h : work ∈ q.toList ∨ q.length = 8 then (false, q)
  else
    have hlength := q.length_lt fun hfull => h (.inr hfull)
    (true,
      { ring := q.ring.set (WorkRing.behind q.head q.length) (some work)
        head := q.head
        length := q.length + 1
        length_le := hlength
        filled := q.filled.set work })

/-- Takes the oldest work. -/
def pop (q : WorkQueue) : Option Work × WorkQueue :=
  if h : q.length = 0 then (none, q)
  else
    have hlength : q.length = q.length - 1 + 1 := (Nat.sub_one_add_one h).symm
    have hle : q.length - 1 + 1 ≤ 8 := hlength ▸ q.length_le
    (q.ring.get q.head,
      { ring := q.ring.set q.head none
        head := WorkRing.behind q.head 1
        length := q.length - 1
        length_le := Nat.le_of_lt hle
        filled := WorkRing.Filled.clear (hlength ▸ q.filled) hle })

/-! ## The queue as a list -/

@[simp] theorem length_toList (q : WorkQueue) : q.toList.length = q.length :=
  q.filled.length_window

@[simp] theorem toList_empty : empty.toList = [] := rfl

theorem isEmpty_eq (q : WorkQueue) : q.isEmpty = q.toList.isEmpty := by
  cases h : q.toList with
  | nil => simp [isEmpty, ← length_toList, h]
  | cons a l => simp [isEmpty, ← length_toList, h]

theorem toList_push (q : WorkQueue) (work : Work) :
    (q.push work).2.toList =
      if work ∈ q.toList ∨ q.toList.length = 8 then q.toList else q.toList ++ [work] := by
  simp only [length_toList]
  unfold push
  split
  · rfl
  · next h => exact WorkRing.window_set (q.length_lt fun hfull => h (.inr hfull)) work

theorem push_eq_true_iff (q : WorkQueue) (work : Work) :
    (q.push work).1 = true ↔ ¬(work ∈ q.toList ∨ q.toList.length = 8) := by
  simp only [length_toList]
  unfold push
  split <;> simp_all

theorem toList_pop (q : WorkQueue) :
    (q.pop).1 = q.toList.head? ∧ (q.pop).2.toList = q.toList.tail := by
  unfold pop
  split
  · next h => simp [toList, WorkRing.window, h]
  · next h =>
    obtain ⟨n, hn⟩ : ∃ n, q.length = n + 1 := ⟨q.length - 1, by omega⟩
    have hle := q.length_le
    have hfirst := q.filled 0 (by omega)
    rw [WorkRing.behind_zero] at hfirst
    obtain ⟨work, hwork⟩ := Option.isSome_iff_exists.mp hfirst
    have hlist : q.toList = work :: (q.ring.set q.head none).window (WorkRing.behind q.head 1) n := by
      rw [toList, hn, WorkRing.window_clear (by omega), hwork]
      rfl
    rw [hlist, hwork]
    refine ⟨rfl, ?_⟩
    simp only [toList, hn, Nat.add_sub_cancel]
    rfl

/-- Nothing is taken where nothing waits. -/
theorem pop_of_toList_nil {q : WorkQueue} (h : q.toList = []) : q.pop = (none, q) := by
  have hempty : q.length = 0 := by rw [← length_toList, h, List.length_nil]
  rw [pop, dif_pos hempty]

/-- Work that waits already is not queued again. -/
theorem nodup_push {q : WorkQueue} (h : q.toList.Nodup) (work : Work) :
    (q.push work).2.toList.Nodup := by
  rw [toList_push]
  split
  · exact h
  · next hnew =>
    refine List.nodup_append.mpr ⟨h, List.pairwise_singleton _ work, ?_⟩
    rintro a ha b hb rfl
    exact hnew (.inl (List.mem_singleton.mp hb ▸ ha))

theorem nodup_pop {q : WorkQueue} (h : q.toList.Nodup) : q.pop.2.toList.Nodup := by
  rw [(toList_pop q).2]
  exact h.sublist (List.tail_sublist _)

end WorkQueue

end FlashProgrammer.Usb

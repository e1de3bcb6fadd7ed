/-!
# Records

A bench writes down what the firmware does to it, one entry after the other.  A
record keeps its entries newest first, so that one more costs the same however long
the record is.  `toList` is the record as it is read, oldest first.
-/

namespace FlashProgrammer.Bench

/-- A list that grows at its end. -/
structure Record (α : Type) where
  /-- The entries, newest first. -/
  newest : List α := []
deriving DecidableEq, Repr

namespace Record

variable {α : Type}

/-- The entries, oldest first. -/
def toList (r : Record α) : List α := r.newest.reverse

def push (r : Record α) (a : α) : Record α := ⟨a :: r.newest⟩

def append (r : Record α) (as : List α) : Record α := ⟨as.reverse ++ r.newest⟩

@[simp] theorem toList_empty : ({} : Record α).toList = [] := rfl

@[simp] theorem toList_push (r : Record α) (a : α) : (r.push a).toList = r.toList ++ [a] := by
  simp [push, toList]

@[simp] theorem toList_append (r : Record α) (as : List α) :
    (r.append as).toList = r.toList ++ as := by
  simp [append, toList]

end Record

end FlashProgrammer.Bench

import FlashProgrammer.Bench.Record

/-!
# Transactions on the bench

The bytes that a chip was sent since it was selected.  The chip answers every byte
from the opcode, the address and the number of bytes so far, so these are at hand
however long the transaction is.
-/

namespace FlashProgrammer.Bench

/-- The bytes of a transaction so far. -/
structure Transaction where
  sent : Record UInt8 := {}
  length : Nat := 0
  /-- The first four: an opcode and an address. -/
  head : List UInt8 := []
  length_eq : length = sent.toList.length := by rfl
  head_eq : head = sent.toList.take 4 := by rfl

namespace Transaction

/-- The bytes, oldest first. -/
def toList (t : Transaction) : List UInt8 := t.sent.toList

/-- No byte yet. -/
def empty : Transaction := {}

/-- One more byte. -/
def push (t : Transaction) (b : UInt8) : Transaction where
  sent := t.sent.push b
  length := t.length + 1
  head := if t.length < 4 then t.head ++ [b] else t.head
  length_eq := by simp [t.length_eq]
  head_eq := by
    rw [Record.toList_push, t.head_eq, List.take_append]
    split
    · next h =>
      rw [t.length_eq] at h
      have hone : [b].length ≤ 4 - t.sent.toList.length := by
        simp only [List.length_singleton]
        omega
      rw [List.take_of_length_le (by omega), List.take_of_length_le hone]
    · next h =>
      rw [t.length_eq] at h
      have hzero : 4 - t.sent.toList.length = 0 := by omega
      rw [hzero, List.take_zero, List.append_nil]

@[simp] theorem toList_empty : empty.toList = [] := rfl

@[simp] theorem toList_push (t : Transaction) (b : UInt8) : (t.push b).toList = t.toList ++ [b] :=
  Record.toList_push ..

/-- The number of bytes is known without counting them. -/
theorem length_toList (t : Transaction) : t.toList.length = t.length := t.length_eq.symm

/-- The head is known without going back to the beginning. -/
theorem take_toList (t : Transaction) : t.toList.take 4 = t.head := t.head_eq.symm

end Transaction

end FlashProgrammer.Bench

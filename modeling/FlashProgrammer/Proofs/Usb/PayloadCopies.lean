import FlashProgrammer.Usb.Payload

/-!
# Copies of a payload

A payload is copied out in pieces, into whatever room there is for the next one.  `copyEach`
copies into one buffer after the other, and each copy goes on where the one before it stopped.

Where the bytes are kept makes no difference: `copyTo_congr` says that payloads with the same
bytes are copied alike, a chain and its parts in one piece among them.  `copies_exact` says what
is copied.
-/

namespace FlashProgrammer.Usb.Payload

/-- Copies into one buffer after the other, from where the last copy stopped. -/
def copyEach (p : Payload) (offset : Nat) : (outs : List (List UInt8)) → List (Nat × List UInt8)
  | [] => []
  | out :: outs => p.copyTo offset out :: p.copyEach (offset + (p.copyTo offset out).1) outs

/-- The part of a buffer that was copied into. -/
def copied (copy : Nat × List UInt8) : List UInt8 := copy.2.take copy.1

/-! ## One copy -/

/-- As many bytes are copied as there are and fit. -/
theorem copyTo_fst (p : Payload) (offset : Nat) (out : List UInt8) :
    (p.copyTo offset out).1 = min out.length (p.length - offset) := by
  rw [copyTo_eq, overwrite, List.length_drop, length_toList, Nat.min_comm]

/-- The bytes that are copied are the next ones, and the rest of the buffer stays. -/
theorem copyTo_snd (p : Payload) (offset : Nat) (out : List UInt8) :
    (p.copyTo offset out).2 =
      (p.toList.drop offset).take (p.copyTo offset out).1 ++ out.drop (p.copyTo offset out).1 := by
  rw [copyTo_eq, overwrite]

theorem copied_copyTo (p : Payload) (offset : Nat) (out : List UInt8) :
    copied (p.copyTo offset out) = (p.toList.drop offset).take (p.copyTo offset out).1 := by
  have hthere : (p.copyTo offset out).1 ≤ (p.toList.drop offset).length := by
    rw [copyTo_fst, List.length_drop, length_toList]
    exact Nat.min_le_right _ _
  rw [copied, copyTo_snd, List.take_append_of_le_length (by rw [List.length_take]; omega),
    List.take_take, Nat.min_self]

theorem copyTo_congr {p q : Payload} (h : p.toList = q.toList) (offset : Nat) (out : List UInt8) :
    p.copyTo offset out = q.copyTo offset out := by
  rw [copyTo_eq, copyTo_eq, h]

/-! ## One copy after the other -/

/-- A copy and the copies after it take the bytes up to the end of their room.  A copy that does not
fill its buffer leaves nothing for those after it. -/
theorem take_add_copyTo (p : Payload) (offset room : Nat) (out : List UInt8) :
    copied (p.copyTo offset out) ++ (p.toList.drop (offset + (p.copyTo offset out).1)).take room =
      (p.toList.drop offset).take (out.length + room) := by
  have hcount := p.copyTo_fst offset out
  rw [copied_copyTo, ← List.drop_drop, ← List.take_add]
  by_cases hfull : out.length ≤ p.length - offset
  · rw [hcount, Nat.min_eq_left hfull]
  · have hall : (p.toList.drop offset).length ≤ (p.copyTo offset out).1 := by
      rw [List.length_drop, length_toList]
      omega
    rw [List.take_of_length_le (by omega), List.take_of_length_le (by omega)]

theorem flatMap_copied_copyEach (p : Payload) (offset : Nat) (outs : List (List UInt8)) :
    (p.copyEach offset outs).flatMap copied =
      (p.toList.drop offset).take outs.flatten.length := by
  induction outs generalizing offset with
  | nil => exact List.take_zero.symm
  | cons out outs ih =>
    rw [copyEach, List.flatMap_cons, ih, take_add_copyTo, List.flatten_cons, List.length_append]

theorem copyEach_congr {p q : Payload} (h : p.toList = q.toList) (offset : Nat)
    (outs : List (List UInt8)) : p.copyEach offset outs = q.copyEach offset outs := by
  induction outs generalizing offset with
  | nil => rfl
  | cons out outs ih => rw [copyEach, copyEach, copyTo_congr h, ih]

/-- What is copied of a payload is a piece of its bytes.

A copy from an offset on copies as many bytes as there are from there on and as fit, those and no
others, and leaves the rest of the buffer as it was.  Copies that follow each other copy what a
single one into all their room would, so that from the start of a payload and with room for all of
it they copy the payload.  A chain is as long as its parts in one piece, and is copied as they
are. -/
theorem copies_exact :
    (∀ (p : Payload) (offset : Nat) (out : List UInt8),
      let n := min out.length (p.length - offset)
      p.copyTo offset out = (n, (p.toList.drop offset).take n ++ out.drop n)) ∧
    (∀ (p : Payload) (offset : Nat) (outs : List (List UInt8)),
      (p.copyEach offset outs).flatMap copied =
        (p.toList.drop offset).take outs.flatten.length) ∧
    (∀ (p : Payload) (outs : List (List UInt8)), p.length ≤ outs.flatten.length →
      (p.copyEach 0 outs).flatMap copied = p.toList) ∧
    ∀ parts : List (List UInt8),
      (chain parts).length = (bytes parts.flatten).length ∧
      (∀ offset out,
        (chain parts).copyTo offset out = (bytes parts.flatten).copyTo offset out) ∧
      ∀ offset outs,
        (chain parts).copyEach offset outs = (bytes parts.flatten).copyEach offset outs := by
  refine ⟨fun p offset out => ?_, flatMap_copied_copyEach, fun p outs hroom => ?_,
    fun parts => ?_⟩
  · intro n
    have hcount : (p.copyTo offset out).1 = n := p.copyTo_fst offset out
    have hbuffer := p.copyTo_snd offset out
    rw [hcount] at hbuffer
    exact Prod.ext hcount hbuffer
  · rw [flatMap_copied_copyEach, List.drop_zero, List.take_of_length_le]
    rwa [length_toList]
  · have hbytes : (chain parts).toList = (bytes parts.flatten).toList := rfl
    exact ⟨List.length_flatten.symm, copyTo_congr hbytes, copyEach_congr hbytes⟩

end FlashProgrammer.Usb.Payload

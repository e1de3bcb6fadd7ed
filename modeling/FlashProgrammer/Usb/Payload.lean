/-!
# Payloads

The bytes of a control reply stay where they are and are cut into packets as the
host collects them.  A payload says where they are, `toList` is what they are,
`copyTo` copies a piece of them into a buffer and `slice` is such a piece.

A chain of parts is copied part by part.  `copyTo_eq` and `slice_eq` say that this
makes no difference: a piece of a payload is a piece of its bytes.
-/

namespace FlashProgrammer.Usb

/-- Bytes to be sent. -/
inductive Payload where
  | empty
  /-- Bytes kept elsewhere. -/
  | bytes (data : List UInt8)
  /-- A short reply made on the spot. -/
  | reply (data : List UInt8)
  /-- Several descriptors, back to back. -/
  | chain (parts : List (List UInt8))
deriving DecidableEq, Repr

namespace Payload

/-- All bytes of a payload. -/
def toList : Payload → List UInt8
  | empty => []
  | bytes data => data
  | reply data => data
  | chain parts => parts.flatten

def length : Payload → Nat
  | empty => 0
  | bytes data => data.length
  | reply data => data.length
  | chain parts => (parts.map List.length).foldr (· + ·) 0

def isEmpty (p : Payload) : Bool := p.length == 0

/-- Copies as many bytes as fit over the front of a buffer, and says how many. -/
def overwrite (data out : List UInt8) : Nat × List UInt8 :=
  let n := min data.length out.length
  (n, data.take n ++ out.drop n)

/-- Copies the bytes of a chain after the first `skip` over the front of a buffer.  Each part goes
behind the parts before it, until the buffer is full. -/
def copyParts : (parts : List (List UInt8)) → (skip : Nat) → (out : List UInt8) → Nat × List UInt8
  | [], _, out => (0, out)
  | part :: rest, skip, out =>
    if part.length ≤ skip then copyParts rest (skip - part.length) out
    else
      let (n, out) := overwrite (part.drop skip) out
      if n = out.length then (n, out)
      else
        let (m, behind) := copyParts rest 0 (out.drop n)
        (n + m, out.take n ++ behind)

/-- Copies the bytes after the first `offset` over the front of a buffer, and says how many. -/
def copyTo (p : Payload) (offset : Nat) (out : List UInt8) : Nat × List UInt8 :=
  match p with
  | empty => (0, out)
  | bytes data => overwrite (data.drop offset) out
  | reply data => overwrite (data.drop offset) out
  | chain parts => copyParts parts offset out

/-- Up to `room` bytes after the first `offset`, by way of a buffer of zeros. -/
def slice (p : Payload) (offset room : Nat) : List UInt8 :=
  let (n, out) := p.copyTo offset (List.replicate room 0)
  out.take n

theorem length_toList (p : Payload) : p.toList.length = p.length := by
  cases p with
  | chain parts => exact List.length_flatten
  | _ => rfl

/-! ## Copying -/

theorem overwrite_nil (out : List UInt8) : overwrite [] out = (0, out) := by
  simp [overwrite]

@[simp] theorem length_overwrite (data out : List UInt8) :
    (overwrite data out).2.length = out.length := by
  simp only [overwrite, List.length_append, List.length_take, List.length_drop]
  omega

/-- What does not fit makes no difference. -/
theorem overwrite_append_of_full {data out : List UInt8} (h : out.length ≤ data.length)
    (more : List UInt8) : overwrite (data ++ more) out = overwrite data out := by
  have hn : min (data ++ more).length out.length = out.length := by
    rw [List.length_append]
    omega
  simp only [overwrite, hn, Nat.min_eq_right h, List.take_append_of_le_length h]

/-- What is copied last goes behind what was copied first. -/
theorem overwrite_append_of_fits {data out : List UInt8} (h : data.length ≤ out.length)
    (more : List UInt8) :
    overwrite (data ++ more) out =
      (data.length + (overwrite more (out.drop data.length)).1,
        data ++ (overwrite more (out.drop data.length)).2) := by
  have hn : min (data ++ more).length out.length =
      data.length + min more.length (out.length - data.length) := by
    rw [List.length_append]
    omega
  simp only [overwrite, hn, List.length_drop, List.take_length_add_append, List.append_assoc,
    List.drop_drop]

theorem copyParts_eq (parts : List (List UInt8)) (skip : Nat) (out : List UInt8) :
    copyParts parts skip out = overwrite (parts.flatten.drop skip) out := by
  induction parts generalizing skip out with
  | nil => rw [copyParts, List.flatten_nil, List.drop_nil, overwrite_nil]
  | cons part rest ih =>
    rw [copyParts, List.flatten_cons, List.drop_append]
    split
    · next hskip => rw [ih, List.drop_eq_nil_of_le hskip, List.nil_append]
    · next hskip =>
      have hzero : skip - part.length = 0 := by omega
      have hlength := length_overwrite (part.drop skip) out
      simp only [hzero, List.drop_zero, hlength, ih]
      split
      · next hfull =>
        have hle : out.length ≤ (part.drop skip).length := by
          simp only [overwrite] at hfull
          omega
        exact (overwrite_append_of_full hle rest.flatten).symm
      · next hroom =>
        have hle : (part.drop skip).length ≤ out.length := by
          simp only [overwrite] at hroom
          omega
        rw [overwrite_append_of_fits hle]
        simp only [overwrite, Nat.min_eq_left hle, List.take_length, List.take_left, List.drop_left]

/-- To copy a payload is to copy its bytes. -/
theorem copyTo_eq (p : Payload) (offset : Nat) (out : List UInt8) :
    p.copyTo offset out = overwrite (p.toList.drop offset) out := by
  cases p with
  | empty => rw [copyTo, toList, List.drop_nil, overwrite_nil]
  | bytes data | reply data => rfl
  | chain parts => exact copyParts_eq parts offset out

/-- A piece of a payload is a piece of its bytes. -/
theorem slice_eq (p : Payload) (offset room : Nat) :
    p.slice offset room = (p.toList.drop offset).take room := by
  have hfront : ∀ data : List UInt8, data.take (min data.length room) = data.take room := by
    intro data
    rw [Nat.min_comm, ← List.take_take, List.take_length]
  simp only [slice, copyTo_eq, overwrite, List.length_replicate]
  rw [List.take_append_of_le_length (by simp), List.take_take, Nat.min_self, hfront]

end Payload

end FlashProgrammer.Usb

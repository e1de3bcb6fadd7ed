import FlashProgrammer.Proofs.Flash.Identified
import FlashProgrammer.Protocol.PageNumber

/-!
# Geometry in 32 bits

Sizes and addresses are numbers of 32 bits, page numbers have 24 bits, and a page buffer has room
for `maxPageLength` bytes.  `Checked` has the operations that can leave these ranges, each with no
result if it does.  The functions that end in a question mark are those of `Geometry` with every
operation checked.

What a chip is made of bounds them all: the capacity fits in 32 bits, and a page or a block that
lies in the chip begins below the capacity.
-/

namespace FlashProgrammer

/-! ## Checked operations -/

namespace Checked

/-- A number that has to fit in 32 bits. -/
def word (n : Nat) : Option Nat := if n < 0x100000000 then some n else none

/-- A quotient, whose divisor must not be 0. -/
def quotient (a b : Nat) : Option Nat := if b = 0 then none else some (a / b)

/-- A length that must not exceed the room there is. -/
def within (room length : Nat) : Option Nat := if length ≤ room then some length else none

/-- The first bytes of a buffer, which has to hold so many. -/
def front (length : Nat) (buffer : List UInt8) : Option (List UInt8) :=
  (within buffer.length length).map buffer.take

/-- A page number, which has to fit in 24 bits. -/
def pageNumber (n : Nat) : Option Protocol.PageNumber :=
  if h : n < 0x1000000 then some ⟨n, h⟩ else none

theorem word_of_lt {n : Nat} (h : n < 0x100000000) : word n = some n := if_pos h

theorem quotient_of_pos (a : Nat) {b : Nat} (h : 0 < b) : quotient a b = some (a / b) :=
  if_neg (Nat.ne_of_gt h)

theorem within_of_le {room length : Nat} (h : length ≤ room) : within room length = some length :=
  if_pos h

theorem front_of_le {length : Nat} {buffer : List UInt8} (h : length ≤ buffer.length) :
    front length buffer = some (buffer.take length) := by
  rw [front, within_of_le h]
  rfl

/-- A number that fits is not cut. -/
theorem pageNumber_of_lt {n : Nat} (h : n < 0x1000000) : pageNumber n = some (.ofNat n) := by
  rw [pageNumber, dif_pos h]
  exact congrArg some (Protocol.PageNumber.ext (Protocol.PageNumber.val_ofNat_of_lt h).symm)

end Checked

/-! ## Pages and erase blocks -/

namespace Flash

namespace Geometry

def pageCount? (g : Geometry) : Option Nat := Checked.quotient g.capacity g.pageLength

def eraseBlocks? (g : Geometry) : Option Nat := do
  let blocks ← Checked.quotient g.capacity (max g.eraseSize 1)
  return max blocks 1

def pageAddress? (g : Geometry) (page : Nat) : Option Nat := Checked.word (page * g.pageLength)

/-- An address that would be cut to 32 bits is none. -/
def blockAddress? (g : Geometry) (block : Nat) : Option Nat := Checked.word (block * g.eraseSize)

theorem pageCount?_eq (g : Geometry) : g.pageCount? = some g.pageCount :=
  Checked.quotient_of_pos g.capacity g.pageLength_pos

theorem eraseBlocks?_eq (g : Geometry) : g.eraseBlocks? = some g.eraseBlocks := by
  have hpos : 0 < max g.eraseSize 1 := Nat.lt_of_lt_of_le Nat.one_pos (Nat.le_max_right _ _)
  rw [eraseBlocks?, Checked.quotient_of_pos g.capacity hpos]
  rfl

end Geometry

variable {g : Geometry}

/-- A page that lies in the chip ends at its capacity at the latest. -/
theorem Identified.pageAddress?_eq (h : Identified g) {page : Nat} (hpage : page < g.pageCount) :
    g.pageAddress? page = some (g.pageAddress page) := by
  have hend := (Nat.lt_div_iff_mul_lt g.pageLength_pos).mp hpage
  have hcomm := Nat.mul_comm g.pageLength page
  have hcapacity := h.capacity_le
  rw [maxCapacity] at hcapacity
  exact Checked.word_of_lt (by omega)

/-- The address of a block that lies in the chip is not cut. -/
theorem Identified.blockAddress?_eq (h : Identified g) {block : Nat}
    (hblock : block < g.eraseBlocks) : g.blockAddress? block = some (g.blockAddress block) := by
  have hwhole : g.blockAddress block = block * g.eraseSize := h.blockAddress_eq hblock
  have hcut : g.blockAddress block ≤ 0xFFFFFFFF := Nat.min_le_right _ _
  rw [hwhole] at hcut ⊢
  exact Checked.word_of_lt (by omega)

example : (Geometry.guess .unreadable).blockAddress? 0xFFFF = some 0xFFFF0000 := by decide

example : (Geometry.guess .unreadable).blockAddress? 0x10000 = none := by decide

end Flash

end FlashProgrammer

import FlashProgrammer.Flash.Instruction

/-!
# Flash geometry

What the programmer must know of a chip: its size, how it erases and how long its
pages are.
-/

namespace FlashProgrammer.Flash

/-- The three id bytes of a chip. -/
structure JedecId where
  manufacturer : UInt8
  deviceType : UInt8
  capacity : UInt8
deriving DecidableEq, Repr

namespace JedecId

/-- What a line reads that no chip drives. -/
def unreadable : JedecId := ⟨0xFF, 0xFF, 0xFF⟩

/-- No chip answered: the line stayed high or stayed low. -/
def isUnreadable (id : JedecId) : Bool :=
  id == unreadable || id == ⟨0x00, 0x00, 0x00⟩

end JedecId

/-- The largest capacity the programmer can name. -/
def maxCapacity : Nat := 0xFFFFFFFF

/-- A capacity code is the binary logarithm of the size in bytes. -/
def capacityOfCode (code : UInt8) : Nat :=
  if 32 ≤ code.toNat then maxCapacity else 1 <<< code.toNat

/-- A power of two, cut to 32 bits. -/
theorem capacityOfCode_eq (code : UInt8) :
    capacityOfCode code = min (1 <<< code.toNat) maxCapacity := by
  rw [capacityOfCode, Nat.one_shiftLeft]
  split
  · next h =>
    have hle : 2 ^ 32 ≤ 2 ^ code.toNat := Nat.pow_le_pow_right (by decide) h
    exact (Nat.min_eq_right (Nat.le_trans (by decide) hle)).symm
  · next h =>
    have hle : 2 ^ code.toNat ≤ 2 ^ 31 := Nat.pow_le_pow_right (by decide) (by omega)
    exact (Nat.min_eq_left (Nat.le_trans hle (by decide))).symm

theorem capacityOfCode_le (code : UInt8) : capacityOfCode code ≤ maxCapacity := by
  rw [capacityOfCode_eq]
  exact Nat.min_le_right _ _

/-- Where a geometry came from. -/
inductive Provenance where
  /-- The catalogue of known parts. -/
  | table
  /-- The chip's own SFDP tables. -/
  | sfdp
  /-- A guess that suits most parts. -/
  | synthesized
deriving DecidableEq, Repr

/-- The geometry of one chip. -/
structure Geometry where
  manufacturer : UInt8
  deviceType : UInt8
  /-- The capacity code as the chip reported it. -/
  reportedCapacity : UInt8
  /-- Size in bytes. -/
  capacity : Nat
  /-- The opcode that erases one block. -/
  eraseOpcode : UInt8
  /-- Bytes in an erase block. -/
  eraseSize : Nat
  /-- Bytes in a page. -/
  pageSize : Nat
  provenance : Provenance
deriving DecidableEq, Repr

/-- The longest page the programmer moves. -/
def maxPageLength : Nat := 256

namespace Geometry

def isBestGuess (g : Geometry) : Bool := g.provenance == .synthesized

/-- Erase blocks that cover the chip, at least one. -/
def eraseBlocks (g : Geometry) : Nat :=
  max (g.capacity / max g.eraseSize 1) 1

/-- The page length used towards the host: the page size, at least one byte and at most
`maxPageLength`. -/
def pageLength (g : Geometry) : Nat :=
  min (max g.pageSize 1) maxPageLength

/-- Pages that lie wholly in the chip. -/
def pageCount (g : Geometry) : Nat :=
  g.capacity / g.pageLength

/-- Where a page begins. -/
def pageAddress (g : Geometry) (page : Nat) : Nat :=
  page * g.pageLength

/-- Where an erase block begins.  An address past 32 bits is cut to the largest one. -/
def blockAddress (g : Geometry) (block : Nat) : Nat :=
  min (block * g.eraseSize) 0xFFFFFFFF

/-- The guess for an unknown chip: the capacity it reports, erased in blocks of 64 KiB. -/
def guess (id : JedecId) : Geometry where
  manufacturer := id.manufacturer
  deviceType := id.deviceType
  reportedCapacity := id.capacity
  capacity := capacityOfCode id.capacity
  eraseOpcode := Instruction.blockEraseOpcode
  eraseSize := 64 * 1024
  pageSize := 256
  provenance := .synthesized

theorem eraseBlocks_pos (g : Geometry) : 0 < g.eraseBlocks :=
  Nat.lt_of_lt_of_le Nat.one_pos (Nat.le_max_right _ _)

theorem pageLength_pos (g : Geometry) : 0 < g.pageLength := by
  simp only [pageLength, maxPageLength]
  omega

theorem pageLength_le (g : Geometry) : g.pageLength ≤ 256 :=
  Nat.min_le_right _ _

end Geometry

end FlashProgrammer.Flash

import FlashProgrammer.Bench.Rig
import FlashProgrammer.Bench.SfdpImage
import FlashProgrammer.Proofs.Flash.Resolution
import FlashProgrammer.Proofs.Programmer.Reachable

/-!
# Which pages can be erased

A page is accepted for reading and writing if it lies in the chip, and a block for erasing if it
lies in the chip as a whole or is the first.  Both counts are quotients of the same capacity that
are rounded down.  What is left over of the last erase block holds pages as soon as it is as long as
a page, and these can be written but not erased.

`Covered` says of a geometry that this does not happen, and `erasable_exact` says for which
geometries that identification can end in.
-/

namespace FlashProgrammer.Flash

namespace Geometry

/-- The erase block that holds the first byte of a page. -/
def blockHolding (g : Geometry) (page : Nat) : Nat := g.pageAddress page / g.eraseSize

/-- Every page that is accepted begins in an erase block that is accepted. -/
def Covered (g : Geometry) : Prop :=
  ∀ page, page < g.pageCount → g.blockHolding page < g.eraseBlocks

/-- An accepted page lies in the chip as a whole. -/
theorem pageAddress_add_le {g : Geometry} {page : Nat} (h : page < g.pageCount) :
    g.pageAddress page + g.pageLength ≤ g.capacity := by
  have hfits : (page + 1) * g.pageLength ≤ g.capacity :=
    (Nat.le_div_iff_mul_le g.pageLength_pos).mp h
  rwa [Nat.succ_mul] at hfits

theorem pageCount_of_fits {g : Geometry} {page : Nat}
    (h : g.pageAddress page + g.pageLength ≤ g.capacity) : page < g.pageCount := by
  rw [pageAddress, ← Nat.succ_mul] at h
  exact (Nat.le_div_iff_mul_le g.pageLength_pos).mpr h

end Geometry

section Covering

variable {g : Geometry}

theorem Identified.eraseBlocks_eq (h : Identified g) :
    g.eraseBlocks = max (g.capacity / g.eraseSize) 1 := by
  rw [Geometry.eraseBlocks, Nat.max_eq_left h.eraseSize.pos]

/-- The block of a page can be erased exactly if the page lies before the end of the last block. -/
theorem Identified.blockHolding_lt_iff (h : Identified g) {page : Nat} (hpage : page < g.pageCount) :
    g.blockHolding page < g.eraseBlocks ↔
      g.pageAddress page + g.pageLength ≤ g.eraseBlocks * g.eraseSize := by
  have hsize := h.eraseSize.pos
  constructor
  · intro hlt
    rcases h.pageLength.dvd_or_dvd h.eraseSize with ⟨m, hm⟩ | ⟨m, hm⟩
    -- A block is made of whole pages, or else a page of whole blocks.
    · have hindex : page < g.eraseBlocks * m := by
        rw [Geometry.blockHolding, Geometry.pageAddress, hm, Nat.mul_comm page,
          Nat.mul_div_mul_left _ _ g.pageLength_pos] at hlt
        refine (Nat.div_lt_iff_lt_mul (Nat.pos_of_ne_zero fun hzero => ?_)).mp hlt
        rw [hm, hzero, Nat.mul_zero] at hsize
        exact Nat.lt_irrefl 0 hsize
      calc g.pageAddress page + g.pageLength
          = (page + 1) * g.pageLength := (Nat.succ_mul _ _).symm
        _ ≤ g.eraseBlocks * m * g.pageLength := Nat.mul_le_mul_right _ hindex
        _ = g.eraseBlocks * g.eraseSize := by rw [hm, Nat.mul_assoc, Nat.mul_comm m]
    · have hfits := Geometry.pageAddress_add_le hpage
      have hwhole : g.pageAddress page + g.pageLength = (page + 1) * m * g.eraseSize := by
        rw [Geometry.pageAddress, ← Nat.succ_mul, hm, Nat.mul_comm g.eraseSize, Nat.mul_assoc]
      rw [hwhole] at hfits ⊢
      refine Nat.mul_le_mul_right _ (Nat.le_trans ((Nat.le_div_iff_mul_le hsize).mpr hfits) ?_)
      rw [h.eraseBlocks_eq]
      exact Nat.le_max_left _ _
  · intro hle
    rw [Geometry.blockHolding, Nat.div_lt_iff_lt_mul hsize]
    exact Nat.lt_of_lt_of_le (Nat.lt_add_of_pos_right g.pageLength_pos) hle

/-- A chip is covered exactly if it is shorter than a block, or what is left over after its blocks
is shorter than a page. -/
theorem Identified.covered_iff (h : Identified g) :
    g.Covered ↔ g.capacity < g.eraseSize ∨ g.capacity % g.eraseSize < g.pageLength := by
  have hsize := h.eraseSize.pos
  have hsplit := Nat.div_add_mod g.capacity g.eraseSize
  constructor
  · intro hcovered
    refine Classical.byContradiction fun hnot => ?_
    obtain ⟨hlong, hrest⟩ := not_or.mp hnot
    have hblocks : g.eraseBlocks = g.capacity / g.eraseSize := by
      rw [h.eraseBlocks_eq]
      exact Nat.max_eq_left ((Nat.one_le_div_iff hsize).mpr (Nat.le_of_not_lt hlong))
    -- The page that begins where the blocks end.
    have hshort : g.pageLength < g.eraseSize :=
      Nat.lt_of_le_of_lt (Nat.le_of_not_lt hrest) (Nat.mod_lt _ hsize)
    obtain ⟨m, hm⟩ : g.pageLength ∣ g.eraseSize := by
      rcases h.pageLength.dvd_or_dvd h.eraseSize with hd | hd
      · exact hd
      · exact absurd (Nat.le_of_dvd g.pageLength_pos hd) (Nat.not_le.mpr hshort)
    have hbegin : g.pageAddress (g.eraseBlocks * m) = g.eraseBlocks * g.eraseSize := by
      rw [Geometry.pageAddress, hm, Nat.mul_assoc, Nat.mul_comm m]
    have hpage : g.eraseBlocks * m < g.pageCount := by
      refine Geometry.pageCount_of_fits ?_
      rw [hbegin, hblocks, Nat.mul_comm]
      omega
    have hlt := hcovered _ hpage
    rw [Geometry.blockHolding, hbegin, Nat.mul_div_cancel _ hsize] at hlt
    exact Nat.lt_irrefl _ hlt
  · rintro (hshort | hrest) page hpage
    · have hfits := Geometry.pageAddress_add_le hpage
      have hfirst : g.blockHolding page = 0 := Nat.div_eq_of_lt (by omega)
      rw [hfirst]
      exact g.eraseBlocks_pos
    · refine Nat.lt_of_not_le fun hpast => ?_
      have hblocks : g.capacity / g.eraseSize ≤ g.blockHolding page := by
        rw [h.eraseBlocks_eq] at hpast
        exact Nat.le_trans (Nat.le_max_left _ _) hpast
      have hbegin := (Nat.le_div_iff_mul_le hsize).mp hblocks
      have hfits := Geometry.pageAddress_add_le hpage
      rw [Nat.mul_comm] at hbegin
      omega

end Covering

/-! ## By where the geometry came from -/

theorem capacityOfCode_of_large {code : UInt8} (h : 32 ≤ code.toNat) :
    capacityOfCode code = maxCapacity :=
  if_pos h

theorem capacityOfCode_of_small {code : UInt8} (h : code.toNat < 32) :
    capacityOfCode code = 1 <<< code.toNat :=
  if_neg (Nat.not_le.mpr h)

/-- A power of two is shorter than a larger one and leaves nothing over of a smaller one.  Only the
largest capacity is none. -/
theorem leftOver_of_code (code : UInt8) {size : Nat} (hsize : size = 1 <<< 12 ∨ size = 1 <<< 16) :
    (capacityOfCode code < size ∨ capacityOfCode code % size < 256) ↔
      capacityOfCode code ≠ maxCapacity := by
  rcases Nat.lt_or_ge code.toNat 32 with hsmall | hlarge
  · obtain ⟨k, rfl⟩ : ∃ k, size = 1 <<< k := by
      rcases hsize with rfl | rfl
      · exact ⟨12, rfl⟩
      · exact ⟨16, rfl⟩
    have hbound : 2 ^ code.toNat ≤ 2 ^ 31 := Nat.pow_le_pow_right (by decide) (by omega)
    simp only [capacityOfCode_of_small hsmall, Nat.one_shiftLeft]
    refine iff_of_true ?_ (Nat.ne_of_lt (Nat.lt_of_le_of_lt hbound (by decide)))
    rcases Nat.lt_or_ge code.toNat k with hlt | hge
    · exact .inl (Nat.pow_lt_pow_right (by decide) hlt)
    · rw [Nat.mod_eq_zero_of_dvd (Nat.pow_dvd_pow 2 hge)]
      exact .inr (by decide)
  · rw [capacityOfCode_of_large hlarge]
    rcases hsize with rfl | rfl <;> decide

/-- A geometry that the chip did not describe is covered unless its capacity is cut to 32 bits. -/
theorem Identified.covered_iff_of_code {g : Geometry} (h : Identified g)
    (hprovenance : g.provenance ≠ .sfdp) : g.Covered ↔ g.capacity ≠ maxCapacity := by
  rw [h.covered_iff]
  rcases h.source with ⟨maker, hmaker, part, hpart, id, rfl⟩ | ⟨table, p, id, hp, rfl⟩ | ⟨id, rfl⟩
  · exact leftOver_of_code part.actual (catalogue_eraseSize maker hmaker part hpart)
  · exact absurd rfl hprovenance
  · exact leftOver_of_code id.capacity (.inr rfl)

/-- Which pages that are accepted can be erased, for every id and every reader.

The block that holds an accepted page is accepted for erasing exactly if the page lies before the
end of the last block.  The blocks of all of them are exactly if the chip is shorter than a block, or
what is left over after its blocks is shorter than a page.  For a part of the catalogue and for a
guess that is so exactly if the capacity is not cut to the largest that 32 bits can name. -/
theorem erasable_exact {ω : Type} (read : Sfdp.Reader ω) (id : JedecId) (w : ω) :
    let g := (resolve read id w).1
    (∀ page, page < g.pageCount → (g.blockHolding page < g.eraseBlocks ↔
      g.pageAddress page + g.pageLength ≤ g.eraseBlocks * g.eraseSize)) ∧
    (g.Covered ↔ g.capacity < g.eraseSize ∨ g.capacity % g.eraseSize < g.pageLength) ∧
    (g.provenance ≠ .sfdp → (g.Covered ↔ g.capacity ≠ maxCapacity)) := by
  intro g
  have hg : Identified g := .resolved read id w
  exact ⟨fun _ => hg.blockHolding_lt_iff, hg.covered_iff, hg.covered_iff_of_code⟩

-- The catalogue has a part whose capacity is cut.
example : (catalogued? ⟨0xC2, 0x25, 0x36⟩).map Geometry.capacity = some maxCapacity := by decide

end FlashProgrammer.Flash

namespace FlashProgrammer.Programmer

open Flash Protocol Trace
open Bench (Rig)

/-- A chip of 24 pages that describes itself: one block of 4 KiB and a half. -/
def blockAndHalf : Bench.NorFlash :=
  { id := [0xAA, 0x11, 0x16], size := 6144
    sfdp := (Bench.plainDescription 0xBFFF 0x20 16).toArray }

/-- A byte of zeros is written to page 16 of it, and the write is polled until it is complete. -/
def writtenPastBlocks : List Exchange × Station Rig :=
  serveAll
    ([.targetDevice 0 0, .write (.ofNat 16) (.ofNat 1)] ++
      List.replicate 3 (.erase .status (.ofNat 0) (.ofNat 0)))
    (Rig.enumerated ⟨some blockAndHalf, none, none⟩ [[0x00]])

/-- The page is accepted and written, and the block that holds it is refused. -/
theorem written_page_beyond_erase :
    writtenPastBlocks.2.1.geometry.map (fun g =>
      (g.pageCount, g.blockHolding 16, g.eraseBlocks)) = some (24, 1, 1) ∧
    (writtenPastBlocks.1.map Exchange.reply)[4]? = some (some (eraseResponse .complete 16)) ∧
    (writtenPastBlocks.2.2.hw.spi.chip? .local1).map (fun c => c.read 0x1000) = some 0x00 ∧
    replyTo (.erase .page (.ofNat 1) (.ofNat 1)) writtenPastBlocks.2 =
      some (eraseResponse .invalid 1) ∧
    transactionsOf (.erase .page (.ofNat 1) (.ofNat 1)) writtenPastBlocks.2 = [] := by
  refine ⟨?_, ?_, ?_, ?_, ?_⟩
  all_goals decide +kernel

end FlashProgrammer.Programmer

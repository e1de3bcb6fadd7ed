import FlashProgrammer.Proofs.Flash.Identifying
import FlashProgrammer.Proofs.Sfdp.Tables

/-!
# What identification can end in

A geometry comes from the catalogue, from the chip's own tables or from a guess.
`Identified` holds of exactly those, whatever the chip answered, and the lemmas
below bound them: the capacity fits in 32 bits, and pages and erase blocks are
powers of two.

Three bytes name an address below `addressReach`.  Pages and erase blocks are
`Grain`s of a chip: each is named by an index and begins at a multiple of its size.
`faithful_iff` and `tellsApart_iff` say for which geometries the three bytes are
enough: those whose last acceptable index begins below `addressReach`.
-/

namespace FlashProgrammer.Flash

/-- A geometry that identification can end in. -/
inductive Identified : Geometry → Prop where
  /-- Some chip was asked. -/
  | resolved {ω : Type} (read : Sfdp.Reader ω) (id : JedecId) (w : ω) :
      Identified (resolve read id w).1

theorem identified_identify {ω : Type} [Spi.Bus ω] (slot : Slot) (w : ω) :
    Identified (identify slot w).1 := by
  rw [identify_eq]
  exact .resolved (readSfdp slot) _ _

/-- What a chip says of itself comes from a basic table that was read. -/
theorem discover_ok {ω : Type} {read : Sfdp.Reader ω} {p : Sfdp.Parameters} {w : ω}
    (h : (Sfdp.discover read w).1 = .ok p) : ∃ table, Sfdp.Parameters.parse table = .ok p := by
  rw [Sfdp.discover] at h
  split at h
  · cases h
  · split at h
    · cases h
    · split at h
      · split at h
        · cases h
        · next basic w' _ =>
          rw [Sfdp.readTable] at h
          split at h
          · cases h
          · next table _ _ => exact ⟨table, h⟩
      · cases h

/-- Where a geometry came from. -/
theorem Identified.source {g : Geometry} (h : Identified g) :
    (∃ maker ∈ makers, ∃ part ∈ maker.parts, ∃ id, g = part.geometry id) ∨
    (∃ table p id, Sfdp.Parameters.parse table = .ok p ∧ g = .ofParameters id p) ∨
    ∃ id, g = .guess id := by
  obtain ⟨read, id, w⟩ := h
  rw [resolve]
  cases hc : catalogued? id with
  | some g =>
    left
    simp only [catalogued?, findPart?, Option.map_eq_some_iff, Option.bind_eq_bind,
      Option.bind_eq_some_iff] at hc
    obtain ⟨part, ⟨maker, hmaker, hpart⟩, rfl⟩ := hc
    exact ⟨maker, List.mem_of_find?_eq_some hmaker, part, List.mem_of_find?_eq_some hpart, id, rfl⟩
  | none =>
    right
    cases hd : Sfdp.discover read w with
    | mk outcome w' =>
      cases outcome with
      | error e => exact .inr ⟨id, rfl⟩
      | ok p =>
        obtain ⟨table, htable⟩ := discover_ok (congrArg Prod.fst hd)
        exact .inl ⟨table, p, id, htable, rfl⟩

/-! ## Sizes -/

/-- A power of two. -/
def IsPowerOfTwo (n : Nat) : Prop := ∃ k, n = 1 <<< k

theorem IsPowerOfTwo.pos {n : Nat} (h : IsPowerOfTwo n) : 0 < n := by
  obtain ⟨k, rfl⟩ := h
  rw [Nat.one_shiftLeft]
  exact Nat.two_pow_pos k

/-- Of two powers of two, one divides the other. -/
theorem IsPowerOfTwo.dvd_or_dvd {m n : Nat} (hm : IsPowerOfTwo m) (hn : IsPowerOfTwo n) :
    m ∣ n ∨ n ∣ m := by
  obtain ⟨j, rfl⟩ := hm
  obtain ⟨k, rfl⟩ := hn
  simp only [Nat.one_shiftLeft]
  rcases Nat.le_total j k with h | h
  · exact .inl (Nat.pow_dvd_pow 2 h)
  · exact .inr (Nat.pow_dvd_pow 2 h)

/-- The catalogue finds each part that it has, under the id of its maker and its own. -/
theorem catalogued_part : ∀ maker ∈ makers, ∀ part ∈ maker.parts,
    catalogued? ⟨maker.id, part.deviceType, part.reported⟩ =
      some (part.geometry ⟨maker.id, part.deviceType, part.reported⟩) := by
  decide

theorem catalogue_eraseSize : ∀ maker ∈ makers, ∀ part ∈ maker.parts,
    part.eraseSize = 1 <<< 12 ∨ part.eraseSize = 1 <<< 16 := by
  decide

/-- The size of an erase type is shifted by less than 32, and the plain one is 4 KiB. -/
theorem exponent_of_determines {table : List UInt8} {n : Nat} (h : Sfdp.Determines table n) :
    ∃ k, 1 ≤ k ∧ k ≤ 31 ∧ n = 1 <<< k := by
  cases h with
  | @typed _ i _ hsuits _ =>
    exact ⟨Sfdp.exponentAt table i, hsuits.exponent_pos, Nat.le_of_lt_succ hsuits.exponent_lt, rfl⟩
  | plain _ _ _ => exact ⟨12, by decide, by decide, rfl⟩

theorem pageSize_of_table (table : List UInt8) :
    ∃ k, k ≤ 15 ∧ Sfdp.pageSizeOf table = 1 <<< k := by
  rw [Sfdp.pageSizeOf]
  split
  · exact ⟨_, Nat.le_of_lt_succ (Nat.mod_lt _ (by decide)), rfl⟩
  · exact ⟨8, by decide, rfl⟩

/-- An erase block has at least two bytes and at most half of what 32 bits can name. -/
theorem Identified.eraseExponent {g : Geometry} (h : Identified g) :
    ∃ k, 1 ≤ k ∧ k ≤ 31 ∧ g.eraseSize = 1 <<< k := by
  rcases h.source with ⟨maker, hmaker, part, hpart, id, rfl⟩ | ⟨table, p, id, hp, rfl⟩ | ⟨id, rfl⟩
  · rcases catalogue_eraseSize maker hmaker part hpart with hs | hs
    · exact ⟨12, by decide, by decide, hs⟩
    · exact ⟨16, by decide, by decide, hs⟩
  · obtain ⟨_, _, hdetermines, _, _⟩ := Sfdp.Parameters.parse_eq_ok_iff.mp hp
    exact exponent_of_determines hdetermines
  · exact ⟨16, by decide, by decide, rfl⟩

theorem Identified.eraseSize {g : Geometry} (h : Identified g) : IsPowerOfTwo g.eraseSize := by
  obtain ⟨k, _, _, hsize⟩ := h.eraseExponent
  exact ⟨k, hsize⟩

theorem Identified.pageExponent {g : Geometry} (h : Identified g) :
    ∃ k, k ≤ 15 ∧ g.pageSize = 1 <<< k := by
  rcases h.source with ⟨maker, hmaker, part, hpart, id, rfl⟩ | ⟨table, p, id, hp, rfl⟩ | ⟨id, rfl⟩
  · exact ⟨8, by decide, rfl⟩
  · obtain ⟨_, _, _, _, hpage⟩ := Sfdp.Parameters.parse_eq_ok_iff.mp hp
    obtain ⟨k, hk, hsize⟩ := pageSize_of_table table
    exact ⟨k, hk, hpage.trans hsize⟩
  · exact ⟨8, by decide, rfl⟩

theorem Identified.pageSize {g : Geometry} (h : Identified g) : IsPowerOfTwo g.pageSize := by
  obtain ⟨k, _, hsize⟩ := h.pageExponent
  exact ⟨k, hsize⟩

theorem Identified.capacity_le {g : Geometry} (h : Identified g) : g.capacity ≤ maxCapacity := by
  rcases h.source with ⟨maker, hmaker, part, hpart, id, rfl⟩ | ⟨table, p, id, hp, rfl⟩ | ⟨id, rfl⟩
  · exact capacityOfCode_le part.actual
  · exact Nat.min_le_right _ _
  · exact capacityOfCode_le id.capacity

/-- A page is cut to 256 bytes, which is a power of two as well. -/
theorem Identified.pageLength {g : Geometry} (h : Identified g) : IsPowerOfTwo g.pageLength := by
  have hpos := h.pageSize.pos
  rcases Nat.le_total g.pageSize 256 with hle | hle
  · have heq : g.pageLength = g.pageSize := by
      simp only [Geometry.pageLength, maxPageLength]
      omega
    rw [heq]
    exact h.pageSize
  · refine ⟨8, ?_⟩
    show min (max g.pageSize 1) 256 = 256
    omega

/-! ## Pages and erase blocks -/

/-- What a request names by an index. -/
inductive Grain where
  | page
  | block
deriving DecidableEq, Repr

namespace Geometry

/-- Bytes in a page or an erase block. -/
def size (g : Geometry) : Grain → Nat
  | .page => g.pageLength
  | .block => g.eraseSize

/-- How many pages or erase blocks there are. -/
def count (g : Geometry) : Grain → Nat
  | .page => g.pageCount
  | .block => g.eraseBlocks

/-- Where a page or an erase block begins. -/
def start (g : Geometry) (grain : Grain) (index : Nat) : Nat := index * g.size grain

end Geometry

theorem Identified.size {g : Geometry} (h : Identified g) (grain : Grain) :
    IsPowerOfTwo (g.size grain) := by
  cases grain with
  | page => exact h.pageLength
  | block => exact h.eraseSize

/-- A block begins inside the chip or is the first one, so no address is cut to 32 bits. -/
theorem Identified.blockAddress_eq {g : Geometry} (h : Identified g) {block : Nat}
    (hblock : block < g.eraseBlocks) : g.blockAddress block = g.start .block block := by
  refine Nat.min_eq_left ?_
  have hsize : max g.eraseSize 1 = g.eraseSize := Nat.max_eq_left h.eraseSize.pos
  rw [Geometry.eraseBlocks, hsize] at hblock
  rcases Nat.eq_zero_or_pos block with rfl | hpos
  · simp
  · have hlt : block < g.capacity / g.eraseSize := by omega
    have hmul := (Nat.lt_div_iff_mul_lt h.eraseSize.pos).mp hlt
    have hcap := h.capacity_le
    rw [maxCapacity] at hcap
    have hcomm := Nat.mul_comm g.eraseSize block
    omega

/-! ## Addresses of three bytes -/

/-- Three bytes name the addresses below this one. -/
def addressReach : Nat := 0x1000000

theorem addressReach_isPowerOfTwo : IsPowerOfTwo addressReach := ⟨24, rfl⟩

/-- The address that goes out for a page or an erase block. -/
def Geometry.named (g : Geometry) (grain : Grain) (index : Nat) : Nat :=
  g.start grain index % addressReach

/-- The index of a page or an erase block of the chip that a request can name. -/
def Geometry.Accepts (g : Geometry) (grain : Grain) (index : Nat) : Prop :=
  index < g.count grain ∧ index < addressReach

/-- The last index that a request can name. -/
def Geometry.lastIndex (g : Geometry) (grain : Grain) : Nat :=
  min (g.count grain) addressReach - 1

theorem Geometry.named_lt (g : Geometry) (grain : Grain) (index : Nat) :
    g.named grain index < addressReach :=
  Nat.mod_lt _ (by decide)

/-- An address goes out as it is exactly if three bytes can name it. -/
theorem Geometry.named_eq_start_iff (g : Geometry) (grain : Grain) (index : Nat) :
    g.named grain index = g.start grain index ↔ g.start grain index < addressReach := by
  constructor
  · intro h
    rw [← h]
    exact g.named_lt grain index
  · exact Nat.mod_eq_of_lt

/-- A page or block past the reach goes out as an address that lies before it by its whole size. -/
theorem Identified.named_add_size_le {g : Geometry} (hg : Identified g) {grain : Grain}
    {index : Nat} (h : addressReach ≤ g.start grain index) :
    g.named grain index + g.size grain ≤ g.start grain index := by
  rcases (hg.size grain).dvd_or_dvd addressReach_isPowerOfTwo with hd | hd
  · obtain ⟨q, hq⟩ := hd
    have hnamed : g.named grain index = index % q * g.size grain := by
      rw [Geometry.named, Geometry.start, hq, Nat.mul_comm index, Nat.mul_mod_mul_left,
        Nat.mul_comm]
    have hq0 : 0 < q := by
      rcases Nat.eq_zero_or_pos q with rfl | hpos
      · rw [Nat.mul_zero] at hq
        cases hq
      · exact hpos
    have hlt : index % q + 1 ≤ q := Nat.mod_lt index hq0
    calc g.named grain index + g.size grain
        = (index % q + 1) * g.size grain := by rw [hnamed, Nat.succ_mul]
      _ ≤ q * g.size grain := Nat.mul_le_mul_right _ hlt
      _ = addressReach := by rw [hq, Nat.mul_comm]
      _ ≤ g.start grain index := h
  · have hzero : g.named grain index = 0 :=
      Nat.mod_eq_zero_of_dvd (Nat.dvd_trans hd (Nat.dvd_mul_left _ _))
    rw [hzero, Nat.zero_add]
    rcases Nat.eq_zero_or_pos index with rfl | hpos
    · rw [Geometry.start, Nat.zero_mul] at h
      cases h
    · exact Nat.le_mul_of_pos_left _ hpos

theorem Geometry.Accepts.le_lastIndex {g : Geometry} {grain : Grain} {index : Nat}
    (h : g.Accepts grain index) : index ≤ g.lastIndex grain := by
  obtain ⟨hcount, hreach⟩ := h
  rw [lastIndex]
  omega

/-- An index up to the last one can be named, unless there is none at all. -/
theorem Geometry.accepts_of_le {g : Geometry} {grain : Grain} {index : Nat}
    (hpos : 0 < g.lastIndex grain) (h : index ≤ g.lastIndex grain) : g.Accepts grain index := by
  rw [lastIndex] at hpos h
  constructor <;> omega

/-- Every acceptable index goes out as its own address exactly if the last one does. -/
theorem Geometry.faithful_iff (g : Geometry) (grain : Grain) :
    (∀ index, g.Accepts grain index → g.named grain index = g.start grain index) ↔
      g.start grain (g.lastIndex grain) < addressReach := by
  constructor
  · intro h
    rcases Nat.eq_zero_or_pos (g.lastIndex grain) with hzero | hpos
    · rw [hzero, start, Nat.zero_mul]
      decide
    · exact (g.named_eq_start_iff grain _).mp (h _ (accepts_of_le hpos (Nat.le_refl _)))
  · intro h index haccepts
    refine (g.named_eq_start_iff grain index).mpr (Nat.lt_of_le_of_lt ?_ h)
    exact Nat.mul_le_mul_right _ haccepts.le_lastIndex

/-- Acceptable indexes go out as different addresses exactly if the last one goes out as its own. -/
theorem Identified.tellsApart_iff {g : Geometry} (hg : Identified g) (grain : Grain) :
    (∀ i j, g.Accepts grain i → g.Accepts grain j →
        g.named grain i = g.named grain j → i = j) ↔
      g.start grain (g.lastIndex grain) < addressReach := by
  have hsize := (hg.size grain).pos
  constructor
  · intro h
    refine Nat.lt_of_not_le fun hle => ?_
    -- Some index after 0 begins at a multiple of the reach, and goes out as 0.
    have hclash : ∃ n, 0 < n ∧ n ≤ g.lastIndex grain ∧ g.named grain n = 0 := by
      rcases (hg.size grain).dvd_or_dvd addressReach_isPowerOfTwo with hd | hd
      · obtain ⟨q, hq⟩ := hd
        have hstart : g.start grain q = addressReach := by rw [Geometry.start, Nat.mul_comm, hq]
        refine ⟨q, ?_, ?_, ?_⟩
        · rcases Nat.eq_zero_or_pos q with rfl | hpos
          · rw [Nat.mul_zero] at hq
            cases hq
          · exact hpos
        · rw [← hstart] at hle
          exact Nat.le_of_mul_le_mul_right hle hsize
        · rw [Geometry.named, hstart, Nat.mod_self]
      · refine ⟨1, Nat.one_pos, ?_, ?_⟩
        · rcases Nat.eq_zero_or_pos (g.lastIndex grain) with hzero | hpos
          · rw [hzero, Geometry.start, Nat.zero_mul] at hle
            cases hle
          · exact hpos
        · rw [Geometry.named, Geometry.start, Nat.one_mul]
          exact Nat.mod_eq_zero_of_dvd hd
    obtain ⟨n, hpos, hn, hzero⟩ := hclash
    have hlast : 0 < g.lastIndex grain := by omega
    have hfirst : g.named grain 0 = 0 := by rw [Geometry.named, Geometry.start, Nat.zero_mul]; rfl
    have heq := h 0 n (Geometry.accepts_of_le hlast (Nat.zero_le _))
      (Geometry.accepts_of_le hlast hn) (hfirst.trans hzero.symm)
    omega
  · intro h i j hi hj heq
    have hfaithful := (g.faithful_iff grain).mpr h
    rw [hfaithful i hi, hfaithful j hj] at heq
    exact Nat.eq_of_mul_eq_mul_right hsize heq

end FlashProgrammer.Flash

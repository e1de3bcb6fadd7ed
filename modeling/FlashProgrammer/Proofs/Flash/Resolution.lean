import FlashProgrammer.Proofs.Flash.Identified

/-!
# What an id resolves to

An id that the catalogue lists resolves to its entry, and the chip is not asked to describe itself.
Any other id resolves to what the chip describes, if that can be made out, and else to a guess that
takes nothing from what was read.  `Geometry.Says` spells out what that is, field by field.

Whichever of the three it is, pages and erase blocks are powers of two.  So pages divide the 256
bytes that a chip programs at a time, and blocks begin at multiples of their size.
`resolve_wellFormed` says all this of every id and every reader.
-/

namespace FlashProgrammer.Sfdp

/-- A reader that keeps the address and length of every read, oldest first. -/
def recorded {ω : Type} (read : Reader ω) : Reader (ω × List (Nat × Nat)) :=
  fun address length w =>
    let (reply, hw) := read address length w.1
    (reply, hw, w.2 ++ [(address, length)])

end FlashProgrammer.Sfdp

namespace FlashProgrammer.Flash

/-! ## The catalogue -/

/-- The catalogue has a part under an id. -/
structure Lists (part : Part) (id : JedecId) : Prop where
  maker : ∃ maker ∈ makers, maker.id = id.manufacturer ∧ part ∈ maker.parts
  deviceType_eq : part.deviceType = id.deviceType
  reported_eq : part.reported = id.capacity

/-- No id is listed twice, so the entry of an id is the one that is found. -/
theorem catalogued?_eq_some_iff {id : JedecId} {g : Geometry} :
    catalogued? id = some g ↔ ∃ part, Lists part id ∧ g = part.geometry id := by
  constructor
  · intro h
    simp only [catalogued?, findPart?, findMaker?, Option.map_eq_some_iff, Option.bind_eq_bind,
      Option.bind_eq_some_iff] at h
    obtain ⟨part, ⟨maker, hmaker, hpart⟩, rfl⟩ := h
    have hid := List.find?_some hmaker
    have hkey := List.find?_some hpart
    simp only [Bool.and_eq_true, beq_iff_eq] at hid hkey
    exact ⟨part, ⟨⟨maker, List.mem_of_find?_eq_some hmaker, hid, List.mem_of_find?_eq_some hpart⟩,
      hkey.1, hkey.2⟩, rfl⟩
  · rintro ⟨part, ⟨⟨maker, hmaker, hid, hpart⟩, htype, hreported⟩, rfl⟩
    obtain ⟨manufacturer, deviceType, capacity⟩ := id
    simp only at hid htype hreported
    subst hid htype hreported
    exact catalogued_part maker hmaker part hpart

theorem catalogued?_eq_none {id : JedecId} (h : ∀ part, ¬Lists part id) : catalogued? id = none := by
  cases hc : catalogued? id with
  | none => rfl
  | some g =>
    obtain ⟨part, hlists, _⟩ := catalogued?_eq_some_iff.mp hc
    exact absurd hlists (h part)

/-! ## The three ways -/

/-- What a geometry says of a chip, field by field. -/
structure Geometry.Says (g : Geometry) (provenance : Provenance) (capacity : Nat)
    (eraseOpcode : UInt8) (eraseSize pageSize : Nat) : Prop where
  provenance_eq : g.provenance = provenance
  capacity_eq : g.capacity = capacity
  eraseOpcode_eq : g.eraseOpcode = eraseOpcode
  eraseSize_eq : g.eraseSize = eraseSize
  pageSize_eq : g.pageSize = pageSize

/-- A listed part says what its entry does, and that it has pages of 256 bytes. -/
theorem Part.says_geometry (part : Part) (id : JedecId) :
    (part.geometry id).Says .table (min (1 <<< part.actual.toNat) 0xFFFFFFFF) part.eraseOpcode
      part.eraseSize 256 :=
  ⟨rfl, capacityOfCode_eq part.actual, rfl, rfl, rfl⟩

/-- A part that describes itself says what its tables do. -/
theorem Geometry.says_ofParameters (id : JedecId) (p : Sfdp.Parameters) :
    (Geometry.ofParameters id p).Says .sfdp (min (p.capacityBits / 8) 0xFFFFFFFF) p.eraseOpcode
      p.eraseSize p.pageSize :=
  ⟨rfl, rfl, rfl, rfl, rfl⟩

/-- A guess takes the capacity from the id, and the rest from nothing. -/
theorem Geometry.says_guess (id : JedecId) :
    (Geometry.guess id).Says .synthesized (min (1 <<< id.capacity.toNat) 0xFFFFFFFF) 0xD8 0x10000
      256 :=
  ⟨rfl, capacityOfCode_eq id.capacity, rfl, rfl, rfl⟩

section Resolving

variable {ω : Type} {read : Sfdp.Reader ω} {id : JedecId} {w : ω}

theorem resolve_of_lists {part : Part} (h : Lists part id) :
    resolve read id w = (part.geometry id, w) := by
  have hfound : catalogued? id = some (part.geometry id) :=
    catalogued?_eq_some_iff.mpr ⟨part, h, rfl⟩
  rw [resolve, hfound]

theorem resolve_of_described (h : ∀ part, ¬Lists part id) {p : Sfdp.Parameters} {w' : ω}
    (hdescribed : Sfdp.discover read w = (.ok p, w')) :
    resolve read id w = (.ofParameters id p, w') := by
  rw [resolve, catalogued?_eq_none h, hdescribed]

theorem resolve_of_undescribed (h : ∀ part, ¬Lists part id) {e : Sfdp.Refusal} {w' : ω}
    (hrefused : Sfdp.discover read w = (.error e, w')) :
    resolve read id w = (.guess id, w') := by
  rw [resolve, catalogued?_eq_none h, hrefused]

/-- Every geometry keeps the id that it was made for. -/
theorem id_resolve (read : Sfdp.Reader ω) (id : JedecId) (w : ω) :
    (⟨(resolve read id w).1.manufacturer, (resolve read id w).1.deviceType,
      (resolve read id w).1.reportedCapacity⟩ : JedecId) = id := by
  rw [resolve]
  cases hc : catalogued? id with
  | some g =>
    obtain ⟨part, _, rfl⟩ := catalogued?_eq_some_iff.mp hc
    rfl
  | none =>
    simp only
    generalize Sfdp.discover read w = discovered
    obtain ⟨_ | p, w'⟩ := discovered
    · rfl
    · rfl

end Resolving

/-! ## Pages and blocks -/

section WellFormed

variable {g : Geometry}

/-- The pages of a chip divide the 256 bytes that it programs at a time. -/
theorem Identified.pageLength_dvd (h : Identified g) : g.pageLength ∣ 256 := by
  rcases h.pageLength.dvd_or_dvd ⟨8, rfl⟩ with hdvd | hdvd
  · exact hdvd
  · have hle : 256 ≤ g.pageLength := Nat.le_of_dvd g.pageLength_pos hdvd
    have heq : g.pageLength = 256 := Nat.le_antisymm g.pageLength_le hle
    exact heq ▸ Nat.dvd_refl 256

/-- So what is programmed into a page stays between two multiples of 256. -/
theorem Identified.program_within (h : Identified g) (page : Nat) {n : Nat}
    (hn : n ≤ g.pageLength) : g.pageAddress page % 256 + n ≤ 256 := by
  obtain ⟨q, hq⟩ := h.pageLength_dvd
  have hoffset : g.pageAddress page % 256 = page % q * g.pageLength := by
    rw [Geometry.pageAddress, hq, Nat.mul_comm page, Nat.mul_mod_mul_left, Nat.mul_comm]
  have hpos : 0 < q := Nat.pos_of_ne_zero fun hzero => by
    rw [hzero, Nat.mul_zero] at hq
    cases hq
  have hlt : page % q + 1 ≤ q := Nat.mod_lt page hpos
  calc g.pageAddress page % 256 + n
      ≤ page % q * g.pageLength + g.pageLength := by rw [hoffset]; exact Nat.add_le_add_left hn _
    _ = (page % q + 1) * g.pageLength := (Nat.succ_mul _ _).symm
    _ ≤ q * g.pageLength := Nat.mul_le_mul_right _ hlt
    _ = 256 := by rw [hq, Nat.mul_comm]

theorem Identified.eraseSize_dvd (h : Identified g) {block : Nat} (hblock : block < g.eraseBlocks) :
    g.eraseSize ∣ g.blockAddress block := by
  rw [h.blockAddress_eq hblock]
  exact Nat.dvd_mul_left _ _

end WellFormed

/-- What an id resolves to, and what can be relied on.

For every id and every reader, whatever it reads and however it fails.  An id that the catalogue
lists resolves to its entry, and nothing is read.  Any other id resolves to exactly what the chip
describes if the walk through its description succeeds, and to a guess made of the id alone if it
does not: blocks of 64 KiB that 0xD8 erases, and pages of 256 bytes.  The id is kept.  An erase block
has from 2 to 2 ^ 31 bytes and a page at most 2 ^ 15, both powers of two.  The page length used
towards the host is a power of two that divides 256, so what is programmed into a page never crosses
a multiple of 256, and every erase block begins at a multiple of its size. -/
theorem resolve_wellFormed {ω : Type} (read : Sfdp.Reader ω) (id : JedecId) (w : ω) :
    let g := (resolve read id w).1
    (∀ part, Lists part id → resolve read id w = (part.geometry id, w) ∧
      g.Says .table (min (1 <<< part.actual.toNat) 0xFFFFFFFF) part.eraseOpcode part.eraseSize 256 ∧
      (resolve (Sfdp.recorded read) id (w, [])).2.2 = []) ∧
    ((∀ part, ¬Lists part id) →
      (∀ p w', Sfdp.discover read w = (.ok p, w') →
        resolve read id w = (.ofParameters id p, w') ∧
        g.Says .sfdp (min (p.capacityBits / 8) 0xFFFFFFFF) p.eraseOpcode p.eraseSize p.pageSize) ∧
      ∀ e w', Sfdp.discover read w = (.error e, w') → resolve read id w = (.guess id, w') ∧
        g.Says .synthesized (min (1 <<< id.capacity.toNat) 0xFFFFFFFF) 0xD8 0x10000 256) ∧
    (⟨g.manufacturer, g.deviceType, g.reportedCapacity⟩ : JedecId) = id ∧
    (∃ k, 1 ≤ k ∧ k ≤ 31 ∧ g.eraseSize = 1 <<< k) ∧
    (∃ k, k ≤ 15 ∧ g.pageSize = 1 <<< k) ∧
    IsPowerOfTwo g.pageLength ∧ g.pageLength ∣ 256 ∧
    (∀ page n, n ≤ g.pageLength → g.pageAddress page % 256 + n ≤ 256) ∧
    ∀ block, block < g.eraseBlocks → g.eraseSize ∣ g.blockAddress block := by
  intro g
  have hg : Identified g := .resolved read id w
  have hunread : ∀ part, Lists part id →
      resolve (Sfdp.recorded read) id (w, []) = (part.geometry id, (w, [])) :=
    fun part hlists => resolve_of_lists hlists
  -- What a geometry says is read off the one that the id resolves to.
  have hof : ∀ {g' : Geometry} {w' : ω}, resolve read id w = (g', w') → g = g' :=
    fun h => congrArg Prod.fst h
  refine ⟨fun part hlists => ⟨resolve_of_lists hlists, ?_, ?_⟩,
    fun hunlisted => ⟨fun p w' hdescribed => ?_, fun e w' hrefused => ?_⟩,
    id_resolve read id w, hg.eraseExponent, hg.pageExponent, hg.pageLength, hg.pageLength_dvd,
    fun page _ => hg.program_within page, fun _ => hg.eraseSize_dvd⟩
  · rw [hof (resolve_of_lists hlists)]
    exact part.says_geometry id
  · rw [hunread part hlists]
  · have hresolve := resolve_of_described hunlisted hdescribed
    refine ⟨hresolve, ?_⟩
    rw [hof hresolve]
    exact Geometry.says_ofParameters id p
  · have hresolve := resolve_of_undescribed hunlisted hrefused
    refine ⟨hresolve, ?_⟩
    rw [hof hresolve]
    exact Geometry.says_guess id

end FlashProgrammer.Flash

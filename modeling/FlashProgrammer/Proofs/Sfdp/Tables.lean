import FlashProgrammer.Bench.SfdpImage

/-!
# What a basic table says

A basic table is any string of bytes.  `Density` and `Determines` say what its words mean for the
size of a chip and for its erase size, and `parse_eq_ok_iff` that a table is accepted exactly if it
has two words and both are settled.

`Parameters.parse?` is the parser with every byte looked up and every shift checked, and has no
result as soon as one of them is out of range.  It sees a table only through five of its words and
through its length in words.  So `parse?_eq` says two things: nothing is out of range, and tables
that agree there are read alike.
-/

namespace FlashProgrammer

/-- One shifted to the left in a number of `width` bits, which must not be shifted out of it. -/
def Checked.shift (width n : Nat) : Option Nat := if n < width then some (1 <<< n) else none

theorem Checked.shift_of_lt {width n : Nat} (h : n < width) :
    Checked.shift width n = some (1 <<< n) :=
  if_pos h

namespace Sfdp

variable {table : List UInt8}

/-! ## Words and their bytes -/

/-- Word `n` of a table with each of its bytes looked up.  There is no word 0. -/
def word? (table : List UInt8) : (n : Nat) → Option Nat
  | 0 => none
  | n + 1 => do
    let a ← table[4 * n]?
    let b ← table[4 * n + 1]?
    let c ← table[4 * n + 2]?
    let d ← table[4 * n + 3]?
    return LittleEndian.decode [a, b, c, d]

theorem getElem?_eq_byteAt {i : Nat} (h : i < table.length) : table[i]? = some (byteAt table i) := by
  rw [byteAt, List.getD_eq_getElem?_getD, List.getElem?_eq_getElem h, Option.getD_some]

/-- A field is read byte by byte, the lowest first.  A byte that is missing counts as zero. -/
theorem field_succ (bs : List UInt8) (i w : Nat) :
    LittleEndian.field bs i (w + 1) =
      (byteAt bs i).toNat + 256 * LittleEndian.field bs (i + 1) w := by
  rw [LittleEndian.field, LittleEndian.field, byteAt, List.getD_eq_getElem?_getD,
    ← List.head?_drop, ← List.tail_drop]
  cases bs.drop i with
  | nil => simp
  | cons b rest => rfl

/-- A word is made of four bytes. -/
theorem word_succ (table : List UInt8) (n : Nat) :
    word table (n + 1) = LittleEndian.decode
      [byteAt table (4 * n), byteAt table (4 * n + 1), byteAt table (4 * n + 2),
        byteAt table (4 * n + 3)] := by
  rw [word, Nat.add_sub_cancel, field_succ, field_succ, field_succ, field_succ]
  rfl

theorem word?_eq {n : Nat} (hpos : 0 < n) (h : n ≤ wordCount table) :
    word? table n = some (word table n) := by
  cases n with
  | zero => cases hpos
  | succ n =>
    rw [word_succ]
    rw [wordCount] at h
    rw [word?, getElem?_eq_byteAt (by omega), getElem?_eq_byteAt (by omega),
      getElem?_eq_byteAt (by omega), getElem?_eq_byteAt (by omega)]
    rfl

/-- The second byte of a word. -/
def secondByte (word : Nat) : UInt8 := UInt8.ofNat (word / 256)

/-- The two erase types in a word: each is the size's logarithm and the opcode. -/
def typesIn (word : Nat) : List (Nat × UInt8) :=
  [(word % 256, UInt8.ofNat (word / 256)),
    (word / 0x10000 % 256, UInt8.ofNat (word / 0x1000000))]

theorem secondByte_decode (a b c d : UInt8) :
    secondByte (LittleEndian.decode [a, b, c, d]) = b := by
  have ha := a.toNat_lt
  have hb := b.toNat_lt
  simp only [secondByte, LittleEndian.decode, ← UInt8.toNat_inj, UInt8.toNat_ofNat']
  omega

theorem typesIn_decode (a b c d : UInt8) :
    typesIn (LittleEndian.decode [a, b, c, d]) = [(a.toNat, b), (c.toNat, d)] := by
  have ha := a.toNat_lt
  have hb := b.toNat_lt
  have hc := c.toNat_lt
  have hd := d.toNat_lt
  simp only [typesIn, LittleEndian.decode, List.cons.injEq, Prod.mk.injEq, ← UInt8.toNat_inj,
    UInt8.toNat_ofNat', and_true]
  omega

/-- The opcode that a table declares is the second byte of its first word. -/
theorem secondByte_word_one (table : List UInt8) :
    secondByte (word table 1) = declaredOpcode table := by
  rw [word_succ]
  exact secondByte_decode _ _ _ _

/-- The erase types of a table are those in its words 8 and 9. -/
theorem typesIn_words (table : List UInt8) :
    typesIn (word table 8) ++ typesIn (word table 9) = eraseTypes table := by
  rw [word_succ, word_succ, typesIn_decode, typesIn_decode]
  rfl

/-! ## Size -/

/-- What the second word of a table says of the size in bits. -/
inductive Density : (word bits : Nat) → Prop
  /-- The top bit is clear, and the word is one less than the size. -/
  | linear {n : Nat} (h : n < 0x80000000) : Density n (n + 1)
  /-- The top bit is set, and the rest of the word is the logarithm of the size. -/
  | exponent {n : Nat} (h : n < 64) : Density (0x80000000 + n) (1 <<< n)

theorem capacityBits?_linear {n : Nat} (h : n < 0x80000000) : capacityBits? n = some (n + 1) :=
  if_pos h

theorem capacityBits?_exponent (n : Nat) :
    capacityBits? (0x80000000 + n) = if n < 64 then some (1 <<< n) else none := by
  rw [capacityBits?, if_neg (by omega), Nat.add_sub_cancel_left]

theorem capacityBits?_eq_some_iff {word bits : Nat} :
    capacityBits? word = some bits ↔ Density word bits := by
  constructor
  · intro h
    rcases Nat.lt_or_ge word 0x80000000 with hlinear | hset
    · rw [capacityBits?_linear hlinear] at h
      exact Option.some.inj h ▸ .linear hlinear
    · obtain ⟨n, rfl⟩ := Nat.exists_eq_add_of_le hset
      rw [capacityBits?_exponent, Option.ite_none_right_eq_some] at h
      exact Option.some.inj h.2 ▸ .exponent h.1
  · intro h
    cases h with
    | linear h => exact capacityBits?_linear h
    | @exponent n h => rw [capacityBits?_exponent, if_pos h]

/-- Only an exponent of 64 or more makes no sense. -/
theorem exists_density_iff {word : Nat} : (∃ bits, Density word bits) ↔ word < 0x80000040 := by
  constructor
  · rintro ⟨bits, h | h⟩
    · omega
    · omega
  · intro h
    rcases Nat.lt_or_ge word 0x80000000 with hlinear | hset
    · exact ⟨_, .linear hlinear⟩
    · obtain ⟨n, rfl⟩ := Nat.exists_eq_add_of_le hset
      exact ⟨_, .exponent (by omega)⟩

/-! ## Erase size -/

/-- The logarithm of the size in the erase type at one of the four places. -/
def exponentAt (table : List UInt8) (i : Nat) : Nat := (byteAt table (28 + 2 * i)).toNat

/-- The opcode in the erase type at one of the four places. -/
def opcodeAt (table : List UInt8) (i : Nat) : UInt8 := byteAt table (29 + 2 * i)

/-- The erase type at a place has a size of 32 bits and the declared opcode. -/
structure Suits (table : List UInt8) (i : Nat) : Prop where
  exponent_pos : 0 < exponentAt table i
  exponent_lt : exponentAt table i < 32
  opcode_eq : opcodeAt table i = byteAt table 1

/-- The erase size that a table determines. -/
inductive Determines (table : List UInt8) : Nat → Prop
  /-- The table has erase types, and this is the first of the four that suits. -/
  | typed (hlong : 9 ≤ wordCount table) {i : Nat} (hi : i < 4) (hsuits : Suits table i)
      (hfirst : ∀ j, j < i → ¬Suits table j) : Determines table (1 <<< exponentAt table i)
  /-- It has none that suits, and says that the declared opcode erases 4 KiB. -/
  | plain (hnone : 9 ≤ wordCount table → ∀ i, i < 4 → ¬Suits table i)
      (hbits : word table 1 % 4 = 1) (hopcode : byteAt table 1 ≠ 0xFF) : Determines table 4096

/-- The test that an erase type has to pass. -/
def suits (declared : UInt8) (t : Nat × UInt8) : Bool := t.1 != 0 && t.1 < 32 && t.2 == declared

theorem suits_iff {i : Nat} :
    suits (declaredOpcode table) (exponentAt table i, opcodeAt table i) = true ↔ Suits table i := by
  simp only [suits, declaredOpcode, Bool.and_eq_true, bne_iff_ne, decide_eq_true_eq, beq_iff_eq]
  constructor
  · rintro ⟨⟨hne, hlt⟩, hopcode⟩
    exact ⟨Nat.pos_of_ne_zero hne, hlt, hopcode⟩
  · rintro ⟨hpos, hlt, hopcode⟩
    exact ⟨⟨Nat.ne_of_gt hpos, hlt⟩, hopcode⟩

/-- The four places are searched in order. -/
theorem eraseTypeSize?_eq (table : List UInt8) :
    eraseTypeSize? table =
      ((List.range 4).find? fun i =>
        suits (declaredOpcode table) (exponentAt table i, opcodeAt table i)).map
          fun i => 1 <<< exponentAt table i := by
  have htypes : eraseTypes table =
      (List.range 4).map fun i => (exponentAt table i, opcodeAt table i) := rfl
  rw [eraseTypeSize?, htypes, List.find?_map, Option.map_map]
  rfl

theorem eraseTypeSize?_eq_some_iff {size : Nat} :
    eraseTypeSize? table = some size ↔
      ∃ i, i < 4 ∧ Suits table i ∧ (∀ j, j < i → ¬Suits table j) ∧ size = 1 <<< exponentAt table i := by
  simp only [eraseTypeSize?_eq, Option.map_eq_some_iff, List.find?_range_eq_some, suits_iff,
    List.mem_range, Bool.not_eq_true', ← Bool.not_eq_true]
  constructor
  · rintro ⟨i, ⟨hsuits, hi, hfirst⟩, rfl⟩
    exact ⟨i, hi, hsuits, hfirst, rfl⟩
  · rintro ⟨i, hi, hsuits, hfirst, rfl⟩
    exact ⟨i, ⟨hsuits, hi, hfirst⟩, rfl⟩

theorem eraseTypeSize?_eq_none_iff :
    eraseTypeSize? table = none ↔ ∀ i, i < 4 → ¬Suits table i := by
  simp only [eraseTypeSize?_eq, Option.map_eq_none_iff, List.find?_eq_none, suits_iff,
    List.mem_range]

theorem eraseSize?_eq_some_iff {size : Nat} :
    eraseSize? table = some size ↔ Determines table size := by
  have hplain : (if declaresSectors table then some 4096 else none) = some size ↔
      (word table 1 % 4 = 1 ∧ byteAt table 1 ≠ 0xFF) ∧ 4096 = size := by
    simp [declaresSectors, declaredOpcode]
  rw [eraseSize?, Option.or_eq_some_iff, hplain]
  constructor
  · rintro (htyped | ⟨hnone, ⟨hbits, hopcode⟩, rfl⟩)
    · rw [Option.ite_none_right_eq_some, eraseTypeSize?_eq_some_iff] at htyped
      obtain ⟨hlong, i, hi, hsuits, hfirst, rfl⟩ := htyped
      exact .typed hlong hi hsuits hfirst
    · refine .plain (fun hlong => ?_) hbits hopcode
      rw [if_pos hlong] at hnone
      exact eraseTypeSize?_eq_none_iff.mp hnone
  · intro h
    cases h with
    | @typed hlong i hi hsuits hfirst =>
      rw [if_pos hlong]
      exact .inl (eraseTypeSize?_eq_some_iff.mpr ⟨i, hi, hsuits, hfirst, rfl⟩)
    | plain hnone hbits hopcode =>
      refine .inr ⟨?_, ⟨hbits, hopcode⟩, rfl⟩
      split
      · next hlong => exact eraseTypeSize?_eq_none_iff.mpr (hnone hlong)
      · rfl

/-! ## Acceptance -/

namespace Parameters

theorem parse_eq_ok_iff {p : Parameters} :
    parse table = .ok p ↔
      2 ≤ wordCount table ∧ Density (word table 2) p.capacityBits ∧ Determines table p.eraseSize ∧
        p.eraseOpcode = byteAt table 1 ∧ p.pageSize = pageSizeOf table := by
  rw [← capacityBits?_eq_some_iff, ← eraseSize?_eq_some_iff, parse]
  constructor
  · intro h
    split at h
    · cases h
    · next hwords =>
      split at h
      · next hbits hsize =>
        cases h
        exact ⟨Nat.le_of_not_lt hwords, hbits, hsize, rfl, rfl⟩
      · cases h
  · rintro ⟨hwords, hbits, hsize, hopcode, hpage⟩
    rw [if_neg (Nat.not_lt.mpr hwords), hbits, hsize]
    obtain ⟨capacityBits, eraseOpcode, eraseSize, pageSize⟩ := p
    simp only at hopcode hpage
    rw [hopcode, hpage]
    rfl

/-- A table is refused for one reason only. -/
theorem eq_of_parse_eq_error {e : Refusal} (h : parse table = .error e) : e = .invalidParameters := by
  rw [parse] at h
  split at h
  · cases h
    rfl
  · split at h
    · cases h
    · cases h
      rfl

end Parameters

/-! ## Every access in range -/

/-- The size in bits with its shift checked, if the density makes sense. -/
def capacityBitsChecked (density : Nat) : Option (Option Nat) :=
  if density < 0x80000000 then some (some (density + 1))
  else if density - 0x80000000 < 64 then (Checked.shift 64 (density - 0x80000000)).map some
  else some none

theorem capacityBitsChecked_eq (density : Nat) :
    capacityBitsChecked density = some (capacityBits? density) := by
  rw [capacityBitsChecked, capacityBits?]
  split
  · rfl
  · split
    · next hsmall =>
      rw [Checked.shift_of_lt hsmall]
      rfl
    · rfl

/-- The erase types with their words checked, if the table is long enough to have them. -/
def eraseTypesChecked (table : List UInt8) : Option (List (Nat × UInt8)) :=
  if 9 ≤ wordCount table then do
    let eighth ← word? table 8
    let ninth ← word? table 9
    return typesIn eighth ++ typesIn ninth
  else some []

theorem eraseTypesChecked_eq (table : List UInt8) :
    eraseTypesChecked table = some (if 9 ≤ wordCount table then eraseTypes table else []) := by
  rw [eraseTypesChecked]
  split
  · next hlong =>
    have heighth : word? table 8 = some (word table 8) := word?_eq (by decide) (by omega)
    rw [heighth, word?_eq (by decide) hlong, ← typesIn_words]
    rfl
  · rfl

/-- The erase size with words and shifts checked, if it is determined.  The first word is known. -/
def eraseSizeChecked (table : List UInt8) (first : Nat) : Option (Option Nat) := do
  let declared := secondByte first
  let types ← eraseTypesChecked table
  match types.find? (suits declared) with
  | some t => (Checked.shift 32 t.1).map some
  | none => return if first % 4 == 1 && declared != 0xFF then some 4096 else none

theorem eraseSizeChecked_eq (table : List UInt8) :
    eraseSizeChecked table (word table 1) = some (eraseSize? table) := by
  have htyped : eraseTypeSize? table =
      ((eraseTypes table).find? (suits (declaredOpcode table))).map fun t => 1 <<< t.1 := rfl
  rw [eraseSizeChecked, eraseSize?, secondByte_word_one, eraseTypesChecked_eq, htyped]
  by_cases hlong : 9 ≤ wordCount table
  · simp only [if_pos hlong, Option.bind_eq_bind, Option.bind_some, Option.pure_def]
    cases hfind : (eraseTypes table).find? (suits (declaredOpcode table)) with
    | none => rfl
    | some t =>
      have hsuits := List.find?_some hfind
      simp only [suits, Bool.and_eq_true, decide_eq_true_eq] at hsuits
      simp only [Checked.shift_of_lt hsuits.1.2]
      rfl
  · simp only [if_neg hlong]
    rfl

/-- The page size with the word and the shift checked. -/
def pageSizeChecked (table : List UInt8) : Option Nat :=
  if 11 ≤ wordCount table then do
    Checked.shift 32 ((← word? table 11) / 16 % 16)
  else some 256

theorem pageSizeChecked_eq (table : List UInt8) :
    pageSizeChecked table = some (pageSizeOf table) := by
  rw [pageSizeChecked, pageSizeOf]
  split
  · next hlong =>
    rw [word?_eq (by decide) hlong]
    exact Checked.shift_of_lt (by omega)
  · rfl

namespace Parameters

/-- Reads a table with every access to it and every shift checked. -/
def parse? (table : List UInt8) : Option (Except Refusal Parameters) :=
  if wordCount table < 2 then some (.error .invalidParameters)
  else do
    let capacityBits ← capacityBitsChecked (← word? table 2)
    let first ← word? table 1
    let eraseSize ← eraseSizeChecked table first
    let pageSize ← pageSizeChecked table
    match capacityBits, eraseSize with
    | some capacityBits, some eraseSize =>
      return .ok { capacityBits, eraseOpcode := secondByte first, eraseSize, pageSize }
    | _, _ => return .error .invalidParameters

theorem parse?_eq (table : List UInt8) : parse? table = some (parse table) := by
  rw [parse?, parse]
  split
  · rfl
  · next hwords =>
    have hone : 1 ≤ wordCount table := by omega
    have hsecond : word? table 2 = some (word table 2) := word?_eq (by decide) (by omega)
    simp only [hsecond, word?_eq (by decide) hone, capacityBitsChecked_eq,
      eraseSizeChecked_eq, pageSizeChecked_eq, secondByte_word_one,
      Option.bind_eq_bind, Option.bind_some, Option.pure_def]
    cases capacityBits? (word table 2) with
    | none => rfl
    | some capacityBits => cases eraseSize? table <;> rfl

end Parameters

/-! ## What does not matter -/

/-- Two tables are alike where it matters: in whether they have fewer than 2, 9 or 11 words, and in
those of the words 1, 2, 8, 9 and 11 that both have. -/
structure Alike (a b : List UInt8) : Prop where
  short_iff : wordCount a < 2 ↔ wordCount b < 2
  untyped_iff : wordCount a < 9 ↔ wordCount b < 9
  unpaged_iff : wordCount a < 11 ↔ wordCount b < 11
  word_eq : ∀ n ∈ [1, 2, 8, 9, 11], n ≤ wordCount a → n ≤ wordCount b → word a n = word b n

section Alike

variable {a b : List UInt8}

theorem Alike.word?_eq (h : Alike a b) {n : Nat} (hn : n ∈ [1, 2, 8, 9, 11])
    (ha : n ≤ wordCount a) (hb : n ≤ wordCount b) : word? a n = word? b n := by
  have hpos : 0 < n := by
    simp only [List.mem_cons, List.not_mem_nil, or_false] at hn
    omega
  rw [Sfdp.word?_eq hpos ha, Sfdp.word?_eq hpos hb, h.word_eq n hn ha hb]

theorem Alike.eraseTypesChecked_eq (h : Alike a b) :
    eraseTypesChecked a = eraseTypesChecked b := by
  rw [eraseTypesChecked, eraseTypesChecked]
  by_cases hlong : 9 ≤ wordCount a
  · have hb : 9 ≤ wordCount b := Nat.not_lt.mp (mt h.untyped_iff.mpr (Nat.not_lt.mpr hlong))
    rw [if_pos hlong, if_pos hb, h.word?_eq (n := 8) (by decide) (by omega) (by omega),
      h.word?_eq (n := 9) (by decide) hlong hb]
  · have hb : ¬9 ≤ wordCount b := Nat.not_le.mpr (h.untyped_iff.mp (Nat.not_le.mp hlong))
    rw [if_neg hlong, if_neg hb]

theorem Alike.pageSizeChecked_eq (h : Alike a b) : pageSizeChecked a = pageSizeChecked b := by
  rw [pageSizeChecked, pageSizeChecked]
  by_cases hlong : 11 ≤ wordCount a
  · have hb : 11 ≤ wordCount b := Nat.not_lt.mp (mt h.unpaged_iff.mpr (Nat.not_lt.mpr hlong))
    rw [if_pos hlong, if_pos hb, h.word?_eq (n := 11) (by decide) hlong hb]
  · have hb : ¬11 ≤ wordCount b := Nat.not_le.mpr (h.unpaged_iff.mp (Nat.not_le.mp hlong))
    rw [if_neg hlong, if_neg hb]

/-- Tables that are alike where it matters are read alike. -/
theorem Alike.parse_eq (h : Alike a b) : Parameters.parse a = Parameters.parse b := by
  refine Option.some.inj ?_
  rw [← Parameters.parse?_eq, ← Parameters.parse?_eq, Parameters.parse?, Parameters.parse?]
  by_cases hshort : wordCount a < 2
  · rw [if_pos hshort, if_pos (h.short_iff.mp hshort)]
  · have hb := mt h.short_iff.mpr hshort
    rw [if_neg hshort, if_neg hb, h.word?_eq (n := 2) (by decide) (by omega) (by omega),
      h.word?_eq (n := 1) (by decide) (by omega) (by omega), h.pageSizeChecked_eq]
    simp only [eraseSizeChecked, h.eraseTypesChecked_eq]

end Alike

/-- What is read from a table, and what of the table it depends on.

For every string of bytes.  No byte past the end is looked at and nothing is shifted out of its
width.  The table is accepted exactly if it has two words, its density is not an exponent of 64 or
more, and it determines an erase size; it is refused for that reason only.  The erase opcode is the
declared one.  A table that is alike in five words and three comparisons of its length is read
alike, whatever else is in it. -/
theorem parse_exact (table : List UInt8) :
    Parameters.parse? table = some (Parameters.parse table) ∧
    ((∃ p, Parameters.parse table = .ok p) ↔
      2 ≤ wordCount table ∧ ¬0x80000040 ≤ word table 2 ∧ ∃ size, Determines table size) ∧
    (∀ p, Parameters.parse table = .ok p →
      Density (word table 2) p.capacityBits ∧ Determines table p.eraseSize ∧
        p.eraseOpcode = byteAt table 1 ∧ p.pageSize = pageSizeOf table ∧
        p.capacityBytes = min (p.capacityBits / 8) 0xFFFFFFFF) ∧
    (∀ e, Parameters.parse table = .error e → e = .invalidParameters) ∧
    ∀ other, Alike table other → Parameters.parse table = Parameters.parse other := by
  refine ⟨Parameters.parse?_eq table, ?_, fun p hp => ?_,
    fun _ => Parameters.eq_of_parse_eq_error, fun _ => Alike.parse_eq⟩
  · rw [Nat.not_le, ← exists_density_iff]
    constructor
    · rintro ⟨p, hp⟩
      obtain ⟨hwords, hbits, hsize, _⟩ := Parameters.parse_eq_ok_iff.mp hp
      exact ⟨hwords, ⟨_, hbits⟩, ⟨_, hsize⟩⟩
    · rintro ⟨hwords, ⟨bits, hbits⟩, ⟨size, hsize⟩⟩
      exact ⟨⟨bits, byteAt table 1, size, pageSizeOf table⟩,
        Parameters.parse_eq_ok_iff.mpr ⟨hwords, hbits, hsize, rfl, rfl⟩⟩
  · obtain ⟨_, hbits, hsize, hopcode, hpage⟩ := Parameters.parse_eq_ok_iff.mp hp
    exact ⟨hbits, hsize, hopcode, hpage, rfl⟩

/-- The table of a plain chip of 4 MiB that erases blocks of 64 KiB. -/
def plainBytes : List UInt8 :=
  (Bench.plainTable 0x80000019 0xD8).flatMap (LittleEndian.encode 4)

/-- The same with eleven words, of which those that do not matter are 0, and two more bytes. -/
def sparseBytes : List UInt8 :=
  ((Bench.plainTable 0x80000019 0xD8).take 11).zipIdx.flatMap (fun w =>
    LittleEndian.encode 4 (if w.2 + 1 ∈ [1, 2, 8, 9, 11] then w.1 else 0)) ++ [0x12, 0x34]

theorem parse_exact_sparse :
    Alike plainBytes sparseBytes ∧ Parameters.parse plainBytes = Parameters.parse sparseBytes ∧
      Parameters.parse sparseBytes = .ok ⟨0x2000000, 0xD8, 0x10000, 0x100⟩ := by
  have halike : Alike plainBytes sparseBytes := ⟨by decide, by decide, by decide, by decide⟩
  exact ⟨halike, (parse_exact plainBytes).2.2.2.2 sparseBytes halike, rfl⟩

-- Without the last byte of its ninth word it has no erase types, and the size is the plain one.
example : Parameters.parse (sparseBytes.take 35) = .ok ⟨0x2000000, 0xD8, 0x1000, 0x100⟩ := rfl

end Sfdp

end FlashProgrammer

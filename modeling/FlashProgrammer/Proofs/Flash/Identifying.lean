import FlashProgrammer.Flash.Identify

/-!
# How a chip is identified

To identify a chip its id is read, and then its description as far as the walk through it goes.
`Reads` says of two moments that only reads of a description lie between them, and `reads_resolve`
says it of every resolution.  So what one such read keeps is kept by the whole, by an induction on
`Reads` and without another look at the walk.
-/

namespace FlashProgrammer.Sfdp

/-- Between two moments a description was read any number of times, and nothing else was done. -/
inductive Reads {ω : Type} (read : Reader ω) (w : ω) : ω → Prop where
  | refl : Reads read w w
  | more {w' : ω} (h : Reads read w w') (address length : Nat) :
      Reads read w (read address length w').2

section Reading

variable {ω : Type} {read : Reader ω}

theorem Reads.trans {u v w : ω} (huv : Reads read u v) (hvw : Reads read v w) :
    Reads read u w := by
  induction hvw with
  | refl => exact huv
  | more _ address length ih => exact .more ih address length

theorem reads_once (address length : Nat) (w : ω) : Reads read w (read address length w).2 :=
  .more .refl address length

theorem reads_findBasic (n address : Nat) (w : ω) :
    Reads read w (findBasic read n address w).2 := by
  induction n generalizing address w with
  | zero => exact .refl
  | succ n ih =>
    have hread : Reads read w (read address headerLength w).2 := reads_once address headerLength w
    rw [findBasic]
    generalize read address headerLength w = answered at hread ⊢
    obtain ⟨_ | bs, w'⟩ := answered
    · exact hread
    · simp only
      split
      · exact hread
      · exact hread.trans (ih (address + headerLength) w')

theorem reads_readTable (header : ParameterHeader) (w : ω) :
    Reads read w (readTable read header w).2 := by
  have hread : Reads read w (read header.pointer (4 * min header.lengthWords maxTableWords) w).2 :=
    reads_once _ _ w
  rw [readTable]
  generalize read header.pointer _ w = answered at hread ⊢
  obtain ⟨_ | table, w'⟩ := answered
  · exact hread
  · exact hread

/-- A walk through a description only reads it. -/
theorem reads_discover (w : ω) : Reads read w (discover read w).2 := by
  have hread : Reads read w (read 0 headerLength w).2 := reads_once 0 headerLength w
  rw [discover]
  generalize read 0 headerLength w = answered at hread ⊢
  obtain ⟨_ | bs, w'⟩ := answered
  · exact hread
  · simp only
    rcases Header.parse bs with _ | header
    · exact hread
    · simp only
      split
      · have hfind : Reads read w' (findBasic read header.parameterHeaders headerLength w').2 :=
          reads_findBasic header.parameterHeaders headerLength w'
        generalize findBasic read header.parameterHeaders headerLength w' = found at hfind ⊢
        obtain ⟨_ | basic, w''⟩ := found
        · exact hread.trans hfind
        · exact (hread.trans hfind).trans (reads_readTable basic w'')
      · exact hread

end Reading

end FlashProgrammer.Sfdp

namespace FlashProgrammer.Flash

theorem reads_resolve {ω : Type} {read : Sfdp.Reader ω} (id : JedecId) (w : ω) :
    Sfdp.Reads read w (resolve read id w).2 := by
  rw [resolve]
  rcases catalogued? id with _ | g
  · have hdiscover : Sfdp.Reads read w (Sfdp.discover read w).2 := Sfdp.reads_discover w
    simp only
    generalize Sfdp.discover read w = discovered at hdiscover ⊢
    obtain ⟨_ | _, w'⟩ := discovered
    · exact hdiscover
    · exact hdiscover
  · exact .refl

/-- The id that a chip goes by: what was read, or what a line reads that no chip drives. -/
def calledId : Except Fault JedecId → JedecId
  | .ok id => id
  | .error _ => .unreadable

/-- Whether or not the id could be read, the chip is resolved by the id that it goes by. -/
theorem identify_eq {ω : Type} [Spi.Bus ω] (slot : Slot) (w : ω) :
    identify slot w =
      resolve (readSfdp slot) (calledId (readId slot w).1) (readId slot w).2 := by
  rw [identify]
  generalize readId slot w = answered
  obtain ⟨_ | id, w'⟩ := answered
  · rfl
  · rfl

end FlashProgrammer.Flash

import FlashProgrammer.Bench.Rig
import FlashProgrammer.Bench.SfdpImage
import FlashProgrammer.Programmer.Answer
import FlashProgrammer.Proofs.Flash.Resolution
import FlashProgrammer.Proofs.Sfdp.Walk

/-!
# Chips whose id cannot be read

An id cannot be read if the transfer fails or if no chip drives the line.  The catalogue knows no
such id, so what is left is what the chip says of itself, and that is read afresh: the failure of
the id read is not remembered.  `unreadable_exact` says that the chip is a best guess exactly if the
walk through its description fails as well.
-/

namespace FlashProgrammer.Sfdp

/-- A chip of which no header with the right letters can be read describes nothing. -/
theorem discover_of_unsigned {ω : Type} {read : Reader ω} {w : ω}
    (h : ∀ bs, (read 0 headerLength w).1 = .ok bs → bs.take 4 ≠ letters) :
    ∃ e, (discover read w).1 = .error e := by
  rw [discover]
  generalize read 0 headerLength w = answered at h ⊢
  obtain ⟨e | bs, w'⟩ := answered
  · exact ⟨.read e, rfl⟩
  · refine ⟨.badSignature, ?_⟩
    simp only [parse_of_unsigned (h bs rfl)]

end FlashProgrammer.Sfdp

namespace FlashProgrammer.Flash

/-- An id that could not be read: the read failed, or the line stayed high or low. -/
inductive Unreadable : Except Fault JedecId → Prop
  | failed (e : Fault) : Unreadable (.error e)
  | floating {id : JedecId} (h : id.isUnreadable = true) : Unreadable (.ok id)

/-- No maker has an id of which all bits are the same. -/
theorem makers_driven : ∀ maker ∈ makers, maker.id ≠ 0xFF ∧ maker.id ≠ 0x00 := by
  decide

theorem not_lists_of_isUnreadable {id : JedecId} (h : id.isUnreadable = true) (part : Part) :
    ¬Lists part id := by
  intro hlists
  obtain ⟨maker, hmaker, hid, _⟩ := hlists.maker
  have hdriven := makers_driven maker hmaker
  rw [hid] at hdriven
  simp only [JedecId.isUnreadable, JedecId.unreadable, Bool.or_eq_true, beq_iff_eq] at h
  rcases h with rfl | rfl
  · exact hdriven.1 rfl
  · exact hdriven.2 rfl

/-- The catalogue does not know what a chip goes by whose id could not be read. -/
theorem Unreadable.unlisted {answered : Except Fault JedecId} (h : Unreadable answered) :
    ∀ part, ¬Lists part (calledId answered) := by
  cases h with
  | failed _ => exact not_lists_of_isUnreadable rfl
  | floating hid => exact not_lists_of_isUnreadable hid

section Identifying

variable {ω : Type} [Spi.Bus ω] {slot : Slot} {w : ω}

theorem Unreadable.identify_of_described (h : Unreadable (readId slot w).1) {p : Sfdp.Parameters}
    (hdescribed : (Sfdp.discover (readSfdp slot) (readId slot w).2).1 = .ok p) :
    (identify slot w).1 = .ofParameters (calledId (readId slot w).1) p := by
  rw [identify_eq, resolve_of_described h.unlisted (Prod.ext hdescribed rfl)]

theorem Unreadable.identify_of_undescribed (h : Unreadable (readId slot w).1) {e : Sfdp.Refusal}
    (hrefused : (Sfdp.discover (readSfdp slot) (readId slot w).2).1 = .error e) :
    (identify slot w).1 = .guess (calledId (readId slot w).1) := by
  rw [identify_eq, resolve_of_undescribed h.unlisted (Prod.ext hrefused rfl)]

end Identifying

end FlashProgrammer.Flash

namespace FlashProgrammer.Programmer

open Flash Protocol
open Bench (FlashBus NorFlash)

/-- What a chip is taken for whose id could not be read, on every bus and however it fails.

It is what the chip describes if the walk through its description succeeds, and a guess if it does
not; it is never a part of the catalogue.  So it is a best guess exactly if the walk fails, and that
is so at least if no header with the right letters can be read.  The host is told which of the two
it is. -/
theorem unreadable_exact {ω : Type} [Spi.Bus ω] {slot : Slot} {w : ω}
    (h : Unreadable (readId slot w).1) :
    let id := calledId (readId slot w).1
    let described := (Sfdp.discover (readSfdp slot) (readId slot w).2).1
    let g := (identify slot w).1
    (∀ p, described = .ok p → g = .ofParameters id p) ∧
    (∀ e, described = .error e → g = .guess id) ∧
    g.provenance ≠ .table ∧
    (g.isBestGuess = true ↔ ∃ e, described = .error e) ∧
    ((∀ bs, (readSfdp slot 0 Sfdp.headerLength (readId slot w).2).1 = .ok bs →
      bs.take 4 ≠ Sfdp.letters) → g.isBestGuess = true) ∧
    ∀ number bus, Slot.find? number bus = some slot →
      ∃ info, (listDevice number bus w).1 = .listDevice info ∧
        info.flags = if g.isBestGuess then { bestGuess := true } else { fromSfdp := true } := by
  intro id described g
  have hdescribed : ∀ p, described = .ok p → g = .ofParameters id p :=
    fun _ => h.identify_of_described
  have hguessed : ∀ e, described = .error e → g = .guess id :=
    fun _ => h.identify_of_undescribed
  have hguess : g.isBestGuess = true ↔ ∃ e, described = .error e := by
    cases hd : described with
    | ok p => simp [hdescribed p hd, Geometry.isBestGuess, Geometry.ofParameters]
    | error e => simp [hguessed e hd, Geometry.isBestGuess, Geometry.guess]
  have hflags : g.provenance ≠ .table ∧ provenanceFlags g.provenance =
      if g.isBestGuess then { bestGuess := true } else { fromSfdp := true } := by
    cases hd : described with
    | ok p => rw [hdescribed p hd]; exact ⟨nofun, rfl⟩
    | error e => rw [hguessed e hd]; exact ⟨nofun, rfl⟩
  refine ⟨hdescribed, hguessed, hflags.1, hguess,
    fun hunsigned => hguess.mpr (Sfdp.discover_of_unsigned hunsigned), fun number bus hslot => ?_⟩
  refine ⟨deviceInfo g, ?_, hflags.2⟩
  rw [listDevice, hslot]

/-- A bus with one chip, of 8 MiB, that describes itself. -/
def describedBus (id : List UInt8) : FlashBus where
  chips := ⟨some { id, size := 0x800000
                   sfdp := (Bench.plainDescription 0x3FFFFFF 0x20 16).toArray }, none, none⟩

/-- The slot next to it is empty, and taken for a best guess. -/
theorem unreadable_exact_empty :
    Unreadable (readId .local2 (describedBus [0xEF, 0x40, 0x17])).1 ∧
      (identify .local2 (describedBus [0xEF, 0x40, 0x17])).1.isBestGuess = true := by
  have h : Unreadable (readId .local2 (describedBus [0xEF, 0x40, 0x17])).1 :=
    .floating (show JedecId.unreadable.isUnreadable = true from rfl)
  refine ⟨h, (unreadable_exact h).2.2.2.1.mpr ⟨.badSignature, ?_⟩⟩
  rfl

/-- The second byte of the id fails on a bus that works from then on, and in the second case the chip
answers an id of zeros.  Neither chip is a best guess. -/
theorem described_though_unreadable :
    let failing : FlashBus :=
      { describedBus [0xEF, 0x40, 0x17] with okLeft := 1, failLeft := 1 }
    let silent := describedBus [0x00, 0x00, 0x00]
    let told (manufacturer deviceType : UInt8) : Response :=
      .listDevice ⟨0x800000, manufacturer, deviceType, .ofNat 256, .ofNat 4096,
        { fromSfdp := true }⟩
    (readId .local1 failing).1 = .error .spi ∧
      (identify .local1 failing).1.provenance = .sfdp ∧
      (listDevice 0 0 failing).1 = told 0xFF 0xFF ∧
    (readId .local1 silent).1 = .ok ⟨0x00, 0x00, 0x00⟩ ∧
      (identify .local1 silent).1.provenance = .sfdp ∧
      (listDevice 0 0 silent).1 = told 0x00 0x00 := by
  refine ⟨rfl, ?_, ?_, rfl, ?_, ?_⟩
  all_goals decide +kernel

end FlashProgrammer.Programmer

import FlashProgrammer.Programmer.Poll
import FlashProgrammer.Proofs.Flash.Identifying
import FlashProgrammer.Proofs.Usb.BulkMoves

/-!
# What the firmware does to its hardware

To serve a request the firmware gives instructions to chips, uses the controller and
drives the reset line, and nothing else.  `Does w w'` says that of two moments, and
`does_serve` says it of every request.

An instruction is one step here.  So what is preserved by whole instructions, and by
whatever is asked of the controller and the line, is preserved by every request.

Of what the device remembers a request changes the records of endpoints only, and
`Retains d d'` says that.
-/

namespace FlashProgrammer.Programmer

open Flash Protocol Usb

variable {ω : Type} [Spi.Bus ω] [ResetLine ω] [Controller ω]

/-- Between two moments the firmware was at work. -/
inductive Does (w : ω) : ω → Prop where
  | refl : Does w w
  /-- Something was asked of the controller. -/
  | use {w' : ω} (h : Does w w') (a : Usb.Action) : Does w (Controller.perform a w').2
  /-- The reset line was driven. -/
  | drive {w' : ω} (h : Does w w') (level : Level) : Does w (ResetLine.drive level w').2
  /-- An instruction was given to a chip. -/
  | execute {w' : ω} (h : Does w w') (slot : Slot) (i : Instruction) :
      Does w (execute slot i w').2

theorem Does.trans {u v w : ω} (huv : Does u v) (hvw : Does v w) : Does u w := by
  induction hvw with
  | refl => exact huv
  | use _ a ih => exact .use ih a
  | drive _ level ih => exact .drive ih level
  | execute _ slot i ih => exact .execute ih slot i

theorem does_execute (slot : Slot) (i : Instruction) (w : ω) : Does w (execute slot i w).2 :=
  .execute .refl slot i

theorem does_pulseReset (w : ω) : Does w (pulseReset w) :=
  .drive (.drive .refl .low) .high

theorem Does.of_used {w w' : ω} (h : Used w w') : Does w w' := by
  induction h with
  | refl => exact .refl
  | step _ a ih => exact .use ih a

/-- Between two moments instructions of a kind were given to chips, and nothing else was done. -/
inductive Gives {ω : Type} [Spi.Bus ω] (kind : Slot → Instruction → Prop) (w : ω) : ω → Prop where
  | refl : Gives kind w w
  | give {w' : ω} (h : Gives kind w w') {slot : Slot} {i : Instruction} (hkind : kind slot i) :
      Gives kind w (execute slot i w').2

theorem Does.of_gives {kind : Slot → Instruction → Prop} {w w' : ω} (h : Gives kind w w') :
    Does w w' := by
  induction h with
  | refl => exact .refl
  | @give _ _ slot i _ ih => exact .execute ih slot i

/-! ## Chips -/

theorem does_waitIdle (slot : Slot) (polls : Nat) (w : ω) : Does w (waitIdle slot polls w).2 := by
  induction polls generalizing w with
  | zero => exact .refl
  | succ polls ih =>
    have hpoll : Does w (isBusy slot w).2 := does_execute slot .readStatus w
    rw [waitIdle]
    generalize isBusy slot w = asked at hpoll ⊢
    obtain ⟨_ | _ | _, w'⟩ := asked
    · exact hpoll
    · exact hpoll
    · exact hpoll.trans (ih w')

theorem does_modify (slot : Slot) (i : Instruction) (w : ω) :
    Does w (Flash.modify slot i w).2 := by
  have henable : Does w (writeEnable slot w).2 := does_execute slot .writeEnable w
  rw [Flash.modify]
  generalize writeEnable slot w = enabled at henable ⊢
  obtain ⟨_ | _, w'⟩ := enabled
  · exact henable
  · exact henable.trans (does_execute slot i w')

theorem does_readIdle (slot : Slot) (polls address length : Nat) (w : ω) :
    Does w (readIdle slot polls address length w).2 := by
  have hwait := does_waitIdle slot polls w
  rw [readIdle]
  generalize waitIdle slot polls w = waited at hwait ⊢
  obtain ⟨_ | _, w'⟩ := waited
  · exact hwait
  · exact hwait.trans (does_execute slot (.readData address length) w')

section Identifying

omit [ResetLine ω] [Controller ω]

theorem Gives.trans {kind : Slot → Instruction → Prop} {u v w : ω} (huv : Gives kind u v)
    (hvw : Gives kind v w) : Gives kind u w := by
  induction hvw with
  | refl => exact huv
  | give _ hkind ih => exact .give ih hkind

/-- The instruction asks the chip of a slot what it is. -/
def AsksWhat (slot : Slot) (slot' : Slot) (i : Instruction) : Prop :=
  slot' = slot ∧ (i = .readId ∨ ∃ address length, i = .readSfdp address length)

theorem gives_of_reads {slot : Slot} {w w' : ω} (h : Sfdp.Reads (readSfdp slot) w w') :
    Gives (AsksWhat slot) w w' := by
  induction h with
  | refl => exact .refl
  | more _ address length ih => exact .give ih ⟨rfl, .inr ⟨address, length, rfl⟩⟩

/-- To identify a chip it is only asked what it is. -/
theorem gives_identify (slot : Slot) (w : ω) : Gives (AsksWhat slot) w (identify slot w).2 := by
  have hread : Gives (AsksWhat slot) w (readId slot w).2 := .give .refl ⟨rfl, .inl rfl⟩
  rw [identify_eq]
  exact hread.trans (gives_of_reads (reads_resolve _ _))

end Identifying

theorem does_identify (slot : Slot) (w : ω) : Does w (identify slot w).2 :=
  .of_gives (gives_identify slot w)

/-! ## Answers -/

theorem does_eraseStatus (slot : Slot) (g : Geometry) (s : Programmer) (w : ω) :
    Does w (s.eraseStatus slot g w).2.2 := by
  have hpoll : Does w (isBusy slot w).2 := does_execute slot .readStatus w
  rw [eraseStatus]
  generalize isBusy slot w = asked at hpoll ⊢
  obtain ⟨_ | _ | _, w'⟩ := asked
  · exact hpoll
  · cases s.job with
    | idle => exact hpoll
    | write page => exact hpoll
    | erase current next last =>
      simp only
      split
      · have hstart : Does w' (startBlock slot g next w').2 :=
          does_modify slot (.blockErase g.eraseOpcode (g.blockAddress next)) w'
        generalize startBlock slot g next w' = started at hstart ⊢
        obtain ⟨_ | _, w''⟩ := started <;> exact hpoll.trans hstart
      · exact hpoll
  · exact hpoll

theorem does_startErase (g : Geometry) (first last position : Nat) (slot : Slot)
    (i : Instruction) (s : Programmer) (w : ω) :
    Does w (s.startErase g first last position (Flash.modify slot i) w).2.2 := by
  rw [startErase]
  split
  · exact .refl
  · split
    · exact .refl
    · have hstart := does_modify slot i w
      generalize Flash.modify slot i w = started at hstart ⊢
      obtain ⟨_ | _, w'⟩ := started <;> exact hstart

theorem does_answer (r : Request) (s : Programmer) (w : ω) : Does w (s.answer r w).2.2 := by
  cases r with
  | listDevice number bus =>
    simp only [answer, listDevice]
    cases Slot.find? number bus with
    | none => exact .refl
    | some slot => exact does_identify slot w
  | targetDevice number bus =>
    simp only [answer, targetDevice]
    cases Slot.find? number bus with
    | none => exact .refl
    | some slot => exact does_identify slot w
  | erase operation first last =>
    simp only [answer, erase]
    rcases s.selected with _ | ⟨slot, g⟩
    · exact .refl
    · cases operation with
      | status => exact does_eraseStatus slot g s w
      | all => exact does_startErase g 0 0 first.val slot .chipErase s w
      | page => exact does_startErase g first.val first.val first.val slot _ s w
      | pageRange => exact does_startErase g first.val last.val first.val slot _ s w
  | verify =>
    simp only [answer, verify]
    split
    · next slot g written _ _ =>
      have hread := does_readIdle slot s.budget.flashPolls (g.pageAddress written.page)
        written.length w
      generalize readIdle slot _ _ _ w = read at hread ⊢
      obtain ⟨_ | _, w'⟩ := read <;> exact hread
    · exact .refl
  | resetTarget => exact does_pulseReset w
  | deviceCount | read | write => exact .refl

/-! ## Requests -/

theorem does_refuse (dir : Direction) (s : Station ω) : Does s.2.hw (refuse dir s).2.hw :=
  .of_used (used_stallEndpoint flashEndpoint dir s.2)

theorem does_servePage (page : Nat) (s : Station ω) : Does s.2.hw (servePage page s).2.hw := by
  rw [servePage]
  rcases s.1.selected with _ | ⟨slot, g⟩
  · exact does_refuse .toHost s
  · simp only
    split
    · have hread := does_readIdle slot s.1.budget.flashPolls (g.pageAddress page)
        g.pageLength s.2.hw
      generalize readIdle slot _ _ _ s.2.hw = read at hread ⊢
      obtain ⟨_ | bs, w⟩ := read
      · exact hread.trans (does_refuse .toHost (s.1, { s.2 with hw := w }))
      · exact hread.trans (.of_used (talks_write flashEndpoint bs { s.2 with hw := w }).used)
    · exact does_refuse .toHost s

theorem does_acceptPage (page count : Nat) (s : Station ω) :
    Does s.2.hw (acceptPage page count s).2.hw := by
  rw [acceptPage]
  split
  · next slot g _ _ =>
    split
    · exact does_refuse .toDevice s
    · have hfill : Does s.2.hw (s.2.fill flashEndpoint (s.1.page.take count)).2.2.hw :=
        .of_used (talks_fill flashEndpoint _ s.2).used
      generalize s.2.fill flashEndpoint (s.1.page.take count) = filled at hfill ⊢
      obtain ⟨outcome, bytes, p⟩ := filled
      simp only
      cases outcome with
      | error e =>
        exact hfill.trans
          (does_refuse .toDevice ({ s.1 with page := bytes ++ s.1.page.drop count }, p))
      | ok u =>
        have hstart := does_modify slot
          (.pageProgram (g.pageAddress page) ((bytes ++ s.1.page.drop count).take count)) p.hw
        simp only [program, startPageProgram]
        generalize Flash.modify slot _ p.hw = started at hstart ⊢
        obtain ⟨_ | _, w⟩ := started <;> exact hfill.trans hstart
  · exact does_refuse .toDevice s

theorem does_respond (r : Request) (s : Station ω) : Does s.2.hw (respond r s).2.hw := by
  have hanswer := does_answer r s.1 s.2.hw
  rw [respond]
  generalize s.1.answer r s.2.hw = answered at hanswer ⊢
  obtain ⟨_ | response, s', w⟩ := answered
  · exact hanswer
  · exact hanswer.trans
      (.of_used (talks_write flashEndpoint response.encode { s.2 with hw := w }).used)

theorem does_serve (r : Request) (s : Station ω) : Does s.2.hw (serve r s).2.hw := by
  cases r with
  | read page => exact does_servePage page.val s
  | write page count => exact does_acceptPage page.val count.val s
  | _ => exact does_respond _ s

/-! ## The device -/

/-- All that the device remembers is as before, but for the records of its endpoints. -/
def Retains (d d' : Device) : Prop := d' = { d with endpoints := d'.endpoints }

theorem Retains.of_eq {d d' : Device} (h : d' = d) : Retains d d' := by
  rw [h]
  rfl

theorem Retains.trans {d d' d'' : Device} (h : Retains d d') (h' : Retains d' d'') : Retains d d'' := by
  rw [Retains] at h h' ⊢
  rw [h', h]

theorem Retains.lifecycle_eq {d d' : Device} (h : Retains d d') : d'.lifecycle = d.lifecycle := by
  rw [Retains] at h
  rw [h]

theorem Retains.queue_eq {d d' : Device} (h : Retains d d') : d'.queue = d.queue := by
  rw [Retains] at h
  rw [h]

theorem Retains.budget_eq {d d' : Device} (h : Retains d d') : d'.budget = d.budget := by
  rw [Retains] at h
  rw [h]

omit [Spi.Bus ω] [ResetLine ω] in
theorem retains_refuse (dir : Direction) (s : Station ω) :
    Retains s.2.device (refuse dir s).2.device := by
  rw [refuse, Link.stallEndpoint]
  split <;> rfl

omit [ResetLine ω] in
theorem retains_servePage (page : Nat) (s : Station ω) :
    Retains s.2.device (servePage page s).2.device := by
  rw [servePage]
  rcases s.1.selected with _ | ⟨slot, g⟩
  · exact retains_refuse .toHost s
  · simp only
    split
    · rcases readIdle slot _ _ _ s.2.hw with ⟨_ | bs, w⟩
      · exact retains_refuse .toHost (s.1, { s.2 with hw := w })
      · exact .of_eq (talks_write flashEndpoint bs { s.2 with hw := w }).device_eq
    · exact retains_refuse .toHost s

omit [ResetLine ω] in
theorem retains_acceptPage (page count : Nat) (s : Station ω) :
    Retains s.2.device (acceptPage page count s).2.device := by
  rw [acceptPage]
  split
  · next slot g _ _ =>
    split
    · exact retains_refuse .toDevice s
    · have hfill := Retains.of_eq (talks_fill flashEndpoint (s.1.page.take count) s.2).device_eq
      generalize s.2.fill flashEndpoint (s.1.page.take count) = filled at hfill ⊢
      obtain ⟨outcome, bytes, p⟩ := filled
      simp only
      cases outcome with
      | error e =>
        exact hfill.trans
          (retains_refuse .toDevice ({ s.1 with page := bytes ++ s.1.page.drop count }, p))
      | ok u =>
        rw [program]
        rcases startPageProgram slot _ _ p.hw with ⟨_ | _, w⟩ <;> exact hfill
  · exact retains_refuse .toDevice s

theorem retains_respond (r : Request) (s : Station ω) :
    Retains s.2.device (respond r s).2.device := by
  rw [respond]
  rcases s.1.answer r s.2.hw with ⟨_ | response, s', w⟩
  · rfl
  · exact .of_eq (talks_write flashEndpoint response.encode { s.2 with hw := w }).device_eq

theorem retains_serve (r : Request) (s : Station ω) : Retains s.2.device (serve r s).2.device := by
  cases r with
  | read page => exact retains_servePage page.val s
  | write page count => exact retains_acceptPage page.val count.val s
  | _ => exact retains_respond _ s

/-- Serving the flash endpoint halts it at most. -/
theorem retains_service (s : Station ω) : Retains s.2.device (service s).2.device := by
  have hpending := (talks_rxPending flashEndpoint s.2).device_eq
  rw [service]
  generalize s.2.rxPending flashEndpoint = pending at hpending ⊢
  obtain ⟨_ | _, p⟩ := pending
  · exact .of_eq hpending
  · have hread := (talks_readPacket flashEndpoint maxPacket p).device_eq
    simp only
    generalize p.readPacket flashEndpoint maxPacket = read at hread ⊢
    have htaken := Retains.of_eq (hread.trans hpending)
    obtain ⟨_ | frame, q⟩ := read
    · exact htaken
    · simp only
      split
      · exact htaken.trans (retains_serve _ (s.1, q))
      · exact htaken.trans (retains_refuse .toHost (s.1, q))

end FlashProgrammer.Programmer

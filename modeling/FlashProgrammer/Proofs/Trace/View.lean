import FlashProgrammer.Hardware
import FlashProgrammer.Programmer.Answer

/-!
# Views of a bus

A piece of hardware may hold an SPI bus among other things, or remember what was
asked of it.  `IsView f` says that `f` finds the bus in it: an action does the same
to the whole as to the bus alone.  The firmware then does the same too, function by
function, and an answer that was found out on the bus holds on all such hardware.
-/

namespace FlashProgrammer.Flash

variable {ω ω' : Type} [Spi.Bus ω] [Spi.Bus ω']

/-- A function finds the bus in a larger piece of hardware. -/
def IsView (f : ω' → ω) : Prop :=
  ∀ (a : Spi.Action) (w : ω'),
    Spi.Bus.perform a (f w) = ((Spi.Bus.perform a w).1, f (Spi.Bus.perform a w).2)

/-! ## Instructions -/

section Instructions

variable {f : ω' → ω}

theorem select_view (hf : IsView f) (slot : Slot) (w : ω') :
    Spi.select slot (f w) = f (Spi.select slot w) :=
  congrArg Prod.snd (hf (.select slot) w)

theorem deselect_view (hf : IsView f) (w : ω') : Spi.deselect (f w) = f (Spi.deselect w) :=
  congrArg Prod.snd (hf .deselect w)

theorem exchange_view (hf : IsView f) (out : UInt8) (w : ω') :
    Spi.exchange out (f w) = ((Spi.exchange out w).1, f (Spi.exchange out w).2) :=
  hf (.exchange out) w

theorem send_view (hf : IsView f) (bs : List UInt8) (w : ω') :
    Spi.send bs (f w) = ((Spi.send bs w).1, f (Spi.send bs w).2) := by
  induction bs generalizing w with
  | nil => rfl
  | cons b bs ih =>
    simp only [Spi.send, exchange_view hf]
    rcases Spi.exchange b w with ⟨_ | _, w'⟩
    · rfl
    · exact ih w'

theorem receive_view (hf : IsView f) (n : Nat) (w : ω') :
    Spi.receive n (f w) = ((Spi.receive n w).1, f (Spi.receive n w).2) := by
  induction n generalizing w with
  | zero => rfl
  | succ n ih =>
    simp only [Spi.receive_succ, exchange_view hf]
    rcases Spi.exchange 0xFF w with ⟨_ | _, w'⟩
    · rfl
    · simp only [ih w']

theorem execute_view (hf : IsView f) (slot : Slot) (i : Instruction) (w : ω') :
    execute slot i (f w) = ((execute slot i w).1, f (execute slot i w).2) := by
  simp only [execute, clock, select_view hf, send_view hf]
  rcases Spi.send i.bytes (Spi.select slot w) with ⟨_ | _, w'⟩
  · simp only [deselect_view hf]
  · simp only [receive_view hf, deselect_view hf]

theorem command_view (hf : IsView f) (slot : Slot) (i : Instruction) (w : ω') :
    command slot i (f w) = ((command slot i w).1, f (command slot i w).2) := by
  simp only [command, execute_view hf]

theorem isBusy_view (hf : IsView f) (slot : Slot) (w : ω') :
    isBusy slot (f w) = ((isBusy slot w).1, f (isBusy slot w).2) := by
  simp only [isBusy, readStatus, execute_view hf]

theorem waitIdle_view (hf : IsView f) (slot : Slot) (polls : Nat) (w : ω') :
    waitIdle slot polls (f w) = ((waitIdle slot polls w).1, f (waitIdle slot polls w).2) := by
  induction polls generalizing w with
  | zero => rfl
  | succ polls ih =>
    simp only [waitIdle, isBusy_view hf]
    rcases isBusy slot w with ⟨_ | _ | _, w'⟩
    · rfl
    · rfl
    · exact ih w'

theorem modify_view (hf : IsView f) (slot : Slot) (i : Instruction) (w : ω') :
    Flash.modify slot i (f w) = ((Flash.modify slot i w).1, f (Flash.modify slot i w).2) := by
  simp only [Flash.modify, writeEnable, command_view hf]
  rcases command slot .writeEnable w with ⟨_ | _, w'⟩
  · rfl
  · simp only [command_view hf]

end Instructions

/-! ## Identification -/

section Identification

variable {f : ω' → ω}

/-- Two readers do the same, one of them on the larger hardware. -/
def ReadsAlike (f : ω' → ω) (read : Sfdp.Reader ω) (read' : Sfdp.Reader ω') : Prop :=
  ∀ address length w, read address length (f w) =
    ((read' address length w).1, f (read' address length w).2)

omit [Spi.Bus ω] [Spi.Bus ω'] in
theorem findBasic_view {read : Sfdp.Reader ω} {read' : Sfdp.Reader ω'}
    (h : ReadsAlike f read read') (n address : Nat) (w : ω') :
    Sfdp.findBasic read n address (f w) =
      ((Sfdp.findBasic read' n address w).1, f (Sfdp.findBasic read' n address w).2) := by
  induction n generalizing address w with
  | zero => rfl
  | succ n ih =>
    simp only [Sfdp.findBasic, h address Sfdp.headerLength w]
    rcases read' address Sfdp.headerLength w with ⟨_ | bs, w'⟩
    · rfl
    · simp only
      split
      · rfl
      · exact ih _ w'

omit [Spi.Bus ω] [Spi.Bus ω'] in
theorem discover_view {read : Sfdp.Reader ω} {read' : Sfdp.Reader ω'}
    (h : ReadsAlike f read read') (w : ω') :
    Sfdp.discover read (f w) = ((Sfdp.discover read' w).1, f (Sfdp.discover read' w).2) := by
  simp only [Sfdp.discover, h 0 Sfdp.headerLength w]
  rcases read' 0 Sfdp.headerLength w with ⟨_ | bs, w'⟩
  · rfl
  · simp only
    rcases Sfdp.Header.parse bs with _ | header
    · rfl
    · simp only
      split
      · simp only [findBasic_view h]
        rcases Sfdp.findBasic read' header.parameterHeaders Sfdp.headerLength w' with
          ⟨_ | basic, w''⟩
        · rfl
        · simp only [Sfdp.readTable, h basic.pointer]
          rcases read' basic.pointer _ w'' with ⟨_ | _, _⟩ <;> rfl
      · rfl

omit [Spi.Bus ω] [Spi.Bus ω'] in
theorem resolve_view {read : Sfdp.Reader ω} {read' : Sfdp.Reader ω'}
    (h : ReadsAlike f read read') (id : JedecId) (w : ω') :
    resolve read id (f w) = ((resolve read' id w).1, f (resolve read' id w).2) := by
  simp only [resolve, discover_view h]
  rcases catalogued? id with _ | g
  · rcases Sfdp.discover read' w with ⟨_ | _, _⟩ <;> rfl
  · rfl

theorem readSfdp_view (hf : IsView f) (slot : Slot) :
    ReadsAlike f (readSfdp slot) (readSfdp slot) :=
  fun address length w => execute_view hf slot (.readSfdp address length) w

theorem identify_view (hf : IsView f) (slot : Slot) (w : ω') :
    identify slot (f w) = ((identify slot w).1, f (identify slot w).2) := by
  simp only [identify, readId, execute_view hf]
  rcases execute slot .readId w with ⟨_ | _, _⟩ <;>
    exact resolve_view (readSfdp_view hf slot) _ _

end Identification

end FlashProgrammer.Flash

namespace FlashProgrammer.Programmer

open Flash

variable {ω ω' : Type} [Spi.Bus ω] [Spi.Bus ω'] {f : ω' → ω}

/-! ## Answers -/

theorem readIdle_view (hf : IsView f) (slot : Slot) (polls address length : Nat) (w : ω') :
    readIdle slot polls address length (f w) =
      ((readIdle slot polls address length w).1, f (readIdle slot polls address length w).2) := by
  simp only [readIdle, waitIdle_view hf]
  rcases waitIdle slot polls w with ⟨_ | _, w'⟩
  · rfl
  · exact execute_view hf slot (.readData address length) w'

theorem listDevice_view (hf : IsView f) (number bus : UInt8) (w : ω') :
    listDevice number bus (f w) =
      ((listDevice number bus w).1, f (listDevice number bus w).2) := by
  simp only [listDevice]
  cases Slot.find? number bus with
  | none => rfl
  | some slot => simp only [identify_view hf]

theorem targetDevice_view (hf : IsView f) (number bus : UInt8) (s : Programmer) (w : ω') :
    s.targetDevice number bus (f w) =
      ((s.targetDevice number bus w).1, f (s.targetDevice number bus w).2) := by
  simp only [targetDevice]
  cases Slot.find? number bus with
  | none => rfl
  | some slot => simp only [identify_view hf]

theorem eraseStatus_view (hf : IsView f) (slot : Slot) (g : Geometry) (s : Programmer) (w : ω') :
    s.eraseStatus slot g (f w) =
      ((s.eraseStatus slot g w).1, (s.eraseStatus slot g w).2.1,
        f (s.eraseStatus slot g w).2.2) := by
  simp only [eraseStatus, isBusy_view hf]
  rcases isBusy slot w with ⟨_ | _ | _, w'⟩
  · rfl
  · cases s.job with
    | idle => rfl
    | write page => rfl
    | erase current next last =>
      simp only
      split
      · simp only [startBlock, startBlockErase, modify_view hf]
        rcases Flash.modify slot _ w' with ⟨_ | _, _⟩ <;> rfl
      · rfl
  · rfl

omit [Spi.Bus ω] [Spi.Bus ω'] in
theorem startErase_view (g : Geometry) (first last position : Nat)
    {start : ω → Except Fault Unit × ω} {start' : ω' → Except Fault Unit × ω'}
    (h : ∀ w, start (f w) = ((start' w).1, f (start' w).2)) (s : Programmer) (w : ω') :
    s.startErase g first last position start (f w) =
      ((s.startErase g first last position start' w).1,
        (s.startErase g first last position start' w).2.1,
        f (s.startErase g first last position start' w).2.2) := by
  simp only [startErase, h]
  cases s.job.at? with
  | some active => rfl
  | none =>
    simp only
    split
    · rfl
    · rcases start' w with ⟨_ | _, _⟩ <;> rfl

theorem erase_view (hf : IsView f) (operation : Protocol.EraseOperation) (first last : Nat)
    (s : Programmer) (w : ω') :
    s.erase operation first last (f w) =
      ((s.erase operation first last w).1, (s.erase operation first last w).2.1,
        f (s.erase operation first last w).2.2) := by
  simp only [erase]
  rcases s.selected with _ | ⟨slot, g⟩
  · rfl
  · cases operation with
    | status => exact eraseStatus_view hf slot g s w
    | all => exact startErase_view g 0 0 first (modify_view hf slot .chipErase) s w
    | page => exact startErase_view g first first first (modify_view hf slot _) s w
    | pageRange => exact startErase_view g first last first (modify_view hf slot _) s w

theorem verify_view (hf : IsView f) (s : Programmer) (w : ω') :
    s.verify (f w) = ((s.verify w).1, f (s.verify w).2) := by
  simp only [verify]
  rcases s.selected with _ | ⟨slot, g⟩
  · rfl
  · rcases s.written with _ | written
    · rfl
    · simp only [readIdle_view hf]
      rcases readIdle slot _ _ _ w with ⟨_ | _, _⟩ <;> rfl

/-! ## Hardware made of parts -/

section Parts

variable {κ β ρ : Type} [Spi.Bus β]

/-- The bus finds itself in the hardware around it. -/
theorem isView_around (w : Hardware κ β ρ) : IsView fun b : β => { w with spi := b } :=
  fun _ _ => rfl

theorem usb_readIdle (slot : Slot) (polls address length : Nat) (w : Hardware κ β ρ) :
    (readIdle slot polls address length w).2.usb = w.usb :=
  congrArg (fun read => read.2.usb)
    (readIdle_view (isView_around w) slot polls address length w.spi)

theorem usb_modify (slot : Slot) (i : Instruction) (w : Hardware κ β ρ) :
    (Flash.modify slot i w).2.usb = w.usb :=
  congrArg (fun modified => modified.2.usb) (modify_view (isView_around w) slot i w.spi)

/-- What a request asks of the chips and the reset line is no business of the controller. -/
theorem usb_answer [ResetLine ρ] (r : Protocol.Request) (s : Programmer) (w : Hardware κ β ρ) :
    (s.answer r w).2.2.usb = w.usb := by
  have hview := isView_around w
  cases r with
  | listDevice number bus =>
    exact congrArg (fun listed => listed.2.usb) (listDevice_view hview number bus w.spi)
  | targetDevice number bus =>
    exact congrArg (fun targeted => targeted.2.usb) (targetDevice_view hview number bus s w.spi)
  | erase operation first last =>
    exact congrArg (fun erased => erased.2.2.usb)
      (erase_view hview operation first.val last.val s w.spi)
  | verify => exact congrArg (fun verified => verified.2.usb) (verify_view hview s w.spi)
  | deviceCount | resetTarget | read | write => rfl

end Parts

end FlashProgrammer.Programmer

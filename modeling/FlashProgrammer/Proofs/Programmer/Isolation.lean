import FlashProgrammer.Proofs.Bench.Hearing
import FlashProgrammer.Proofs.Flash.Reading
import FlashProgrammer.Proofs.Programmer.Addressing
import FlashProgrammer.Proofs.Programmer.Reachable
import FlashProgrammer.Proofs.Trace.ControllerActions

/-!
# Isolation of the chips

A request must not touch a chip that it is not about.  The requests that read, write,
verify and erase are about the target, and without one they are refused before
anything is said on the SPI bus.  Listing and targeting are about the slot they name.

`Serves` has the transactions of every way through the firmware, and the slots that
were selected are the slots of the transactions.  What a chip hears decides what
becomes of its memory: a chip that hears nothing keeps it, and so does one that hears
only instructions that read.
-/

namespace FlashProgrammer.Trace

/-! ## What a trace asks of the SPI bus -/

/-- The event was on the SPI bus. -/
def Event.isSpi : Event → Bool
  | .spi .. => true
  | _ => false

/-- The slots that were selected, in order. -/
def selections : List Event → List Slot
  | [] => []
  | .spi (.select slot) _ :: es => slot :: selections es
  | _ :: es => selections es

/-- Each selection begins a transaction, and nothing else does. -/
theorem selections_eq (es : List Event) :
    selections es = (transactions es).map Transaction.slot := by
  have key : ∀ (es : List Event) (current : Option Transaction),
      (transactionsAfter current es).map Transaction.slot =
        current.toList.map Transaction.slot ++ selections es := by
    intro es
    induction es with
    | nil =>
      intro current
      cases current <;> rfl
    | cons e es ih =>
      intro current
      cases e with
      | spi a reply =>
        cases a with
        | select slot =>
          rw [transactionsAfter, List.map_append, ih]
          rfl
        | deselect =>
          rw [transactionsAfter, List.map_append, ih]
          rfl
        | exchange out =>
          cases reply <;>
            · rw [transactionsAfter, ih]
              cases current <;> rfl
      | usb a reply => exact ih current
      | line level driven => exact ih current
  exact (key es none).symm

/-- Between two moments nothing was asked of the SPI bus. -/
def Silent {ω : Type} (w w' : Traced ω) : Prop :=
  ∃ es, w'.events = w.events ++ es ∧ ∀ e ∈ es, e.isSpi = false

section Silence

variable {ω : Type}

theorem silent_refl (w : Traced ω) : Silent w w := ⟨[], by simp, by simp⟩

theorem Silent.trans {u v w : Traced ω} (huv : Silent u v) (hvw : Silent v w) : Silent u w := by
  obtain ⟨es, hes, hquiet⟩ := huv
  obtain ⟨fs, hfs, hquiet'⟩ := hvw
  refine ⟨es ++ fs, by rw [hfs, hes, List.append_assoc], ?_⟩
  intro e he
  rcases List.mem_append.mp he with he | he
  · exact hquiet e he
  · exact hquiet' e he

theorem silent_of_used [Usb.Controller ω] {w w' : Traced ω} (h : Usb.Used w w') :
    Silent w w' := by
  induction h with
  | refl => exact silent_refl w
  | step _ a ih => exact ih.trans ⟨[.usb a _], rfl, by simp [Event.isSpi]⟩

end Silence

end FlashProgrammer.Trace

namespace FlashProgrammer.Bench

open Flash

/-! ## Memory -/

/-- The memory of the chip in a slot, if there is one. -/
def memoryOf (chips : Chips) (slot : Slot) : Option (Nat × (Nat → UInt8)) :=
  (chips.get slot).map fun c => (c.size, c.cells)

/-- The end of a transaction that only read changes nothing. -/
theorem NorFlash.finish_of_reads (c : NorFlash) {sent : List UInt8}
    (h : ∀ opcode, sent.head? = some opcode → opcode ∈ Trace.Transaction.readOpcodes) :
    c.finish sent = c := by
  cases sent with
  | nil => rfl
  | cons opcode rest => exact finish_read c rest (h opcode rfl)

/-- A transaction that only reads leaves the memory of its chip alone. -/
theorem NorFlash.told_cells (c : NorFlash) {sent : List UInt8}
    (h : ∀ opcode, sent.head? = some opcode → opcode ∈ Trace.Transaction.readOpcodes) :
    ((c.told sent).size, (c.told sent).cells) = (c.size, c.cells) := by
  rw [told_eq, finish_of_reads c h]
  split
  · split <;> rfl
  · rfl

theorem memoryOf_hear {chips : Chips} {t : Trace.Transaction} {slot : Slot}
    (h : t.slot = slot →
      ∀ opcode, t.sent.head? = some opcode → opcode ∈ Trace.Transaction.readOpcodes) :
    memoryOf (hear chips t).2 slot = memoryOf chips slot := by
  rw [memoryOf, memoryOf, get_hear, Option.map_map]
  refine Option.map_congr fun c _ => ?_
  show ((if slot = t.slot then c.told t.sent else c).size, _) = _
  split
  · next hslot => exact c.told_cells (h hslot.symm)
  · rfl

/-- A chip that hears nothing but reads keeps its memory. -/
theorem Plays.memoryOf_eq {chips chips' : Chips} {ts : List Trace.Transaction} {slot : Slot}
    (h : Plays chips ts chips')
    (hreads : ∀ t ∈ ts, t.slot = slot →
      ∀ opcode, t.sent.head? = some opcode → opcode ∈ Trace.Transaction.readOpcodes) :
    memoryOf chips' slot = memoryOf chips slot := by
  induction h with
  | stop chips => rfl
  | hear _ _ ih =>
    rw [ih fun t ht => hreads t (List.mem_cons_of_mem _ ht)]
    exact memoryOf_hear (hreads _ List.mem_cons_self)

end FlashProgrammer.Bench

namespace FlashProgrammer.Programmer

open Flash Protocol Usb Trace
open Bench (Listening Shows memoryOf shows_listening NorFlash Rig)

/-! ## Targets -/

/-- There is a target exactly if its geometry is known. -/
def Aligned (s : Programmer) : Prop := s.target = none ↔ s.geometry = none

theorem Serves.aligned {s s' : Programmer} {r : Request} {data : List UInt8}
    {ts : List Transaction} {reply : Option Response} (h : Serves s r data ts reply s')
    (hs : s.Aligned) : s'.Aligned := by
  cases h with
  | targetedNone _ => exact ⟨fun _ => rfl, fun _ => rfl⟩
  | targeted _ _ _ => exact ⟨nofun, nofun⟩
  | _ => exact hs

theorem Reachable.aligned {s : Programmer} (h : Reachable s) : s.Aligned := by
  induction h with
  | start budget => exact ⟨fun _ => rfl, fun _ => rfl⟩
  | served r s hs ih => exact (hs.serves r).aligned ih

theorem target_of_selected {s : Programmer} {slot : Slot} {g : Geometry}
    (h : s.selected = some (slot, g)) : s.target = some slot := by
  rw [selected] at h
  cases htarget : s.target with
  | none =>
    rw [htarget] at h
    cases h
  | some slot' =>
    cases hgeometry : s.geometry with
    | none =>
      rw [htarget, hgeometry] at h
      cases h
    | some g' =>
      rw [htarget, hgeometry] at h
      cases h
      rfl

theorem selected_eq_none {s : Programmer} (h : s.target = none) : s.selected = none := by
  rw [selected, h]
  rfl

/-- What is outstanding and what was written last belong to a target. -/
theorem WellFormed.target_of_work {s : Programmer} (h : s.WellFormed)
    (hwork : s.job ≠ .idle ∨ s.written ≠ none) : s.target ≠ none := by
  have hselected : ∃ slot g, s.selected = some (slot, g) := by
    rcases hwork with hjob | hwritten
    · cases hcase : s.job with
      | idle => exact absurd hcase hjob
      | erase current next last =>
        obtain ⟨slot, g, hsel, _⟩ := h.erasing _ _ _ hcase
        exact ⟨slot, g, hsel⟩
      | write page =>
        obtain ⟨slot, g, hsel, _⟩ := h.writing _ hcase
        exact ⟨slot, g, hsel⟩
    · obtain ⟨w, hw⟩ := Option.ne_none_iff_exists'.mp hwritten
      obtain ⟨slot, g, hsel, _⟩ := h.written w hw
      exact ⟨slot, g, hsel⟩
  obtain ⟨slot, g, hsel⟩ := hselected
  rw [target_of_selected hsel]
  exact nofun

/-! ## The chips of a request -/

section Transactions

variable {s s' : Programmer} {r : Request} {data : List UInt8} {ts : List Transaction}
  {reply : Option Response}

/-- A request that aims at the target goes to no other chip. -/
theorem Serves.selects_target (h : Serves s r data ts reply s') (haims : Aims r) :
    ∀ t ∈ ts, s.target = some t.slot := by
  have hto : ∀ {slot g} {ts : List Transaction}, s.selected = some (slot, g) →
      (∀ t ∈ ts, t.slot = slot) → ∀ t ∈ ts, s.target = some t.slot := by
    intro slot g ts hsel hslot t ht
    rw [target_of_selected hsel, hslot t ht]
  cases h with
  | deviceCount | listedNone _ | listed _ _ _ | targetedNone _ | targeted _ _ _ | resetTarget =>
    exact haims.elim
  | statusUnread hsel hpolls | statusBusy hsel hpolls | statusDone hsel hpolls _ =>
    exact hto hsel (by simpa using hpolls.slot_eq)
  | statusNext hsel hpolls _ _ hmodifies | statusNextFailed hsel hpolls _ _ hmodifies =>
    exact hto hsel (by simpa using ⟨hpolls.slot_eq, hmodifies.slot_eq⟩)
  | eraseStarted hsel _ _ _ _ hmodifies | eraseFailed hsel _ _ _ _ hmodifies =>
    exact hto hsel hmodifies.slot_eq
  | readTried hsel _ hreads => exact hto hsel hreads.slot_eq
  | writeProgrammed hsel _ _ _ _ _ hmodifies | writeFailed hsel _ _ _ _ _ hmodifies =>
    exact hto hsel hmodifies.slot_eq
  | verifyRead hsel _ hreads | verifyUnread hsel _ hreads => exact hto hsel hreads.slot_eq
  | eraseUntargeted _ | eraseOutstanding _ _ _ | eraseOutOfRange _ _ _ _ | readRefused _
  | writeRefused _ | writeIncomplete _ _ _ _ _ _ | verifyNothing _ =>
    simp

/-- Listing and targeting go to the slot they name. -/
theorem Serves.selects_named (h : Serves s r data ts reply s') {number bus : UInt8}
    (hr : r = .listDevice number bus ∨ r = .targetDevice number bus) :
    ∀ t ∈ ts, Slot.find? number bus = some t.slot := by
  rcases hr with rfl | rfl
  · cases h with
    | listedNone _ => simp
    | listed hslot _ hasks =>
      intro t ht
      rw [hslot, (hasks t ht).slot_eq]
  · cases h with
    | targetedNone _ => simp
    | targeted hslot _ hasks =>
      intro t ht
      rw [hslot, (hasks t ht).slot_eq]

/-- The request may modify a chip. -/
def MayModify : Request → Prop
  | .erase _ _ _ | .write _ _ => True
  | _ => False

/-- A request that may not modify a chip only reads. -/
theorem Serves.only_reads (h : Serves s r data ts reply s') (hr : ¬MayModify r) :
    ∀ t ∈ ts, t.modifies = false := by
  cases h with
  | listed _ _ hasks | targeted _ _ hasks => exact fun t ht => (hasks t ht).reads
  | readTried _ _ hreads => exact hreads.reads
  | verifyRead _ _ hreads | verifyUnread _ _ hreads => exact hreads.reads
  | deviceCount | listedNone _ | targetedNone _ | readRefused _ | verifyNothing _
  | resetTarget => simp
  | _ => exact absurd trivial hr

end Transactions

/-! ## Refusals -/

section Requests

variable {ω : Type} [Spi.Bus ω] [ResetLine ω] [Controller ω]

/-- What is asked of the hardware to serve a request. -/
def eventsOf (r : Request) (s : Station ω) : List Event :=
  (serve r (s.1, traced s.2)).2.hw.events

/-- The answer to a request that needs a target when there is none.  Erasing and verifying are
answered, reading halts the endpoint towards the host, and writing halts it towards the device. -/
def refused (r : Request) (s : Station ω) : Station ω :=
  match r with
  | .erase _ first _ =>
    (s.1, (s.2.write flashEndpoint (eraseResponse .invalid first.val).encode).2)
  | .verify => (s.1, (s.2.write flashEndpoint (Response.verify .invalid).encode).2)
  | .read _ => refuse .toHost s
  | .write _ _ => refuse .toDevice s
  | _ => s

theorem serve_untargeted {r : Request} {s : Station ω} (haims : Aims r)
    (h : s.1.target = none) : serve r s = refused r s := by
  have hsel := selected_eq_none h
  cases r with
  | deviceCount | listDevice | targetDevice | resetTarget => exact haims.elim
  | erase operation first last =>
    show respond (.erase operation first last) s = _
    rw [respond, answer, erase, hsel]
    rfl
  | verify =>
    show respond .verify s = _
    rw [respond, answer, verify, hsel]
    rfl
  | read page =>
    show servePage page.val s = _
    rw [servePage, hsel]
    rfl
  | write page count =>
    show acceptPage page.val count.val s = _
    rw [acceptPage, hsel]
    rfl

omit [Spi.Bus ω] [ResetLine ω] in
/-- A refusal says nothing on the SPI bus. -/
theorem used_refused (r : Request) (s : Station ω) : Used s.2.hw (refused r s).2.hw := by
  cases r with
  | erase operation first last => exact (talks_write flashEndpoint _ s.2).used
  | verify => exact (talks_write flashEndpoint _ s.2).used
  | read page => exact used_stallEndpoint flashEndpoint .toHost s.2
  | write page count => exact used_stallEndpoint flashEndpoint .toDevice s.2
  | deviceCount | listDevice | targetDevice | resetTarget => exact .refl

/-- A request that is refused by halting the endpoint asks nothing else of the USB controller. -/
theorem controllerActions_untargeted {r : Request} {s : Station ω} {dir : Direction}
    (haims : Aims r) (h : s.1.target = none)
    (hr : refused r (s.1, traced s.2) = refuse dir (s.1, traced s.2)) :
    controllerActions (eventsOf r s) = [.stall .flash dir] := by
  rw [eventsOf, serve_untargeted (s := (s.1, traced s.2)) haims h, hr]
  exact (drives_refuse dir (s.1, traced s.2)).controllerActions_eq

/-- Listing and targeting a slot that does not exist says nothing on the SPI bus. -/
theorem used_of_unknown {number bus : UInt8} {r : Request} (s : Station ω)
    (hr : r = .listDevice number bus ∨ r = .targetDevice number bus)
    (hslot : Slot.find? number bus = none) : Used s.2.hw (serve r s).2.hw := by
  rcases hr with rfl | rfl
  · show Used s.2.hw (respond (.listDevice number bus) s).2.hw
    rw [respond, answer, listDevice, hslot]
    exact (talks_write flashEndpoint _ s.2).used
  · show Used s.2.hw (respond (.targetDevice number bus) s).2.hw
    rw [respond, answer, targetDevice, hslot]
    exact (talks_write flashEndpoint _ s.2).used

theorem not_isSpi_of_used {r : Request} {s : Station ω}
    (h : Used (traced s.2).hw (serve r (s.1, traced s.2)).2.hw) :
    ∀ e ∈ eventsOf r s, e.isSpi = false := by
  obtain ⟨es, hes, hsilent⟩ := silent_of_used h
  intro e he
  rw [eventsOf, hes] at he
  exact hsilent e (by simpa [traced, Traced.fresh] using he)

/-! ## All together -/

/-- Whatever a request does and however the SPI bus fails, it keeps to the chip it is about.

In every reachable state there is a target exactly if its geometry is known, and whatever is
outstanding or was written last belongs to it.  The requests that erase, read, write and verify
select no other chip than the target.  Without one they ask nothing of the SPI bus and are refused:
erasing and verifying are answered, and a read or a write only asks the controller to halt the flash
endpoint, towards the host or towards the device.  Listing and targeting select no other slot than
the one they name, and ask nothing if there is no such slot.  All requests but those that erase and
write only send instructions that read.

So on hardware that shows its chips, a request changes the memory of no chip but the target's, and
only one that erases or writes changes that. -/
theorem isolation {s : Station ω} (hs : Reachable s.1) (r : Request) :
    ((s.1.target = none ↔ s.1.geometry = none) ∧
      (s.1.job ≠ .idle ∨ s.1.written ≠ none → s.1.target ≠ none)) ∧
    (Aims r →
      (∀ slot ∈ selections (eventsOf r s), s.1.target = some slot) ∧
      (s.1.target = none → serve r s = refused r s ∧ (∀ e ∈ eventsOf r s, e.isSpi = false) ∧
        (∀ page, r = .read page → controllerActions (eventsOf r s) = [.stall .flash .toHost]) ∧
        ∀ page count, r = .write page count →
          controllerActions (eventsOf r s) = [.stall .flash .toDevice])) ∧
    (∀ number bus, r = .listDevice number bus ∨ r = .targetDevice number bus →
      (∀ slot ∈ selections (eventsOf r s), Slot.find? number bus = some slot) ∧
      (Slot.find? number bus = none → ∀ e ∈ eventsOf r s, e.isSpi = false)) ∧
    (¬MayModify r → ∀ t ∈ transactions (eventsOf r s), ∀ opcode,
      t.sent.head? = some opcode → opcode ∈ Transaction.readOpcodes) ∧
    ∀ f : ω → Listening, Shows f → ∀ slot, ¬(MayModify r ∧ s.1.target = some slot) →
      memoryOf (f (serve r s).2.hw).chips slot = memoryOf (f s.2.hw).chips slot := by
  have hserves := hs.serves r
  have hslots : ∀ slot ∈ selections (eventsOf r s), ∃ t ∈ transactionsOf r s, t.slot = slot := by
    intro slot hslot
    rw [selections_eq] at hslot
    exact List.mem_map.mp hslot
  refine ⟨⟨hs.aligned, hs.wellFormed.target_of_work⟩,
    fun haims => ⟨?_, fun hnone => ⟨?_, ?_, fun page hr => ?_, fun page count hr => ?_⟩⟩,
    fun number bus hr => ⟨?_, fun hunknown => ?_⟩, fun hr => ?_, fun f hf slot hno => ?_⟩
  · intro slot hslot
    obtain ⟨t, ht, rfl⟩ := hslots slot hslot
    exact hserves.selects_target haims t ht
  · exact serve_untargeted haims hnone
  · refine not_isSpi_of_used ?_
    rw [serve_untargeted (s := (s.1, traced s.2)) haims hnone]
    exact used_refused r (s.1, traced s.2)
  · subst hr
    exact controllerActions_untargeted haims hnone rfl
  · subst hr
    exact controllerActions_untargeted haims hnone rfl
  · intro slot hslot
    obtain ⟨t, ht, rfl⟩ := hslots slot hslot
    exact hserves.selects_named hr t ht
  · exact not_isSpi_of_used (used_of_unknown (s.1, traced s.2) hr hunknown)
  · intro t ht opcode hhead
    exact Transaction.head_mem_of_reads (hserves.only_reads hr t ht) hhead
  · refine (hf.serve r s).memoryOf_eq fun t ht hslot opcode hhead => ?_
    -- A request that may modify a chip is about the target, and this chip is another one.
    by_cases hmodify : MayModify r
    · have haims : Aims r := by
        cases r <;> trivial
      have htarget := hserves.selects_target haims t ht
      rw [hslot] at htarget
      exact absurd ⟨hmodify, htarget⟩ hno
    · exact Transaction.head_mem_of_reads (hserves.only_reads hmodify t ht) hhead

end Requests

/-! ## On the bench -/

/-- Two parts of 1 MiB full of zeros, the first of which is targeted. -/
def firstOfTwo : Station Rig :=
  let chip : NorFlash := { id := [0xEF, 0x40, 0x14], size := 0x100000, cells := fun _ => 0 }
  serve (.targetDevice 0 0) (Rig.station ⟨some chip, some chip, none⟩)

/-- Erasing the first chip leaves the second one alone. -/
theorem isolation_first_of_two :
    let after := serve (.erase .all (.ofNat 0) (.ofNat 0)) firstOfTwo
    memoryOf after.2.hw.spi.chips .local2 = memoryOf firstOfTwo.2.hw.spi.chips .local2 ∧
    (after.2.hw.spi.chip? .local1).map (fun c => c.read 0) = some 0xFF := by
  intro after
  have hreachable : Reachable firstOfTwo.1 := .served _ _ (.start {})
  have hother : ¬(MayModify (.erase .all (.ofNat 0) (.ofNat 0)) ∧
      firstOfTwo.1.target = some .local2) := by
    rintro ⟨_, htarget⟩
    have hfirst : firstOfTwo.1.target = some .local1 := by
      decide +kernel
    rw [hfirst] at htarget
    cases htarget
  obtain ⟨_, _, _, _, hmemory⟩ := isolation hreachable (.erase .all (.ofNat 0) (.ofNat 0))
  exact ⟨hmemory _ shows_listening .local2 hother, by decide +kernel⟩

end FlashProgrammer.Programmer

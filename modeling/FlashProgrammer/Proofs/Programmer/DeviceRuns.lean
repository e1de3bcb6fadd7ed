import FlashProgrammer.Proofs.Programmer.Turns
import FlashProgrammer.Proofs.Trace.View
import FlashProgrammer.Proofs.Usb.FifoDiscipline

/-!
# Runs of the device

A device is used for its interrupts and its bulk transfers, by the main loop and by whoever attaches
it.  `Operates k events s` says that such a run began on the controller `k` and came to the station
`s`, and lists what its interrupts did to the control transfers.  What is beside the controller, the
chips and the programmer, is not restricted.

The main loop uses the device by operations and otherwise works on the chips.  `Drives` is a run
that is made of operations only, and `Operates.drives` takes the turns of the main loop apart.  So
every run keeps the discipline of the FIFOs (`Operates.keeps`).
-/

namespace FlashProgrammer.Programmer

open Flash Protocol Usb

variable {κ β ρ : Type} [Controller κ] {k : κ} {events : List TransferEvent}

/-- What is asked of hardware made of parts is asked of its controller. -/
theorem follows_usb {m m' : Mode} {w w' : Hardware κ β ρ} (h : Follows m w m' w') :
    Follows m w.usb m' w'.usb := by
  induction h with
  | refl => exact .refl
  | step _ a ha ih => exact .step ih a ha

theorem keeps_usb {w w' : Hardware κ β ρ} (h : Keeps w w') : Keeps w.usb w'.usb := by
  intro m hm
  obtain ⟨m', hm', hfollows⟩ := h m hm
  exact ⟨m', hm', follows_usb hfollows⟩

/-- The device was driven by operations, from a controller on.  Beside the controller anything may
happen. -/
inductive Drives (k : κ) : List TransferEvent → Link (Hardware κ β ρ) → Prop where
  | start (d : Device) (spi : β) (reset : ρ) : Drives k [] ⟨d, ⟨k, spi, reset⟩⟩
  | usb {events : List TransferEvent} {p : Link (Hardware κ β ρ)} (h : Drives k events p)
      (op : Operation (Hardware κ β ρ)) (hop : ∀ f, op ≠ .outside f) :
      Drives k (events ++ op.events p) (op.run p)
  | aside {events : List TransferEvent} {p : Link (Hardware κ β ρ)} (h : Drives k events p)
      (spi : β) (reset : ρ) : Drives k events ⟨p.device, ⟨p.hw.usb, spi, reset⟩⟩

namespace Drives

variable {p : Link (Hardware κ β ρ)}

/-- An operation that is no business of the control transfers. -/
theorem quiet (h : Drives k events p) (op : Operation (Hardware κ β ρ))
    (hop : ∀ f, op ≠ .outside f) (hevents : op.events p = []) : Drives k events (op.run p) := by
  have hused := h.usb op hop
  rwa [hevents, List.append_nil] at hused

/-- Chips were worked on. -/
theorem of_usb (h : Drives k events p) {w : Hardware κ β ρ} (hw : w.usb = p.hw.usb) :
    Drives k events { p with hw := w } := by
  have haside := h.aside w.spi w.reset
  rwa [← hw] at haside

theorem stallEndpoint (h : Drives k events p) (ep : UInt8) (dir : Direction) :
    Drives k events (p.stallEndpoint ep dir) := h.quiet (.stallEndpoint ep dir) (fun _ h => by cases h) rfl

theorem write (h : Drives k events p) (ep : UInt8) (data : List UInt8) :
    Drives k events (p.write ep data).2 := h.quiet (.write ep data) (fun _ h => by cases h) rfl

/-! ## The main loop -/

variable [Spi.Bus β] {s : Station (Hardware κ β ρ)}

omit [Spi.Bus β] in
theorem refuse (h : Drives k events s.2) (dir : Direction) :
    Drives k events (Programmer.refuse dir s).2 := h.stallEndpoint flashEndpoint dir

theorem servePage (h : Drives k events s.2) (page : Nat) :
    Drives k events (Programmer.servePage page s).2 := by
  rw [Programmer.servePage]
  rcases s.1.selected with _ | ⟨slot, g⟩
  · exact h.refuse .toHost
  · simp only
    split
    · have hread := usb_readIdle slot s.1.budget.flashPolls (g.pageAddress page) g.pageLength
        s.2.hw
      generalize readIdle slot _ _ _ s.2.hw = read at hread ⊢
      obtain ⟨_ | bs, w⟩ := read
      · exact (h.of_usb hread).refuse (s := (s.1, { s.2 with hw := w })) .toHost
      · exact (h.of_usb hread).write flashEndpoint bs
    · exact h.refuse .toHost

theorem program (h : Drives k events s.2) (slot : Slot) (g : Geometry) (page count : Nat) :
    Drives k events (Programmer.program slot g page count s).2 := by
  have hstart := usb_modify slot
    (.pageProgram (g.pageAddress page) (s.1.page.take count)) s.2.hw
  rw [Programmer.program, startPageProgram]
  generalize Flash.modify slot _ s.2.hw = started at hstart ⊢
  obtain ⟨_ | _, w⟩ := started <;> exact h.of_usb hstart

theorem acceptPage (h : Drives k events s.2) (page count : Nat) :
    Drives k events (Programmer.acceptPage page count s).2 := by
  rw [Programmer.acceptPage]
  split
  · next slot g _ _ =>
    split
    · exact h.refuse .toDevice
    · have hfilled := h.quiet (.fill flashEndpoint (s.1.page.take count)) (fun _ h => by cases h) rfl
      simp only [Operation.run] at hfilled
      generalize s.2.fill flashEndpoint (s.1.page.take count) = filled at hfilled ⊢
      obtain ⟨_ | _, bytes, link⟩ := filled
      · exact hfilled.stallEndpoint flashEndpoint .toDevice
      · exact program (s := ({ s.1 with page := bytes ++ s.1.page.drop count }, link)) hfilled slot g
          page count
  · exact h.refuse .toDevice

variable [ResetLine ρ]

theorem respond (h : Drives k events s.2) (r : Request) :
    Drives k events (Programmer.respond r s).2 := by
  have hanswer := usb_answer r s.1 s.2.hw
  rw [Programmer.respond]
  generalize s.1.answer r s.2.hw = answered at hanswer ⊢
  obtain ⟨_ | response, s', w⟩ := answered
  · exact h.of_usb hanswer
  · exact (h.of_usb hanswer).write flashEndpoint response.encode

/-- A request is served. -/
theorem serve (h : Drives k events s.2) (r : Request) :
    Drives k events (Programmer.serve r s).2 := by
  cases r with
  | read page => exact h.servePage page.val
  | write page count => exact h.acceptPage page.val count.val
  | deviceCount | listDevice | targetDevice | erase | verify | resetTarget => exact h.respond _

theorem serviceInvariant (k : κ) (events : List TransferEvent) :
    ServiceInvariant fun s : Station (Hardware κ β ρ) => Drives k events s.2 where
  rxPending := fun h => h.quiet (.rxPending flashEndpoint) (fun _ h => by cases h) rfl
  readPacket := fun h => h.quiet (.readPacket flashEndpoint maxPacket) (fun _ h => by cases h) rfl
  serve := fun r h => h.serve r
  refuse := fun h => h.refuse .toHost

/-- The main loop makes a turn. -/
theorem poll (h : Drives k events s.2) : Drives k events (Programmer.poll s).2 :=
  ((serviceInvariant k events).turn fun h => h.quiet .takeWork (fun _ h => by cases h) rfl).poll h

end Drives

theorem Drives.keeps {p : Link (Hardware κ β ρ)} (h : Drives k events p) : Keeps k p.hw.usb := by
  induction h with
  | start => exact keeps_refl k
  | @usb _ p _ op hop ih => exact ih.trans (keeps_usb (op.keeps_run hop p))
  | aside _ spi reset ih => exact ih

/-! ## Runs -/

variable [Spi.Bus β] [ResetLine ρ]

/-- The programmer and its device were used, from a controller on. -/
inductive Operates (k : κ) : List TransferEvent → Station (Hardware κ β ρ) → Prop where
  | start (programmer : Programmer) (d : Device) (spi : β) (reset : ρ) :
      Operates k [] (programmer, ⟨d, ⟨k, spi, reset⟩⟩)
  | usb {events : List TransferEvent} {s : Station (Hardware κ β ρ)} (h : Operates k events s)
      (op : Operation (Hardware κ β ρ)) (hop : ∀ f, op ≠ .outside f) :
      Operates k (events ++ op.events s.2) (s.1, op.run s.2)
  /-- The main loop makes a turn. -/
  | poll {events : List TransferEvent} {s : Station (Hardware κ β ρ)} (h : Operates k events s) :
      Operates k events (Programmer.poll s)
  /-- A request is served that did not come over the bus. -/
  | serve {events : List TransferEvent} {s : Station (Hardware κ β ρ)} (h : Operates k events s)
      (r : Request) : Operates k events (Programmer.serve r s)
  /-- Something happens beside the controller. -/
  | aside {events : List TransferEvent} {s : Station (Hardware κ β ρ)} (h : Operates k events s)
      (programmer : Programmer) (spi : β) (reset : ρ) :
      Operates k events (programmer, ⟨s.2.device, ⟨s.2.hw.usb, spi, reset⟩⟩)

namespace Operates

variable {s : Station (Hardware κ β ρ)}

/-- A run drives the device by operations. -/
theorem drives (h : Operates k events s) : Drives k events s.2 := by
  induction h with
  | start _ d spi reset => exact .start d spi reset
  | usb _ op hop ih => exact ih.usb op hop
  | poll _ ih => exact ih.poll
  | serve _ r ih => exact ih.serve r
  | aside _ _ spi reset ih => exact ih.aside spi reset

/-- A run keeps the discipline of the FIFOs. -/
theorem keeps (h : Operates k events s) : Keeps k s.2.hw.usb := h.drives.keeps

end Operates

end FlashProgrammer.Programmer

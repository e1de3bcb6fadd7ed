import FlashProgrammer.Bench.FifoController
import FlashProgrammer.Proofs.Usb.FifoDiscipline

/-!
# Packets in the FIFOs of the bench

Bytes of a packet that waits come in order, whatever the widths of the accesses, and when the
packet is released the next one is in front.  Nothing but the OUT FIFO of the endpoint and the
record of widths is touched on the way.

A packet in front has been begun only while a transfer takes it.  `Rested` ties the cursors of the
bench to the mode of the FIFO discipline, so between two operations every cursor is at 0.
-/

namespace FlashProgrammer.Bench

open Usb

/-! ## Bytes of one packet -/

/-- The widths of the accesses that move some bytes. -/
def accessWidths : (n : Nat) → List Width
  | 0 => []
  | 1 => [.byte]
  | 2 => [.half]
  | 3 => [.half, .byte]
  | n + 4 => .word :: accessWidths n

namespace FifoController

/-- The controller with another OUT FIFO and more widths on record. -/
def taken (ep : Endpoint) (out : OutFifo) (widths : List Width) (c : FifoController) :
    FifoController :=
  { c.setOut ep out with widths := c.widths.append widths }

@[simp] theorem get_out_taken (ep : Endpoint) (out : OutFifo) (widths : List Width)
    (c : FifoController) : (c.taken ep out widths).out.get ep = out :=
  PerEndpoint.get_set_self ..

theorem taken_taken (ep : Endpoint) (out out' : OutFifo) (widths widths' : List Width)
    (c : FifoController) :
    (c.taken ep out widths).taken ep out' widths' = c.taken ep out' (widths ++ widths') := by
  have hout : (c.out.set ep out).set ep out' = c.out.set ep out' := PerEndpoint.set_set ..
  have hwidths : (c.widths.append widths).append widths' = c.widths.append (widths ++ widths') := by
    simp [Record.append]
  simp only [taken, setOut, hout, hwidths]

theorem taken_self (ep : Endpoint) (c : FifoController) : c.taken ep (c.out.get ep) [] = c := by
  have hout : c.out.set ep (c.out.get ep) = c.out := PerEndpoint.set_get ..
  simp only [taken, setOut, hout]
  rfl

/-- One access takes the next bytes. -/
theorem take_eq (ep : Endpoint) (width : Width) (c : FifoController) :
    take ep width c =
      (((c.out.get ep).take width.bytes).1,
        c.taken ep ((c.out.get ep).take width.bytes).2 [width]) := by
  refine Prod.ext (bytesOfValue_valueOfBytes width (OutFifo.length_take ..)) rfl

/-- Bytes come in order, however they are accessed. -/
theorem readFifo_eq (ep : Endpoint) (n : Nat) (c : FifoController) :
    readFifo ep n c =
      (((c.out.get ep).take n).1, c.taken ep ((c.out.get ep).take n).2 (accessWidths n)) := by
  induction n using Nat.strongRecOn generalizing c with
  | _ n ih =>
    match n with
    | 0 => exact Prod.ext rfl (taken_self ep c).symm
    | 1 => exact take_eq ep .byte c
    | 2 => exact take_eq ep .half c
    | 3 =>
      rw [OutFifo.take_add _ 2 1]
      simp only [readFifo, take_eq, get_out_taken, taken_taken]
      rfl
    | n + 4 =>
      rw [Nat.add_comm n 4, OutFifo.take_add _ 4 n, Nat.add_comm 4 n]
      simp only [readFifo, take_eq, ih n (by omega), get_out_taken, taken_taken]
      rfl

end FifoController

/-! ## Whole packets -/

section Packets

variable {ep : UInt8} {e : Endpoint} {p : Link FifoController}

/-- What does not wait already will not come. -/
theorem awaitPacket_fifo (e : Endpoint) (spins : Nat) (p : Link FifoController) :
    p.awaitPacket e spins = (!(p.hw.out.get e).packets.isEmpty, p) := by
  induction spins with
  | zero => rfl
  | succ spins ih =>
    have hask : p.ask (.rxReady e) = (!(p.hw.out.get e).packets.isEmpty, p) := rfl
    rw [Link.awaitPacket, hask]
    cases hempty : (p.hw.out.get e).packets.isEmpty with
    | true => rwa [hempty] at ih
    | false => rfl

/-- No packet waits. -/
theorem readPacket_of_nil (hready : p.device.Ready ep .toDevice e)
    (hqueue : p.hw.out.get e = ⟨[], 0⟩) (room : Nat) :
    p.readPacket ep room = (.error (.usbTimeout ep), p) := by
  simp only [Link.readPacket, Link.bulkEndpoint_eq_ok_iff.mpr hready, awaitPacket_fifo, hqueue]
  rfl

/-- The packet in front comes as far as there is room for it, and is gone. -/
theorem readPacket_of_cons {packet : List UInt8} {rest : List (Array UInt8)}
    (hready : p.device.Ready ep .toDevice e)
    (hqueue : p.hw.out.get e = ⟨packet.toArray :: rest, 0⟩) (hfits : packet.length ≤ maxPacket)
    (room : Nat) :
    ∃ widths, p.readPacket ep room =
      (.ok (packet.take room), { p with hw := p.hw.taken e ⟨rest, 0⟩ widths }) := by
  have hcount : p.ask (.rxCount e) = (UInt16.ofNat packet.length, p) := by
    show (UInt16.ofNat (p.hw.out.get e).left, p) = _
    rw [hqueue]
    rfl
  have hnat : (UInt16.ofNat packet.length).toNat = packet.length := by
    have hsmall : packet.length < 65536 := Nat.lt_of_le_of_lt hfits (by decide)
    rw [UInt16.toNat_ofNat', Nat.mod_eq_of_lt hsmall]
  have hcut : packet.take (min packet.length room) = packet.take room := by
    rw [Nat.min_comm, ← List.take_take, List.take_length]
  have hkept := FifoController.readFifo_eq e (min packet.length room) p.hw
  rw [hqueue, OutFifo.take_packet (Nat.min_le_left ..), hcut] at hkept
  have hrelease : ∀ (out : OutFifo) (widths : List Width),
      tell (.rxDone e false) (p.hw.taken e out widths) = p.hw.taken e out.release widths := by
    intro out widths
    show (p.hw.taken e out widths).setOut e _ = _
    rw [FifoController.get_out_taken]
    have hlast := FifoController.taken_taken e out out.release widths [] p.hw
    rw [List.append_nil] at hlast
    exact hlast
  refine ⟨accessWidths (min packet.length room) ++
    accessWidths (min (packet.length - min packet.length room) maxPacket), ?_⟩
  simp only [Link.readPacket, Link.bulkEndpoint_eq_ok_iff.mpr hready, awaitPacket_fifo, hqueue,
    List.isEmpty_cons, Bool.not_false, Link.takePacket, hcount, hnat, hkept,
    FifoController.readFifo_eq, FifoController.get_out_taken, FifoController.taken_taken,
    Link.tell, hrelease]
  rfl

end Packets

/-! ## Cursors -/

/-- Bytes were taken of a packet in front only if the firmware is taking it. -/
def Rested (m : Mode) (c : FifoController) : Prop :=
  ∀ ep, (∀ left, m ≠ .taking ep left) → (c.out.get ep).cursor = 0

theorem rested_of_cursors {c : FifoController} (h : ∀ ep, (c.out.get ep).cursor = 0) (m : Mode) :
    Rested m c := fun ep _ => h ep

theorem Rested.cursor_eq {m : Mode} {c : FifoController} (h : Rested m c) (hm : m.isOpen = true)
    (ep : Endpoint) : (c.out.get ep).cursor = 0 := by
  refine h ep fun left htaking => ?_
  rw [htaking] at hm
  cases hm

/-- Another OUT FIFO that has not been begun. -/
theorem Rested.setOut {m : Mode} {c : FifoController} (h : Rested m c) (e : Endpoint)
    {f : OutFifo} (hf : f.cursor = 0) : Rested m (c.setOut e f) := by
  intro ep hep
  show ((c.out.set e f).get ep).cursor = 0
  rw [PerEndpoint.get_set]
  split
  · exact hf
  · exact h ep hep

/-- The mode that a halt leads to knows no more than the mode before. -/
theorem Rested.afterHalt {m m' : Mode} {c : FifoController} (h : Rested m c)
    (ha : m.afterHalt = some m') : Rested m' c := by
  cases m with
  | rest | full =>
    cases ha
    exact rested_of_cursors (h.cursor_eq rfl) .rest
  | building => cases ha
  | taking e left =>
    rw [Mode.afterHalt] at ha
    split at ha
    · cases ha
      exact h
    · cases ha

/-- What is known of the cursors survives every action that keeps the discipline. -/
theorem Rested.after {m m' : Mode} {c : FifoController} (h : Rested m c) {a : Action}
    (ha : m.after a (Controller.perform a c).1 = some m') :
    Rested m' (Controller.perform a c).2 := by
  -- Most actions need an open mode, in which all cursors are at 0.
  have hopen : ∀ {x : Mode}, (if m.isOpen = true then some x else none) = some m' →
      Rested m' c := by
    intro x hx
    split at hx
    · next hm => exact rested_of_cursors (h.cursor_eq hm) m'
    · cases hx
  cases a with
  | rxCount ep =>
    rw [Mode.after] at ha
    split at ha
    · next hm =>
      have hisOpen : m.isOpen = true := by
        rcases hm with rfl | ⟨hm, -⟩
        · rfl
        · exact hm
      exact rested_of_cursors (h.cursor_eq hisOpen) m'
    · cases ha
  | fifoRead ep width =>
    cases m with
    | taking e left =>
      rw [Mode.after] at ha
      split at ha
      · next hm =>
        obtain ⟨rfl, -⟩ := hm
        cases ha
        intro ep' hep'
        have hne : e ≠ ep' := by
          rintro rfl
          exact hep' _ rfl
        show ((c.out.set e _).get ep').cursor = 0
        rw [PerEndpoint.get_set_ne _ _ hne]
        exact h ep' fun left' heq => hne (Mode.taking.inj heq).1
      · cases ha
    | rest | full | building => cases ha
  | rxDone ep dataEnd =>
    cases m with
    | taking e left =>
      rw [Mode.after] at ha
      split at ha
      · next hm =>
        subst hm
        cases ha
        intro ep' _
        show ((c.out.set e _).get ep').cursor = 0
        rw [PerEndpoint.get_set]
        split
        · rfl
        · next hne => exact h ep' fun left' heq => hne (Mode.taking.inj heq).1
      · cases ha
    | rest | full | building => cases ha
  | fifoWrite ep width value =>
    cases m with
    | building e n =>
      rw [Mode.after] at ha
      split at ha
      · cases ha
        exact fun ep' _ => h ep' fun _ heq => by cases heq
      · cases ha
    | rest | full | taking => cases ha
  | txReady ep last =>
    cases m with
    | building e n =>
      rw [Mode.after] at ha
      split at ha
      · cases ha
        exact fun ep' _ => h ep' fun _ heq => by cases heq
      · cases ha
    | rest | full | taking => cases ha
  | stall ep dir => exact h.afterHalt ha
  | clearStall ep dir =>
    have hrested := h.afterHalt ha
    cases dir with
    | toDevice => exact hrested.setOut ep rfl
    | toHost => exact hrested
  | _ => exact hopen ha

/-- A transfer leaves every cursor where the discipline says it is. -/
theorem Rested.follows {m m' : Mode} {c c' : FifoController} (h : Rested m c)
    (hfollows : Follows m c m' c') : Rested m' c' := by
  induction hfollows with
  | refl => exact h
  | step _ a ha ih => exact ih.after ha

/-- The host adds packets, and takes none that has been begun. -/
def KeepsCursors (f : FifoController → FifoController) : Prop :=
  ∀ c : FifoController, (∀ ep, (c.out.get ep).cursor = 0) → ∀ ep, ((f c).out.get ep).cursor = 0

/-- Between two operations no packet in front has been begun. -/
theorem cursor_run {op : Operation FifoController} (hop : ∀ f, op = .outside f → KeepsCursors f)
    {p : Link FifoController} (h : ∀ ep, (p.hw.out.get ep).cursor = 0) (ep : Endpoint) :
    ((op.run p).hw.out.get ep).cursor = 0 := by
  by_cases houtside : ∃ f, op = .outside f
  · obtain ⟨f, rfl⟩ := houtside
    exact hop f rfl p.hw h ep
  · obtain ⟨m, hm, hfollows⟩ :=
      Operation.keeps_run (fun f hf => houtside ⟨f, hf⟩) p .rest rfl
    exact ((rested_of_cursors h .rest).follows hfollows).cursor_eq hm ep

theorem cursor_runAll {ops : List (Operation FifoController)}
    (hops : ∀ f, .outside f ∈ ops → KeepsCursors f) {p : Link FifoController}
    (h : ∀ ep, (p.hw.out.get ep).cursor = 0) (ep : Endpoint) :
    ((Operation.runAll ops p).hw.out.get ep).cursor = 0 := by
  induction ops generalizing p with
  | nil => exact h ep
  | cons op ops ih =>
    have hrun := cursor_run (fun f hf => hops f (hf ▸ List.mem_cons_self)) h
    exact ih (fun f hf => hops f (List.mem_cons_of_mem op hf)) hrun

end FlashProgrammer.Bench

import FlashProgrammer.Bench.Rig
import FlashProgrammer.Proofs.Bench.ControlGate
import FlashProgrammer.Proofs.Bench.LoopGate
import FlashProgrammer.Proofs.Programmer.Reachable

/-!
# The packets behind a halt

A write that is refused halts the flash endpoint, and its data may still wait there.
The data must not be taken for requests once the halt is lifted.

`Act` is one thing that the host, the bus or the main loop does, and `Guarded` says
that some acts followed a halt without a configuration being chosen while a packet
from before still waited.  `Guarded.bars` keeps the gate barred along such acts, by
one case for each kind of act, and `halted_packets_exact` says what is decoded.
-/

namespace FlashProgrammer.Programmer

open Flash Protocol Usb
open Bench

variable {β ρ : Type} [Spi.Bus β] [ResetLine ρ]

/-! ## Acts -/

/-- What happens to a programmer. -/
inductive Act where
  /-- The host sends a packet to an endpoint. -/
  | send (ep : Endpoint) (packet : List UInt8)
  /-- The controller raises an interrupt. -/
  | interrupt (status : InterruptStatus) (events : ControlEvents)
  /-- The main loop takes the oldest work. -/
  | takeWork
  /-- The main loop serves the flash endpoint. -/
  | serveFlash
  /-- The device appears on the bus. -/
  | attach
  /-- The device disappears from the bus. -/
  | detach

namespace Act

/-- The packets that the flash endpoint gets. -/
def sent : Act → List (Array UInt8)
  | send ep packet => if ep = .flash then [packet.toArray] else []
  | _ => []

/-- The link when an interrupt is about to be served. -/
def raised (status : InterruptStatus) (events : ControlEvents) (p : Link (Fifos β ρ)) :
    Link (Fifos β ρ) :=
  { p with hw := Driven.raise status (latch events p).hw }

/-- What comes of an act. -/
def step (a : Act) (s : Station (Fifos β ρ)) : Station (Fifos β ρ) :=
  match a with
  | send ep packet => (s.1, deliver ep packet s.2)
  | interrupt status events => (s.1, fire status (latch events s.2))
  | takeWork => (s.1, s.2.takeWork.2)
  | serveFlash => service s
  | attach => (s.1, s.2.attach)
  | detach => (s.1, s.2.detach)

/-- The act is an interrupt that takes a SETUP packet and chooses a configuration for it. -/
def Chooses (a : Act) (s : Station (Fifos β ρ)) : Prop :=
  match a with
  | interrupt status events =>
    ∃ setup q, (raised status events s.2).setup? = some (setup, q) ∧ setup.Chooses q
  | _ => False

end Act

/-- A turn of the main loop is made of acts. -/
theorem poll_acts (s : Station (Fifos β ρ)) :
    ∃ acts : List Act, (∀ a ∈ acts, a = .takeWork ∨ a = .serveFlash) ∧
      poll s = acts.foldl (fun s a => a.step s) s := by
  have hdrain : ∀ fuel (s : Station (Fifos β ρ)), ∃ acts : List Act,
      (∀ a ∈ acts, a = .takeWork ∨ a = .serveFlash) ∧
        drain fuel s = acts.foldl (fun s a => a.step s) s := by
    -- Each round takes one piece of work, and serves the flash endpoint if the work is its own.
    intro fuel
    induction fuel with
    | zero => exact fun s => ⟨[], by simp, rfl⟩
    | succ fuel ih =>
      intro s
      have htake : Act.takeWork.step s = (s.1, s.2.takeWork.2) := rfl
      rw [drain]
      generalize s.2.takeWork = taken at htake ⊢
      obtain ⟨_ | work, link⟩ := taken
      · exact ⟨[.takeWork], by simp, htake.symm⟩
      · simp only
        split
        · obtain ⟨acts, hacts, hrun⟩ := ih (service (s.1, link))
          refine ⟨.takeWork :: .serveFlash :: acts, by simpa using hacts, ?_⟩
          rw [hrun, List.foldl_cons, List.foldl_cons, htake]
          rfl
        · obtain ⟨acts, hacts, hrun⟩ := ih (s.1, link)
          refine ⟨.takeWork :: acts, by simpa using hacts, ?_⟩
          rw [hrun, List.foldl_cons, htake]
  rw [poll]
  split
  · obtain ⟨acts, hacts, hrun⟩ := hdrain s.2.device.queue.length s
    simp only
    generalize drain s.2.device.queue.length s = t at hrun ⊢
    rw [rxPending_eq]
    cases decide (gate t.2).Open with
    | true =>
      refine ⟨acts ++ [.serveFlash], ?_, ?_⟩
      · intro a ha
        rcases List.mem_append.mp ha with ha | ha
        · exact hacts a ha
        · exact .inr (List.mem_singleton.mp ha)
      · rw [List.foldl_append, ← hrun]
        rfl
    | false => exact ⟨acts, hacts, hrun⟩
  · exact ⟨[], by simp, rfl⟩

/-- Some acts, along which no configuration is chosen while a packet from before waits.  `sent` is
what the flash endpoint got. -/
inductive Guarded (s : Station (Fifos β ρ)) :
    List (Array UInt8) → Station (Fifos β ρ) → Prop where
  | start : Guarded s [] s
  | act {sent : List (Array UInt8)} {x : Station (Fifos β ρ)} (h : Guarded s sent x) (a : Act)
      (hchooses : a.Chooses x → (gate x.2).waiting <:+ sent) :
      Guarded s (sent ++ a.sent) (a.step x)

/-! ## One act -/

/-- A gate that bars all but the last packets opens only for these. -/
theorem bars_fresh {sent : List (Array UInt8)} {g : Gate} (h : g.Bars sent) (hopen : g.Open) :
    g.waiting <:+ sent := by
  obtain ⟨hlifecycle, hhalted, _⟩ := hopen
  rcases h with hfresh | htrue | ⟨hunconfigured, _⟩
  · exact hfresh
  · rw [hhalted] at htrue
    cases htrue
  · exact absurd hlifecycle hunconfigured

omit [Spi.Bus β] [ResetLine ρ] in
/-- A packet that arrives is one of the last. -/
theorem deliver_bars {sent : List (Array UInt8)} {p : Link (Fifos β ρ)}
    (h : (gate p).Bars sent) (ep : Endpoint) (packet : List UInt8) :
    (gate (deliver ep packet p)).Bars (sent ++ (Act.send ep packet).sent) := by
  have hwaiting : (gate (deliver ep packet p)).waiting =
      (gate p).waiting ++ (Act.send ep packet).sent := by
    show ((p.hw.usb.out.set ep ((p.hw.usb.out.get ep).queue packet)).get .flash).packets = _
    rw [PerEndpoint.get_set, Act.sent]
    split
    · next hep => rw [hep]; rfl
    · exact (List.append_nil _).symm
  rcases h with ⟨taken, hfresh⟩ | hhalted | hunconfigured
  · refine .inl ⟨taken, ?_⟩
    rw [hwaiting, ← hfresh, List.append_assoc]
  · exact .inr (.inl hhalted)
  · exact .inr (.inr hunconfigured)

/-- No act opens the gate to a packet from before, unless it chooses a configuration while one
waits. -/
theorem Act.bars {sent : List (Array UInt8)} {x : Station (Fifos β ρ)} (a : Act)
    (h : (gate x.2).Bars sent) (hchooses : a.Chooses x → (gate x.2).waiting <:+ sent) :
    (gate (a.step x).2).Bars (sent ++ a.sent) := by
  have hsilent : ∀ {g : Gate}, g.Bars sent → g.Bars (sent ++ []) := by
    intro g hg
    rwa [List.append_nil]
  cases a with
  | send ep packet => exact deliver_bars h ep packet
  | interrupt status events =>
    refine hsilent (onInterrupt_bars (p := raised status events x.2) h ?_)
    intro setup q hsetup hchosen
    exact hchooses ⟨setup, q, hsetup, hchosen⟩
  | takeWork => exact hsilent h
  | serveFlash =>
    refine hsilent (show (gate (service x).2).Bars sent from ?_)
    by_cases hopen : (gate x.2).Open
    · exact .inl ((service_leaves x).trans (bars_fresh h hopen))
    · rw [service_of_closed hopen]
      exact h
  | attach => exact hsilent (h.lower .attached (by decide))
  -- Detaching lifts the halt, but ends the configuration as well.
  | detach =>
    exact hsilent (.inr (.inr ⟨show Lifecycle.detached ≠ .configured by decide, rfl⟩))

theorem Guarded.bars {s x : Station (Fifos β ρ)} {sent : List (Array UInt8)}
    (h : Guarded s sent x) (hhalted : (gate s.2).halted = true) : (gate x.2).Bars sent := by
  induction h with
  | start => exact .inr (.inl hhalted)
  | act _ a hchooses ih => exact a.bars ih hchooses

/-! ## Whole runs -/

/-- A write that is refused, or whose data does not all come, halts the endpoint. -/
theorem write_halts {page count : PageNumber} {s : Station (Fifos β ρ)} (hs : Reachable s.1)
    (hdata : s.1.takesData page.val count.val = false ∨
      (dataOf (.write page count) s).length < count.val) :
    (gate (serve (.write page count) s).2).halted = true := by
  have hrefused : ∀ q : Link (Fifos β ρ),
      (gate (q.stallEndpoint flashEndpoint .toDevice)).halted = true := by
    intro q
    show (gate (q.halt .flash .toDevice)).halted = true
    rw [gate_halt, if_pos ⟨rfl, rfl⟩]
  show (gate (acceptPage page.val count.val s).2).halted = true
  rw [acceptPage]
  cases hsel : s.1.selected with
  | none => exact hrefused s.2
  | some selected =>
    obtain ⟨slot, g⟩ := selected
    cases hjob : s.1.job.at? with
    | some active => exact hrefused s.2
    | none =>
      simp only
      split
      · exact hrefused s.2
      · next hwanted =>
        have htakes : s.1.takesData page.val count.val = true := by
          simp [takesData, hsel, hjob, hwanted]
        have hshort : (dataOf (.write page count) s).length < count.val :=
          hdata.resolve_left (by simp [htakes])
        have hneed : (s.1.page.take count.val).length = count.val := by
          simp only [Bool.or_eq_true, decide_eq_true_eq] at hwanted
          exact length_take_page hs.wellFormed.page_length g (by omega)
        have hgather := gather_length flashEndpoint (Nat.le_refl count.val) s.2
        simp only [dataOf, htakes, if_true] at hshort
        rw [Link.fill, hneed]
        generalize s.2.gather flashEndpoint count.val count.val = gathered at hgather hshort ⊢
        obtain ⟨⟨bytes, outcome⟩, q⟩ := gathered
        cases outcome with
        | error e => exact hrefused q
        | ok u =>
          rcases hgather with ⟨_, hall⟩ | ⟨⟨e, herror⟩, _⟩
          · exact absurd hall (Nat.ne_of_lt hshort)
          · cases herror

/-- What becomes of the packets behind a halt.

The flash endpoint is halted in `s`, and acts lead from there to `x` along which no configuration is
chosen while a packet from before still waits.  Then whatever is decoded in `x` was sent after `s`.
An act that does choose a configuration while a packet from before waits lifts the halt and drops
nothing, so that the packet is decoded as soon as the device is configured. -/
theorem halted_packets_exact {s x : Station (Fifos β ρ)} {sent : List (Array UInt8)}
    (hhalted : (gate s.2).halted = true) (h : Guarded s sent x) :
    (∀ frame, decoded? x = some frame → (gate x.2).waiting <:+ sent) ∧
    ∀ a : Act, a.Chooses x → ¬(gate x.2).waiting <:+ sent →
      (gate (a.step x).2).halted = false ∧
      (gate (a.step x).2).waiting = (gate x.2).waiting ∧
      ((gate (a.step x).2).lifecycle = .configured →
        ∃ frame, decoded? (a.step x) = some frame) := by
  constructor
  · intro frame hframe
    exact bars_fresh (h.bars hhalted) ((decoded_iff x).mp ⟨frame, hframe⟩)
  · intro a hchooses hstale
    cases a with
    | interrupt status events =>
      obtain ⟨setup, q, hsetup, hchosen⟩ := hchooses
      obtain ⟨hlifted, hwaiting⟩ := gate_onInterrupt_of_chooses hsetup hchosen
      refine ⟨hlifted, hwaiting, fun hconfigured => (decoded_iff _).mpr ⟨hconfigured, hlifted, ?_⟩⟩
      intro hempty
      refine hstale ?_
      have hnone : (gate x.2).waiting = [] := hwaiting.symm.trans hempty
      rw [hnone]
      exact List.nil_suffix
    | _ => exact hchooses.elim

/-! ## On the bench -/

/-- A programmer on a rig that was asked to write no bytes, with another packet right behind. -/
def refusedWrite : Station Rig :=
  exchange [[0x02, 0, 0], [0x05, 0, 0, 0, 0, 0, 0], [0x03, 0, 0, 0, 0, 0, 0, 0]]
    (Rig.enumerated
      ⟨some { id := [0xEF, 0x40, 0x14], size := 0x100000, cells := fun _ => 0 }, none, none⟩ [])

/-- Then the host chooses the configuration again. -/
def reconfigured : Station Rig :=
  (refusedWrite.1,
    collectControl (sendControl (configurationSetup 1).toBytes refusedWrite.2))

theorem halted_packets_exact_reconfigured :
    ∃ frame, decoded? ((Act.interrupt { rx := 1 } {}).step
      ((Act.send .control (configurationSetup 1).toBytes).step refusedWrite)) = some frame := by
  let x := (Act.send .control (configurationSetup 1).toBytes).step refusedWrite
  have hguarded : Guarded refusedWrite [] x :=
    .act .start (.send .control (configurationSetup 1).toBytes) False.elim
  have hhalted : (gate refusedWrite.2).halted = true := by
    decide +kernel
  have hstale : ¬(gate x.2).waiting <:+ [] := by
    decide +kernel
  have hchooses : (Act.interrupt { rx := 1 } {}).Chooses x := by
    have htaken : (Act.raised { rx := 1 } {} x.2).setup?.any
        (fun taken => decide (taken.1.Chooses taken.2)) = true := by
      decide +kernel
    obtain ⟨⟨setup, q⟩, hsetup, hchosen⟩ := (Option.any_eq_true _ _).mp htaken
    exact ⟨setup, q, hsetup, of_decide_eq_true hchosen⟩
  obtain ⟨_, _, hdecoded⟩ :=
    (halted_packets_exact hhalted hguarded).2 (.interrupt { rx := 1 } {}) hchooses hstale
  exact hdecoded (by decide +kernel)

/-- The endpoint is halted and a packet waits behind the write.  Once the host chooses the
configuration again, the main loop decodes the packet, and it erases the chip. -/
theorem waiting_packet_erases_chip :
    (gate refusedWrite.2).halted = true ∧
    (gate refusedWrite.2).waiting = [#[0x03, 0, 0, 0, 0, 0, 0, 0]] ∧
    (refusedWrite.2.hw.spi.chip? .local1).map (fun c => c.read 0) = some 0x00 ∧
    decoded? reconfigured = some [0x03, 0, 0, 0, 0, 0, 0, 0] ∧
    ((poll reconfigured).2.hw.spi.chip? .local1).map (fun c => c.read 0) = some 0xFF := by
  decide +kernel

end FlashProgrammer.Programmer

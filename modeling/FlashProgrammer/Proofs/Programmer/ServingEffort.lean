import FlashProgrammer.Proofs.Programmer.Reachable
import FlashProgrammer.Proofs.Programmer.Turns
import FlashProgrammer.Proofs.Protocol.ResponseFrames
import FlashProgrammer.Proofs.Trace.Effort

/-!
# How much a request asks of the hardware

Serving a request asks for at most `serveBound` actions of the hardware, whatever it answers.  Most
of them are for a write, which takes a page from the host byte by byte if it must, and waits for
each packet of it.

A page has at most 256 bytes.  That the bytes of the last write fit into one is remembered, so a
verification needs that the programmer is well formed.
-/

namespace FlashProgrammer.Programmer

open Flash Protocol Usb Trace

variable {ω : Type}

/-- The actions of serving one request, at the most. -/
def serveBound (spins polls : Nat) : Nat := 256 * (spins + 323) + 4 * polls + 265

/-- The actions of serving the flash endpoint once, at the most. -/
def serviceBound (spins polls : Nat) : Nat := spins + 132 + serveBound spins polls

/-! ## Chips -/

section Chips

variable [Spi.Bus ω]

theorem length_of_readIdle {slot : Slot} {polls address length : Nat} {bs : List UInt8}
    {w w' : Traced ω} (h : readIdle slot polls address length w = (.ok bs, w')) :
    bs.length = length := by
  obtain ⟨_, hreads, _⟩ := readIdle_readsIdle slot polls address length w
  rw [h] at hreads
  exact hreads.length_eq

theorem within_startBlock (slot : Slot) (g : Geometry) (block : Nat) (w : Traced ω) :
    Within 9 w (startBlock slot g block w).2 :=
  within_modify slot (.blockErase g.eraseOpcode (g.blockAddress block)) w

omit [Spi.Bus ω] in
theorem within_startErase {g : Geometry} {n first last position : Nat}
    {start : Traced ω → Except Fault Unit × Traced ω} (hstart : ∀ w, Within n w (start w).2)
    (s : Programmer) (w : Traced ω) :
    Within n w (startErase g first last position start s w).2.2 := by
  rw [startErase]
  split
  · exact within_same w
  · split
    · exact within_same w
    · have hstarted := hstart w
      generalize start w = started at hstarted ⊢
      obtain ⟨_ | _, w'⟩ := started <;> exact hstarted

theorem within_eraseStatus (slot : Slot) (g : Geometry) (s : Programmer) (w : Traced ω) :
    Within 13 w (eraseStatus slot g s w).2.2 := by
  have hpolled := within_isBusy slot w
  rw [eraseStatus]
  generalize isBusy slot w = polled at hpolled ⊢
  obtain ⟨_ | _ | _, w'⟩ := polled
  · exact hpolled.mono (by omega)
  · simp only
    split
    · next next last _ =>
      split
      · have hstarted := within_startBlock slot g next w'
        generalize startBlock slot g next w' = started at hstarted ⊢
        obtain ⟨_ | _, w''⟩ := started <;> exact hpolled.trans hstarted (Nat.le_refl 13)
      · exact hpolled.mono (by omega)
    · exact hpolled.mono (by omega)
  · exact hpolled.mono (by omega)

theorem within_erase (operation : EraseOperation) (first last : Nat) (s : Programmer)
    (w : Traced ω) : Within 13 w (erase operation first last s w).2.2 := by
  rw [erase]
  rcases s.selected with _ | ⟨slot, g⟩
  · exact within_same w
  · cases operation with
    | status => exact within_eraseStatus slot g s w
    | all =>
      have hchip : ∀ w : Traced ω, Within 6 w (startChipErase slot w).2 :=
        within_modify slot .chipErase
      exact (within_startErase hchip s w).mono (by omega)
    | page | pageRange =>
      exact (within_startErase (within_startBlock slot g first) s w).mono (by omega)

theorem within_verify {s : Programmer} (hs : s.WellFormed) (w : Traced ω) :
    Within (4 * s.budget.flashPolls + 262) w (verify s w).2 := by
  rw [verify]
  split
  · next slot g written hsel hwritten =>
    obtain ⟨_, g', _, _, _, _, hlength⟩ := hs.written written hwritten
    have hpage := g'.pageLength_le
    have hread := within_readIdle slot s.budget.flashPolls (g.pageAddress written.page)
      written.length w
    generalize readIdle slot s.budget.flashPolls _ written.length w = read at hread ⊢
    obtain ⟨_ | _, w'⟩ := read <;> exact hread.mono (by omega)
  · exact within_same w

theorem within_listDevice (number bus : UInt8) (w : Traced ω) :
    Within 3932 w (listDevice number bus w).2 := by
  rw [listDevice]
  split
  · exact within_same w
  · next slot _ => exact within_identify slot w

theorem within_targetDevice (number bus : UInt8) (s : Programmer) (w : Traced ω) :
    Within 3932 w (targetDevice number bus s w).2 := by
  rw [targetDevice]
  split
  · exact within_same w
  · next slot _ => exact within_identify slot w

theorem within_answer [ResetLine ω] {s : Programmer} (hs : s.WellFormed) (r : Request)
    (w : Traced ω) : Within (4 * s.budget.flashPolls + 3932) w (answer r s w).2.2 := by
  cases r with
  | deviceCount | read page | write page count => exact within_same w
  | listDevice number bus => exact (within_listDevice number bus w).mono (Nat.le_add_left _ _)
  | targetDevice number bus =>
    exact (within_targetDevice number bus s w).mono (Nat.le_add_left _ _)
  | erase operation first last =>
    exact (within_erase operation first.val last.val s w).mono (by omega)
  | verify => exact (within_verify hs w).mono (by omega)
  | resetTarget => exact (within_pulseReset w).mono (by omega)

end Chips

/-! ## Serving -/

section Serving

variable [Spi.Bus ω] [ResetLine ω] [Controller ω]

/-- A programmer that remembers nothing impossible, with these budgets. -/
structure Paced (spins polls : Nat) (s : Station ω) : Prop where
  wellFormed : s.1.WellFormed
  polls_eq : s.1.budget.flashPolls = polls
  spins_eq : s.2.device.budget.usbSpins = spins

theorem Serves.budget_eq {s s' : Programmer} {r : Request} {data : List UInt8}
    {ts : List Transaction} {reply : Option Response} (h : Serves s r data ts reply s') :
    s'.budget = s.budget := by
  cases h <;> rfl

omit [Spi.Bus ω] [ResetLine ω] [Controller ω] in
/-- The device keeps its budget. -/
theorem Paced.retain {spins polls : Nat} {s : Station ω} (h : Paced spins polls s) {p : Link ω}
    (hretains : Retains s.2.device p.device) : Paced spins polls (s.1, p) where
  wellFormed := h.wellFormed
  polls_eq := h.polls_eq
  spins_eq := (congrArg WaitBudget.usbSpins hretains.budget_eq).trans h.spins_eq

theorem serviceInvariant_paced (spins polls : Nat) :
    ServiceInvariant fun s : Station ω => Paced spins polls s where
  rxPending := fun h => h.retain (.of_eq (talks_rxPending flashEndpoint _).device_eq)
  readPacket := fun h => h.retain (.of_eq (talks_readPacket flashEndpoint maxPacket _).device_eq)
  serve := fun {s} r h => by
    have hserves := serves r s h.wellFormed.page_length
    have hlink := h.retain (retains_serve r s)
    exact ⟨hserves.wellFormed h.wellFormed, hserves.budget_eq ▸ h.polls_eq, hlink.spins_eq⟩
  refuse := fun {s} h => h.retain (retains_refuse .toHost s)

variable {spins polls : Nat} {s : Station (Traced ω)}

omit [Spi.Bus ω] [ResetLine ω] in
theorem within_refuse (dir : Direction) (s : Station (Traced ω)) :
    Within 1 s.2.hw (refuse dir s).2.hw :=
  within_stallEndpoint flashEndpoint dir s.2

omit [ResetLine ω] in
theorem within_servePage (page : Nat) (s : Station (Traced ω)) :
    Within (4 * s.1.budget.flashPolls + 4 * s.2.device.budget.usbSpins + 526) s.2.hw
      (servePage page s).2.hw := by
  rw [servePage]
  split
  · exact (within_refuse .toHost s).mono (by omega)
  · next slot g _ =>
    split
    · have hpage := g.pageLength_le
      have hread := within_readIdle slot s.1.budget.flashPolls (g.pageAddress page) g.pageLength
        s.2.hw
      cases hidle : readIdle slot s.1.budget.flashPolls (g.pageAddress page) g.pageLength
          s.2.hw with
      | mk outcome w =>
        rw [hidle] at hread
        cases outcome with
        | error e =>
          exact hread.trans (within_refuse .toHost (s.1, { s.2 with hw := w })) (by omega)
        | ok bs =>
          have hlength := length_of_readIdle hidle
          have hwritten := within_write flashEndpoint bs { s.2 with hw := w }
          have hcount : (packets bs).length ≤ 4 := by
            rw [length_packets, hlength, maxPacket]
            omega
          have hspent := Nat.mul_le_mul_right (s.2.device.budget.usbSpins + 2) hcount
          exact hread.trans hwritten (by simp only; omega)
    · exact (within_refuse .toHost s).mono (by omega)

omit [ResetLine ω] [Controller ω] in
theorem within_program (slot : Slot) (g : Geometry) (page : Nat) {count : Nat}
    (hcount : count ≤ 256) (s : Station (Traced ω)) :
    Within 265 s.2.hw (program slot g page count s).2.hw := by
  have hbytes : (s.1.page.take count).length ≤ 256 := Nat.le_trans (List.length_take_le _ _) hcount
  have hstarted := within_startPageProgram slot (g.pageAddress page) (s.1.page.take count) s.2.hw
  rw [program]
  generalize startPageProgram slot _ _ s.2.hw = started at hstarted ⊢
  obtain ⟨_ | _, w⟩ := started <;> exact hstarted.mono (Nat.add_le_add_right hbytes 9)

omit [ResetLine ω] in
theorem within_acceptPage (page count : Nat) (s : Station (Traced ω)) :
    Within (256 * (s.2.device.budget.usbSpins + 323) + 265) s.2.hw
      (acceptPage page count s).2.hw := by
  rw [acceptPage]
  split
  · next slot g _ _ =>
    split
    · exact (within_refuse .toDevice s).mono (by omega)
    · next hinside =>
      have hcount : count ≤ 256 := by
        have hpage := g.pageLength_le
        simp only [Bool.or_eq_true, decide_eq_true_eq] at hinside
        omega
      have hbuffer : (s.1.page.take count).length ≤ 256 :=
        Nat.le_trans (List.length_take_le _ _) hcount
      have hfilled : Within (256 * (s.2.device.budget.usbSpins + 323)) s.2.hw
          (s.2.fill flashEndpoint (s.1.page.take count)).2.2.hw := by
        -- A packet may bring a single byte, so there may be as many of them as bytes.
        refine (within_gather flashEndpoint _ _ s.2).mono ?_
        exact Nat.mul_le_mul hbuffer (by omega)
      generalize s.2.fill flashEndpoint (s.1.page.take count) = filled at hfilled ⊢
      obtain ⟨_ | _, bytes, p⟩ := filled
      · exact hfilled.trans (within_refuse .toDevice (_, p)) (by omega)
      · exact hfilled.trans (within_program slot g page hcount (_, p)) (Nat.le_refl _)
  · exact (within_refuse .toDevice s).mono (by omega)

theorem within_respond (hs : s.1.WellFormed) (r : Request) :
    Within (4 * s.1.budget.flashPolls + s.2.device.budget.usbSpins + 3948) s.2.hw
      (respond r s).2.hw := by
  have hanswered := within_answer hs r s.2.hw
  rw [respond]
  generalize s.1.answer r s.2.hw = answered at hanswered ⊢
  obtain ⟨_ | response, s', w⟩ := answered
  · exact hanswered.mono (by omega)
  · have hwritten := within_write flashEndpoint response.encode { s.2 with hw := w }
    have hlength : response.encode.length ≤ 14 := response.length_encode_le
    have hcount : (packets response.encode).length ≤ 1 := by
      rw [length_packets, maxPacket]
      omega
    have hspent := Nat.mul_le_mul_right (s.2.device.budget.usbSpins + 2) hcount
    exact hanswered.trans hwritten (by simp only; omega)

theorem within_serve (hs : Paced spins polls s) (r : Request) :
    Within (serveBound spins polls) s.2.hw (serve r s).2.hw := by
  obtain ⟨hwell, rfl, rfl⟩ := hs
  rw [serveBound]
  cases r with
  | read page => exact (within_servePage page.val s).mono (by omega)
  | write page count => exact (within_acceptPage page.val count.val s).mono (by omega)
  | _ => exact (within_respond hwell _).mono (by omega)

theorem within_service (hs : Paced spins polls s) :
    Within (serviceBound spins polls) s.2.hw (service s).2.hw := by
  have hpending := within_rxPending flashEndpoint s.2
  have hpaced := (serviceInvariant_paced spins polls).rxPending hs
  rw [service, serviceBound]
  generalize s.2.rxPending flashEndpoint = pending at hpending hpaced ⊢
  obtain ⟨_ | _, p⟩ := pending
  · exact hpending.mono (by omega)
  · have hread := within_readPacket flashEndpoint maxPacket p
    have hpaced' := (serviceInvariant_paced spins polls).readPacket hpaced
    rw [hpaced.spins_eq] at hread
    simp only
    generalize p.readPacket flashEndpoint maxPacket = read at hread hpaced' ⊢
    rw [maxPacket] at hread
    have hsofar : Within (spins + 132) s.2.hw read.2.hw := hpending.trans hread (by omega)
    obtain ⟨_ | frame, q⟩ := read
    · exact hsofar.mono (by omega)
    · simp only
      split
      · exact hsofar.trans (within_serve hpaced' _) (by omega)
      · exact hsofar.trans (within_refuse .toHost (s.1, q)) (by rw [serveBound]; omega)

end Serving

end FlashProgrammer.Programmer

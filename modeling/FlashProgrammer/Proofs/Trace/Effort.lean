import FlashProgrammer.Proofs.Flash.Said
import FlashProgrammer.Proofs.Trace.Waiting
import FlashProgrammer.Proofs.Usb.Packets

/-!
# How much is asked of the hardware

Hardware answers what it likes, also never that it is ready.  It is asked only so often.
`Within n w w'` says that between two moments it was asked for at most `n` actions, whatever came
back.

There is one bound for each function, and none of them speaks of an answer.  Only the wait budget
and the number of bytes come in.
-/

namespace FlashProgrammer.Sfdp

/-- A header announces at most 256 parameter headers. -/
theorem Header.parameterHeaders_le {bs : List UInt8} {header : Header}
    (h : Header.parse bs = .ok header) : header.parameterHeaders ≤ 256 := by
  rw [Header.parse] at h
  split at h
  · cases h
    exact (byteAt bs 6).toNat_lt
  · cases h

end FlashProgrammer.Sfdp

namespace FlashProgrammer.Trace

open Flash Usb

variable {ω : Type}

/-- Between two moments at most `n` actions were asked of the hardware. -/
def Within (n : Nat) (w w' : Traced ω) : Prop := ∃ es, Adds es w w' ∧ es.length ≤ n

section Counting

variable {n m k : Nat} {u v w : Traced ω}

theorem within_refl (w : Traced ω) : Within 0 w w := ⟨[], adds_refl w, Nat.le_refl 0⟩

theorem Within.mono (h : Within n v w) (hle : n ≤ m) : Within m v w := by
  obtain ⟨es, hadds, hlength⟩ := h
  exact ⟨es, hadds, Nat.le_trans hlength hle⟩

/-- Nothing was asked, and so not too much. -/
theorem within_same (w : Traced ω) : Within n w w := (within_refl w).mono (Nat.zero_le n)

/-- One after the other within the sum. -/
theorem Within.trans (huv : Within n u v) (hvw : Within m v w) (hle : n + m ≤ k) :
    Within k u w := by
  obtain ⟨es, hes, hn⟩ := huv
  obtain ⟨fs, hfs, hm⟩ := hvw
  refine ⟨es ++ fs, hes.trans hfs, ?_⟩
  rw [List.length_append]
  omega

/-- The length of a trace that began when nothing was remembered. -/
theorem Within.length_events_le {w : ω} {w' : Traced ω} (h : Within n (.fresh w) w') :
    w'.events.length ≤ n := by
  obtain ⟨es, hadds, hlength⟩ := h
  rwa [hadds.events_eq]

end Counting

/-! ## Chips -/

section Chips

variable [Spi.Bus ω]

/-- An instruction is selected, clocked byte by byte and released. -/
theorem within_execute (slot : Slot) (i : Instruction) (w : Traced ω) :
    Within (i.bytes.length + i.replyLength + 2) w (execute slot i w).2 := by
  obtain ⟨c, hinstructs, hadds⟩ := adds_execute slot i w
  obtain ⟨_, htried, _⟩ := hinstructs.tried
  refine ⟨c.events, hadds, ?_⟩
  rw [c.length_events, ← i.length_clocked]
  exact Nat.add_le_add_right htried.length_moves_le 2

theorem within_isBusy (slot : Slot) (w : Traced ω) : Within 4 w (isBusy slot w).2 :=
  within_execute slot .readStatus w

theorem within_waitIdle (slot : Slot) (polls : Nat) (w : Traced ω) :
    Within (4 * polls) w (waitIdle slot polls w).2 := by
  induction polls generalizing w with
  | zero => exact within_refl w
  | succ polls ih =>
    have hone := within_isBusy slot w
    rw [waitIdle]
    generalize isBusy slot w = asked at hone ⊢
    obtain ⟨_ | _ | _, w'⟩ := asked
    · exact hone.mono (by omega)
    · exact hone.mono (by omega)
    · exact hone.trans (ih w') (by omega)

theorem within_readIdle (slot : Slot) (polls address length : Nat) (w : Traced ω) :
    Within (4 * polls + length + 6) w (Programmer.readIdle slot polls address length w).2 := by
  have hwaited := within_waitIdle slot polls w
  rw [Programmer.readIdle]
  generalize waitIdle slot polls w = waited at hwaited ⊢
  obtain ⟨_ | _, w'⟩ := waited
  · exact hwaited.mono (by omega)
  · have hread : Within (4 + length + 2) w' (readData slot address length w').2 :=
      within_execute slot (.readData address length) w'
    exact hwaited.trans hread (by omega)

theorem within_modify (slot : Slot) (i : Instruction) (w : Traced ω) :
    Within (i.bytes.length + i.replyLength + 5) w (Flash.modify slot i w).2 := by
  have henabled : Within 3 w (writeEnable slot w).2 := within_execute slot .writeEnable w
  rw [Flash.modify]
  generalize writeEnable slot w = enabled at henabled ⊢
  obtain ⟨_ | _, w'⟩ := enabled
  · exact henabled.mono (by omega)
  · exact henabled.trans (within_execute slot i w') (by omega)

theorem within_startPageProgram (slot : Slot) (address : Nat) (data : List UInt8) (w : Traced ω) :
    Within (data.length + 9) w (startPageProgram slot address data w).2 := by
  have hlength : (Instruction.pageProgram address data).bytes.length = data.length + 4 := by
    simp [Instruction.bytes, Instruction.pageProgram]
    omega
  have hmodified := within_modify slot (.pageProgram address data) w
  rw [hlength] at hmodified
  exact hmodified

/-! ### Identifying -/

theorem within_readSfdp (slot : Slot) (address length : Nat) (w : Traced ω) :
    Within (length + 7) w (readSfdp slot address length w).2 := by
  have hread : Within (5 + length + 2) w (readSfdp slot address length w).2 :=
    within_execute slot (.readSfdp address length) w
  exact hread.mono (by omega)

theorem within_findBasic (slot : Slot) (n address : Nat) (w : Traced ω) :
    Within (15 * n) w (Sfdp.findBasic (readSfdp slot) n address w).2 := by
  induction n generalizing address w with
  | zero => exact within_refl w
  | succ n ih =>
    have hread : Within 15 w (readSfdp slot address Sfdp.headerLength w).2 :=
      within_readSfdp slot address Sfdp.headerLength w
    rw [Sfdp.findBasic]
    generalize readSfdp slot address Sfdp.headerLength w = read at hread ⊢
    obtain ⟨_ | bs, w'⟩ := read
    · exact hread.mono (by omega)
    · simp only
      split
      · exact hread.mono (by omega)
      · exact hread.trans (ih (address + Sfdp.headerLength) w') (by omega)

/-- A header, at most 256 parameter headers, and at most 64 bytes of a table. -/
theorem within_discover (slot : Slot) (w : Traced ω) :
    Within (15 + 15 * 256 + 71) w (Sfdp.discover (readSfdp slot) w).2 := by
  have hread : Within 15 w (readSfdp slot 0 Sfdp.headerLength w).2 :=
    within_readSfdp slot 0 Sfdp.headerLength w
  rw [Sfdp.discover]
  generalize readSfdp slot 0 Sfdp.headerLength w = read at hread ⊢
  obtain ⟨_ | bs, w'⟩ := read
  · exact hread.mono (by omega)
  · simp only
    cases hheader : Sfdp.Header.parse bs with
    | error e => exact hread.mono (by omega)
    | ok header =>
      have hcount := Sfdp.Header.parameterHeaders_le hheader
      simp only
      split
      · have hfound := within_findBasic slot header.parameterHeaders Sfdp.headerLength w'
        generalize Sfdp.findBasic (readSfdp slot) _ _ w' = found at hfound ⊢
        obtain ⟨_ | basic, w''⟩ := found
        · exact hread.trans hfound (by omega)
        · have htable : Within 71 w'' (Sfdp.readTable (readSfdp slot) basic w'').2 := by
            have hlength : 4 * min basic.lengthWords Sfdp.maxTableWords ≤ 64 := by
              rw [Sfdp.maxTableWords]
              omega
            have htold := within_readSfdp slot basic.pointer
              (4 * min basic.lengthWords Sfdp.maxTableWords) w''
            rw [Sfdp.readTable]
            generalize readSfdp slot basic.pointer _ w'' = read at htold ⊢
            obtain ⟨_ | table, w₃⟩ := read <;> exact htold.mono (by omega)
          exact (hread.trans hfound (Nat.le_refl _)).trans htable (by omega)
      · exact hread.mono (by omega)

theorem within_identify (slot : Slot) (w : Traced ω) : Within 3932 w (identify slot w).2 := by
  have hread : Within 6 w (readId slot w).2 := within_execute slot .readId w
  rw [identify_eq]
  refine hread.trans (m := 3926) ?_ (Nat.le_refl _)
  generalize (readId slot w).2 = w'
  rw [resolve]
  split
  · exact within_same w'
  · have hwalked := within_discover slot w'
    generalize Sfdp.discover (readSfdp slot) w' = walked at hwalked ⊢
    obtain ⟨_ | _, w''⟩ := walked <;> exact hwalked

end Chips

theorem within_pulseReset [ResetLine ω] (w : Traced ω) : Within 2 w (pulseReset w) := by
  have hlow : Within 1 w (ResetLine.drive .low w).2 := ⟨[_], rfl, Nat.le_refl 1⟩
  have hhigh : Within 1 (ResetLine.drive .low w).2 (pulseReset w) := ⟨[_], rfl, Nat.le_refl 1⟩
  exact hlow.trans hhigh (Nat.le_refl 2)

/-! ## The controller -/

section Controllers

variable [Controller ω]

theorem within_perform (a : Usb.Action) (w : Traced ω) :
    Within 1 w (Controller.perform a w).2 := ⟨[_], adds_perform a w, Nat.le_refl 1⟩

theorem within_readFifo (ep : Endpoint) (n : Nat) (w : Traced ω) :
    Within n w (readFifo ep n w).2 := by
  have htake : ∀ width (w : Traced ω), Within 1 w (take ep width w).2 :=
    fun width w => within_perform (.fifoRead ep width) w
  induction n using Nat.strongRecOn generalizing w with
  | _ n ih =>
    match n with
    | 0 => exact within_refl w
    | 1 => exact htake .byte w
    | 2 => exact (htake .half w).mono (by omega)
    | 3 => exact (htake .half w).trans (htake .byte _) (by omega)
    | n + 4 => exact (htake .word w).trans (ih n (by omega) _) (by omega)

theorem within_writeFifo (ep : Endpoint) (data : List UInt8) (w : Traced ω) :
    Within data.length w (writeFifo ep data w) := by
  have hput : ∀ width bs (w : Traced ω), Within 1 w (put ep width bs w) :=
    fun width bs w => within_perform (.fifoWrite ep width _) w
  fun_induction writeFifo ep data w with
  | case1 w => exact within_refl w
  | case2 => exact hput _ _ _
  | case3 => exact (hput _ _ _).mono (by simp)
  | case4 => exact (hput _ _ _).trans (hput _ _ _) (by simp)
  | case5 a b c d rest w ih =>
    refine (hput _ _ _).trans ih ?_
    simp only [List.length_cons]
    omega

theorem within_rxPending (ep : UInt8) (p : Link (Traced ω)) :
    Within 1 p.hw (p.rxPending ep).2.hw := by
  rw [Link.rxPending]
  split
  · exact within_same p.hw
  · next e _ =>
    split
    · exact within_perform (.rxReady e) p.hw
    · exact within_same p.hw

/-- A packet is waited for, counted, read, dropped as far as there is no room, and released. -/
theorem within_readPacket (ep : UInt8) (room : Nat) (p : Link (Traced ω)) :
    Within (p.device.budget.usbSpins + room + 67) p.hw (p.readPacket ep room).2.hw := by
  rw [Link.readPacket]
  split
  · exact within_same p.hw
  · next e _ =>
    obtain ⟨es, hwaited, hadds⟩ := waited_awaitPacket e p.device.budget.usbSpins p
    have hawait : Within (p.device.budget.usbSpins + 1) p.hw
        (Link.awaitPacket e p.device.budget.usbSpins p).2.hw := ⟨es, hadds, hwaited.length_le⟩
    generalize Link.awaitPacket e p.device.budget.usbSpins p = awaited at hawait ⊢
    obtain ⟨_ | _, q⟩ := awaited
    · exact hawait.mono (by omega)
    · have htaken : Within (room + 66) q.hw (q.takePacket e room).2.hw := by
        have hcount := within_perform (.rxCount e) q.hw
        change Within 1 q.hw (q.ask (.rxCount e)).2.hw at hcount
        rw [Link.takePacket]
        generalize q.ask (.rxCount e) = counted at hcount ⊢
        obtain ⟨available, r⟩ := counted
        have hread := within_readFifo e (min available.toNat room) r.hw
        simp only
        generalize readFifo e (min available.toNat room) r.hw = read at hread ⊢
        obtain ⟨bs, w⟩ := read
        have hdropped := within_readFifo e
          (min (available.toNat - min available.toNat room) maxPacket) w
        refine ((hcount.trans hread (Nat.le_refl _)).trans hdropped (Nat.le_refl _)).trans
          (within_perform (.rxDone e false) _) ?_
        rw [maxPacket]
        omega
      exact hawait.trans htaken (by omega)

theorem within_gather (ep : UInt8) (fuel need : Nat) (p : Link (Traced ω)) :
    Within (fuel * (p.device.budget.usbSpins + need + 67)) p.hw
      (Link.gather ep fuel need p).2.hw := by
  induction fuel generalizing need p with
  | zero => exact within_same p.hw
  | succ fuel ih =>
    rw [Link.gather]
    split
    · exact within_same p.hw
    · have hread := within_readPacket ep need p
      have hdevice := (talks_readPacket ep need p).device_eq
      generalize p.readPacket ep need = read at hread hdevice ⊢
      obtain ⟨_ | bs, q⟩ := read
      · exact hread.mono (by rw [Nat.succ_mul]; omega)
      · simp only
        split
        · exact hread.mono (by rw [Nat.succ_mul]; omega)
        · have hrest := ih (need - bs.length) q
          simp only at hdevice
          rw [hdevice] at hrest
          have hless : p.device.budget.usbSpins + (need - bs.length) + 67 ≤
              p.device.budget.usbSpins + need + 67 := by omega
          refine hread.trans (hrest.mono (Nat.mul_le_mul_left fuel hless)) ?_
          rw [Nat.succ_mul]
          omega

/-- Each packet is waited for, added and committed. -/
theorem within_sendPackets (ep : UInt8) (e : Endpoint) (packets : List (List UInt8))
    (p : Link (Traced ω)) :
    Within (packets.length * (p.device.budget.usbSpins + 2) + packets.flatten.length) p.hw
      (Link.sendPackets ep e packets p).2.hw := by
  induction packets generalizing p with
  | nil => exact within_same p.hw
  | cons packet rest ih =>
    obtain ⟨es, hwaited, hadds⟩ := waited_awaitCollected e p.device.budget.usbSpins p
    have hawait : Within (p.device.budget.usbSpins + 1) p.hw
        (Link.awaitCollected e p.device.budget.usbSpins p).2.hw := ⟨es, hadds, hwaited.length_le⟩
    have hdevice := (talks_awaitCollected e p.device.budget.usbSpins p).device_eq
    rw [Link.sendPackets]
    generalize Link.awaitCollected e p.device.budget.usbSpins p = awaited at hawait hdevice ⊢
    obtain ⟨_ | _, q⟩ := awaited
    · refine hawait.mono ?_
      rw [List.length_cons, Nat.succ_mul]
      omega
    · have hwritten := within_writeFifo e packet q.hw
      have hcommitted := within_perform (.txReady e false) (writeFifo e packet q.hw)
      have hrest := ih (({ q with hw := writeFifo e packet q.hw } : Link _).tell (.txReady e false))
      have hbudget : (({ q with hw := writeFifo e packet q.hw } : Link _).tell
          (.txReady e false)).device.budget = p.device.budget := congrArg Device.budget hdevice
      rw [hbudget] at hrest
      refine ((hawait.trans hwritten (Nat.le_refl _)).trans hcommitted (Nat.le_refl _)).trans
        hrest ?_
      rw [List.length_cons, Nat.succ_mul, List.flatten_cons, List.length_append]
      omega

theorem within_write (ep : UInt8) (data : List UInt8) (p : Link (Traced ω)) :
    Within ((packets data).length * (p.device.budget.usbSpins + 2) + data.length) p.hw
      (p.write ep data).2.hw := by
  rw [Link.write]
  split
  · exact within_same p.hw
  · next e _ =>
    have hsent := within_sendPackets ep e (packets data) p
    rwa [flatten_packets] at hsent

theorem within_stallEndpoint (ep : UInt8) (dir : Direction) (p : Link (Traced ω)) :
    Within 1 p.hw (p.stallEndpoint ep dir).hw := by
  rw [Link.stallEndpoint]
  split
  · exact within_same p.hw
  · next e _ => exact within_perform (.stall e dir) p.hw

end Controllers

end FlashProgrammer.Trace

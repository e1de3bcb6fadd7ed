import FlashProgrammer.Proofs.Usb.Packets
import FlashProgrammer.Proofs.Usb.RoutineActions

/-!
# The discipline of FIFOs

A controller lets the firmware take more bytes than a packet has, add more than a buffer holds or
release a packet that is not there.  The firmware must not do so.  `Mode.after` is the discipline it
keeps: bytes are taken of a packet that was counted and no more than that, a bulk packet is counted
only after it was found waiting, and bytes are added only to a buffer that was found free, no more
than a packet of 64.  A transfer that was begun is finished before anything else is asked for.

`Follows m w m' w'` says that the actions between two moments take the discipline from one mode to
another, on any hardware.  Every function of the device keeps it, so every operation does.
-/

namespace FlashProgrammer.Usb

/-! ## Modes -/

/-- Where the firmware is in its use of the FIFOs. -/
inductive Mode where
  /-- Nothing is known. -/
  | rest
  /-- A packet was found waiting. -/
  | full (ep : Endpoint)
  /-- A packet is being taken, and so many of its bytes are left. -/
  | taking (ep : Endpoint) (left : Nat)
  /-- A packet is being built, of so many bytes so far. -/
  | building (ep : Endpoint) (length : Nat)
deriving DecidableEq, Repr

namespace Mode

/-- No packet is being taken or built. -/
def isOpen : Mode → Bool
  | rest | full _ => true
  | _ => false

/-- The mode after a halt is set or cleared.  A request does so while its own SETUP packet is being
taken. -/
def afterHalt : Mode → Option Mode
  | taking e left => if e = .control then some (.taking e left) else none
  | m => if m.isOpen then some .rest else none

/-- The mode after an action and its answer, if the discipline allows the action. -/
def after (m : Mode) : (a : Action) → a.Reply → Option Mode
  | .rxReady ep, ready => if m.isOpen then some (if ready then .full ep else .rest) else none
  | .rxCount ep, count =>
    if m = .full ep ∨ m.isOpen ∧ ep = .control then some (.taking ep count.toNat) else none
  | .fifoRead ep width, _ =>
    match m with
    | taking e left =>
      if e = ep ∧ width.bytes ≤ left then some (.taking ep (left - width.bytes)) else none
    | _ => none
  | .rxDone ep _, _ =>
    match m with
    | taking e _ => if e = ep then some .rest else none
    | _ => none
  | .txBusy ep, busy => if m.isOpen then some (if busy then .rest else .building ep 0) else none
  | .fifoWrite ep width _, _ =>
    match m with
    | building e n =>
      if e = ep ∧ n + width.bytes ≤ maxPacket then some (.building ep (n + width.bytes)) else none
    | _ => none
  | .txReady ep _, _ =>
    match m with
    | building e _ => if e = ep then some .rest else none
    | _ => none
  | .stall .., _ | .clearStall .., _ => m.afterHalt
  | _, _ => if m.isOpen then some .rest else none

end Mode

/-- An action that is allowed whenever no packet is being taken or built. -/
def Action.plain : Action → Bool
  | rxCount _ | fifoRead .. | rxDone .. | fifoWrite .. | txReady .. | txBusy _ => false
  | _ => true

variable {ω : Type} [Controller ω]

/-- Between two moments the actions took the discipline from one mode to another. -/
inductive Follows (m : Mode) (w : ω) : Mode → ω → Prop where
  | refl : Follows m w m w
  | step {m' m'' : Mode} {w' : ω} (h : Follows m w m' w') (a : Action)
      (ha : m'.after a (Controller.perform a w').1 = some m'') :
      Follows m w m'' (Controller.perform a w').2

theorem Follows.trans {l m n : Mode} {u v w : ω} (huv : Follows l u m v) (hvw : Follows m v n w) :
    Follows l u n w := by
  induction hvw with
  | refl => exact huv
  | step _ a ha ih => exact .step ih a ha

theorem follows_perform {m m' : Mode} {a : Action} {w : ω}
    (ha : m.after a (Controller.perform a w).1 = some m') :
    Follows m w m' (Controller.perform a w).2 := .step .refl a ha

/-- The discipline leads from a mode to one in which no packet is being taken or built. -/
def Settles (m : Mode) (w w' : ω) : Prop := ∃ m' : Mode, m'.isOpen = true ∧ Follows m w m' w'

/-- The discipline was kept between two moments at which no packet was being taken or built. -/
def Keeps (w w' : ω) : Prop := ∀ m : Mode, m.isOpen = true → Settles m w w'

theorem keeps_refl (w : ω) : Keeps w w := fun m hm => ⟨m, hm, .refl⟩

theorem Settles.trans {m : Mode} {u v w : ω} (huv : Settles m u v) (hvw : Keeps v w) :
    Settles m u w := by
  obtain ⟨m', hm', hfirst⟩ := huv
  obtain ⟨m'', hm'', hrest⟩ := hvw m' hm'
  exact ⟨m'', hm'', hfirst.trans hrest⟩

theorem Keeps.trans {u v w : ω} (huv : Keeps u v) (hvw : Keeps v w) : Keeps u w :=
  fun m hm => (huv m hm).trans hvw

theorem Follows.settles {m m' : Mode} {u v w : ω} (huv : Follows m u m' v)
    (hvw : Settles m' v w) : Settles m u w := by
  obtain ⟨m'', hm'', hrest⟩ := hvw
  exact ⟨m'', hm'', huv.trans hrest⟩

/-- A transfer that is finished keeps the discipline. -/
theorem keeps_of_rest {w w' : ω} (h : ∀ m : Mode, m.isOpen = true → Follows m w .rest w') :
    Keeps w w' := fun m hm => ⟨.rest, rfl, h m hm⟩

theorem keeps_perform {a : Action} (ha : a.plain = true) (w : ω) :
    Keeps w (Controller.perform a w).2 := by
  intro m hm
  cases a with
  | rxReady ep =>
    refine ⟨_, ?_, follows_perform (if_pos hm)⟩
    split <;> rfl
  | rxCount | fifoRead | rxDone | fifoWrite | txReady | txBusy => cases ha
  | stall ep dir | clearStall ep dir =>
    refine ⟨.rest, rfl, follows_perform ?_⟩
    cases m with
    | rest | full => rfl
    | taking | building => cases hm
  | _ => exact ⟨.rest, rfl, follows_perform (if_pos hm)⟩

theorem keeps_of_attends {w w' : ω} (h : Attends w w') : Keeps w w' := by
  induction h with
  | refl => exact keeps_refl w
  | @step w' _ a ha ih =>
    refine ih.trans (keeps_perform ?_ w')
    cases a <;> first | rfl | cases ha

/-! ## Bytes -/

theorem follows_take (ep : Endpoint) (width : Width) {left : Nat} (h : width.bytes ≤ left) (w : ω) :
    Follows (.taking ep left) w (.taking ep (left - width.bytes)) (take ep width w).2 :=
  follows_perform (a := .fifoRead ep width) (if_pos ⟨rfl, h⟩)

theorem follows_readFifo (ep : Endpoint) {n left : Nat} (h : n ≤ left) (w : ω) :
    Follows (.taking ep left) w (.taking ep (left - n)) (readFifo ep n w).2 := by
  fun_induction readFifo ep n w generalizing left with
  | case1 => exact .refl
  | case2 w => exact follows_take ep .byte h w
  | case3 w => exact follows_take ep .half h w
  | case4 w bs w' hbs b w'' hb =>
    have hhalf := follows_take ep .half (show 2 ≤ left by omega) w
    have hbyte := follows_take ep .byte (show 1 ≤ left - 2 by omega) w'
    rw [hbs] at hhalf
    rw [hb] at hbyte
    exact hhalf.trans hbyte
  | case5 n w bs w' hbs rest w'' hrest ih =>
    have hword := follows_take ep .word (show 4 ≤ left by omega) w
    have hothers := ih (show n ≤ left - 4 by omega)
    rw [hbs] at hword
    rw [hrest, show left - 4 - n = left - n.succ.succ.succ.succ by omega] at hothers
    exact hword.trans hothers

theorem follows_put (ep : Endpoint) (width : Width) {n : Nat} (h : n + width.bytes ≤ maxPacket)
    (bs : List UInt8) (w : ω) :
    Follows (.building ep n) w (.building ep (n + width.bytes)) (put ep width bs w) :=
  follows_perform (a := .fifoWrite ep width (valueOfBytes width bs)) (if_pos ⟨rfl, h⟩)

theorem follows_writeFifo (ep : Endpoint) (data : List UInt8) {n : Nat}
    (h : n + data.length ≤ maxPacket) (w : ω) :
    Follows (.building ep n) w (.building ep (n + data.length)) (writeFifo ep data w) := by
  fun_induction writeFifo ep data w generalizing n with
  | case1 => exact .refl
  | case2 a w => exact follows_put ep .byte h [a] w
  | case3 a b w => exact follows_put ep .half h [a, b] w
  | case4 a b c w =>
    simp only [List.length_cons, List.length_nil] at h ⊢
    have hhalf := follows_put ep .half (show n + 2 ≤ maxPacket by omega) [a, b] w
    exact hhalf.trans (follows_put ep .byte (show n + 2 + 1 ≤ maxPacket by omega) [c] _)
  | case5 a b c d rest w ih =>
    simp only [List.length_cons] at h ⊢
    have hword := follows_put ep .word (show n + 4 ≤ maxPacket by omega)
      [a, b, c, d] w
    have hothers := ih (n := n + 4) (by omega)
    rw [show n + 4 + rest.length = n + (rest.length + 1 + 1 + 1 + 1) by omega] at hothers
    exact hword.trans hothers

/-- A packet is released, however much of it was taken. -/
theorem follows_rxDone {ep : Endpoint} {left : Nat} (dataEnd : Bool) (w : ω) :
    Follows (.taking ep left) w .rest (tell (.rxDone ep dataEnd) w) :=
  follows_perform (a := .rxDone ep dataEnd) (if_pos rfl)

/-- A packet of at most 64 bytes is built and committed. -/
theorem follows_commit {ep : Endpoint} {packet : List UInt8} (h : packet.length ≤ maxPacket)
    (last : Bool) (w : ω) :
    Follows (.building ep 0) w .rest (tell (.txReady ep last) (writeFifo ep packet w)) := by
  have hbuilt := follows_writeFifo ep packet (n := 0) (by omega) w
  exact hbuilt.trans (follows_perform (a := .txReady ep last) (if_pos rfl))

namespace Link

theorem keeps_tell {a : Action} (ha : a.plain = true) (p : Link ω) : Keeps p.hw (p.tell a).hw :=
  keeps_perform ha p.hw

theorem keeps_ask {a : Action} (ha : a.plain = true) (p : Link ω) : Keeps p.hw (p.ask a).2.hw :=
  keeps_perform ha p.hw

/-! ## Data stages -/

/-- A buffer that is busy is left alone, and one that is free is the start of a packet. -/
theorem follows_txBusy {m : Mode} (hm : m.isOpen = true) (ep : Endpoint) (p : Link ω) :
    Follows m p.hw (if (p.ask (.txBusy ep)).1 then .rest else .building ep 0)
      (p.ask (.txBusy ep)).2.hw :=
  follows_perform (a := .txBusy ep) (if_pos hm)

theorem keeps_stallControl (p : Link ω) : Keeps p.hw p.stallControl.hw :=
  keeps_perform (a := .stall .control .toHost) rfl p.hw

theorem length_nextPacket_le (d : Device) : d.nextPacket.length ≤ maxPacket := by
  simp only [Device.nextPacket, Payload.slice_eq, List.length_take]
  omega

theorem keeps_continueIn (p : Link ω) : Keeps p.hw p.continueIn.hw := by
  refine keeps_of_rest fun m hm => ?_
  have hbusy := follows_txBusy hm .control p
  rw [continueIn_eq]
  generalize p.ask (.txBusy .control) = asked at hbusy ⊢
  obtain ⟨_ | _, q⟩ := asked
  · exact hbusy.trans (follows_commit (length_nextPacket_le q.device) q.device.nextIsLast q.hw)
  · exact hbusy

theorem keeps_dataOutComplete (p : Link ω) : Keeps p.hw p.dataOutComplete.hw := by
  rw [dataOutComplete]
  simp only
  split
  · exact keeps_stallControl _
  · exact keeps_refl p.hw

/-- Whatever waits on endpoint 0 may be counted. -/
theorem follows_rxCount_control {m : Mode} (hm : m.isOpen = true) (p : Link ω) :
    Follows m p.hw (.taking .control (p.ask (.rxCount .control)).1.toNat)
      (p.ask (.rxCount .control)).2.hw :=
  follows_perform (a := .rxCount .control) (if_pos (.inr ⟨hm, rfl⟩))

theorem keeps_continueOut (p : Link ω) : Keeps p.hw p.continueOut.hw := by
  have hready := p.keeps_ask (a := .rxReady .control) rfl
  rw [continueOut_eq]
  generalize p.ask (.rxReady .control) = asked at hready ⊢
  obtain ⟨_ | _, q⟩ := asked
  · exact hready
  · have hreceived : Keeps q.hw (q.counted.2.receiveNext q.counted.1).hw := by
      refine keeps_of_rest fun m hm => ?_
      have hcount := follows_rxCount_control hm q
      have hread := follows_readFifo .control
        (Nat.min_le_left (q.ask (.rxCount .control)).1.toNat maxPacket)
        (q.ask (.rxCount .control)).2.hw
      exact (hcount.trans hread).trans (follows_rxDone _ _)
    simp only [if_true]
    split
    · exact (hready.trans hreceived).trans (keeps_dataOutComplete _)
    · exact hready.trans hreceived

/-! ## Requests -/

/-- The packet that a request came in is released, and then the request is carried out. -/
theorem settles_carryOut (s : Setup) (reply : ControlReply) {left : Nat} (p : Link ω) :
    Settles (.taking .control left) p.hw (p.carryOut s reply).hw := by
  have hreleased : ∀ last, Settles (.taking .control left) p.hw
      (p.tell (.rxDone .control last)).hw :=
    fun last => ⟨.rest, rfl, follows_rxDone last p.hw⟩
  cases reply with
  | noData => exact hreleased true
  | stall => exact (hreleased true).trans (keeps_stallControl _)
  | data payload =>
    rw [carryOut_data]
    split
    · exact hreleased true
    · exact (hreleased false).trans (keeps_continueIn (p.dataInStage s payload))
  | receive =>
    rw [carryOut_receive]
    split
    · exact (hreleased true).trans (keeps_dataOutComplete _)
    · exact hreleased false

/-- A request sets or clears a halt while its packet is being taken. -/
theorem follows_standardRequest {s : Setup} (hkind : s.kind = .standard) {left : Nat}
    (p : Link ω) :
    Follows (.taking .control left) p.hw (.taking .control left) (p.standardRequest s).2.hw := by
  rcases standardRequest_cases hkind p with ⟨c, _, hobeyed⟩ | ⟨_, _, _, hchosen⟩ | ⟨_, _, hsame, _⟩
  · obtain ⟨ep, dir, halts⟩ := c
    rw [hobeyed, hw_obey]
    cases halts with
    | true => exact follows_perform (a := .stall ep dir) rfl
    | false => exact follows_perform (a := .clearStall ep dir) rfl
  · rw [hchosen, hw_setConfiguration]
    exact .refl
  · rw [hsame]
    exact .refl

theorem settles_handleSetup (s : Setup) {left : Nat} (p : Link ω) :
    Settles (.taking .control left) p.hw (p.handleSetup s).hw := by
  have hrefused : Settles (.taking .control left) p.hw
      (carryOut s .stall { p with device.setup := some s }).hw := settles_carryOut s .stall _
  rw [handleSetup]
  cases hkind : s.kind with
  | standard =>
    exact (follows_standardRequest hkind { p with device.setup := some s }).settles
      (settles_carryOut s _ _)
  | deviceClass | vendor | reserved => exact hrefused

/-- Whatever waits outside a transfer is taken. -/
theorem keeps_receiveSetup (p : Link ω) : Keeps p.hw p.receiveSetup.hw := by
  intro m hm
  have hcount := follows_rxCount_control hm p
  rw [receiveSetup]
  generalize p.ask (.rxCount .control) = asked at hcount ⊢
  obtain ⟨available, q⟩ := asked
  simp only at hcount ⊢
  split
  · next hsize =>
    have hread := follows_readFifo .control (Nat.le_of_eq hsize.symm) q.hw
    exact hcount.settles (hread.settles (settles_handleSetup _
      (p := { q with hw := (readFifo .control Setup.size q.hw).2 })))
  · have hreleased : Settles (.taking .control available.toNat) q.hw
        (q.tell (.rxDone .control true)).hw := ⟨.rest, rfl, follows_rxDone true q.hw⟩
    exact hcount.settles (hreleased.trans (keeps_stallControl _))

/-! ## Endpoint 0 -/

theorem keeps_completeStatus (p : Link ω) : Keeps p.hw p.completeStatus.hw :=
  keeps_of_attends p.attends_completeStatus

theorem keeps_caughtUp (p : Link ω) : Keeps p.hw p.caughtUp.hw := by
  have hask := p.keeps_ask (a := .controlEvents) rfl
  rcases p.caughtUp_cases with ⟨_, hcaught⟩ | ⟨_, _, hcaught⟩ | ⟨_, _, hcaught⟩
  · rw [hcaught]
    exact hask
  · rw [hcaught]
    exact hask.trans (keeps_completeStatus _)
  · rw [hcaught]
    exact hask

theorem keeps_serviceControl (p : Link ω) : Keeps p.hw p.serviceControl.hw := by
  have hcaught := p.keeps_caughtUp
  rw [serviceControl_eq]
  split
  · exact hcaught.trans (keeps_continueIn _)
  · exact hcaught.trans (keeps_continueOut _)
  · exact hcaught
  · have hready := p.caughtUp.keeps_ask (a := .rxReady .control) rfl
    generalize p.caughtUp.ask (.rxReady .control) = asked at hready ⊢
    obtain ⟨_ | _, q⟩ := asked
    · exact hcaught.trans hready
    · exact (hcaught.trans hready).trans (keeps_receiveSetup q)

/-! ## Interrupts -/

theorem keeps_onInterrupt (p : Link ω) : Keeps p.hw p.onInterrupt.hw := by
  rcases p.attends_onInterrupt with ⟨hattends, _⟩ | ⟨q, hattends, hserved, _⟩
  · exact keeps_of_attends hattends
  · rw [hserved]
    exact (keeps_of_attends hattends).trans q.keeps_serviceControl

/-! ## Bulk transfers -/

theorem keeps_stallEndpoint (ep : UInt8) (dir : Direction) (p : Link ω) :
    Keeps p.hw (p.stallEndpoint ep dir).hw := by
  rw [stallEndpoint]
  split
  · exact keeps_refl p.hw
  · next e _ => exact keeps_perform (a := .stall e dir) rfl p.hw

theorem keeps_rxPending (ep : UInt8) (p : Link ω) : Keeps p.hw (p.rxPending ep).2.hw := by
  rw [rxPending]
  split
  · exact keeps_refl p.hw
  · next e _ =>
    split
    · exact p.keeps_ask (a := .rxReady e) rfl
    · exact keeps_refl p.hw

/-- A packet that was waited for is there to be taken. -/
theorem follows_awaitPacket {m : Mode} (hm : m.isOpen = true) (ep : Endpoint) (spins : Nat)
    (p : Link ω) :
    Follows m p.hw (if (awaitPacket ep spins p).1 then .full ep else .rest)
      (awaitPacket ep spins p).2.hw := by
  have hask : ∀ {m : Mode}, m.isOpen = true → ∀ q : Link ω,
      Follows m q.hw (if (q.ask (.rxReady ep)).1 then .full ep else .rest)
        (q.ask (.rxReady ep)).2.hw :=
    fun hm q => follows_perform (a := .rxReady ep) (if_pos hm)
  induction spins generalizing m p with
  | zero => exact hask hm p
  | succ spins ih =>
    have hfirst := hask hm p
    rw [awaitPacket]
    generalize p.ask (.rxReady ep) = asked at hfirst ⊢
    obtain ⟨_ | _, q⟩ := asked
    · exact hfirst.trans (ih rfl q)
    · exact hfirst

theorem follows_takePacket (ep : Endpoint) (room : Nat) (p : Link ω) :
    Follows (.full ep) p.hw .rest (p.takePacket ep room).2.hw := by
  have hcount : Follows (.full ep) p.hw (.taking ep (p.ask (.rxCount ep)).1.toNat)
      (p.ask (.rxCount ep)).2.hw :=
    follows_perform (a := .rxCount ep) (if_pos (.inl rfl))
  rw [takePacket]
  generalize p.ask (.rxCount ep) = asked at hcount ⊢
  obtain ⟨available, q⟩ := asked
  have hkept := follows_readFifo ep (Nat.min_le_left available.toNat room) q.hw
  have hdropped := follows_readFifo ep
    (show min (available.toNat - min available.toNat room) maxPacket ≤
      available.toNat - min available.toNat room from Nat.min_le_left _ _)
    (readFifo ep (min available.toNat room) q.hw).2
  exact ((hcount.trans hkept).trans hdropped).trans (follows_rxDone false _)

theorem keeps_readPacket (ep : UInt8) (room : Nat) (p : Link ω) :
    Keeps p.hw (p.readPacket ep room).2.hw := by
  rw [readPacket]
  rcases p.bulkEndpoint ep .toDevice with _ | e
  · exact keeps_refl p.hw
  · refine keeps_of_rest fun m hm => ?_
    have hawait := follows_awaitPacket hm e p.device.budget.usbSpins p
    simp only
    generalize awaitPacket e p.device.budget.usbSpins p = awaited at hawait ⊢
    obtain ⟨_ | _, q⟩ := awaited
    · exact hawait
    · exact hawait.trans (follows_takePacket e room q)

theorem keeps_gather (ep : UInt8) (fuel need : Nat) (p : Link ω) :
    Keeps p.hw (p.gather ep fuel need).2.hw := by
  induction fuel generalizing need p with
  | zero => exact keeps_refl p.hw
  | succ fuel ih =>
    have hread := p.keeps_readPacket ep need
    rw [gather]
    split
    · exact keeps_refl p.hw
    · generalize p.readPacket ep need = read at hread ⊢
      obtain ⟨_ | bs, q⟩ := read
      · exact hread
      · simp only
        split
        · exact hread
        · exact hread.trans (ih _ q)

/-- A buffer that was waited for is free to be filled. -/
theorem follows_awaitCollected {m : Mode} (hm : m.isOpen = true) (ep : Endpoint) (spins : Nat)
    (p : Link ω) :
    Follows m p.hw (if (awaitCollected ep spins p).1 then .building ep 0 else .rest)
      (awaitCollected ep spins p).2.hw := by
  induction spins generalizing m p with
  | zero =>
    have hbusy := follows_txBusy hm ep p
    rw [awaitCollected]
    generalize p.ask (.txBusy ep) = asked at hbusy ⊢
    obtain ⟨_ | _, q⟩ := asked <;> exact hbusy
  | succ spins ih =>
    have hbusy := follows_txBusy hm ep p
    rw [awaitCollected]
    generalize p.ask (.txBusy ep) = asked at hbusy ⊢
    obtain ⟨_ | _, q⟩ := asked
    · exact hbusy
    · exact hbusy.trans (ih rfl q)

theorem keeps_sendPackets (ep : UInt8) (e : Endpoint) {packets : List (List UInt8)}
    (hpackets : ∀ packet ∈ packets, packet.length ≤ maxPacket) (p : Link ω) :
    Keeps p.hw (sendPackets ep e packets p).2.hw := by
  induction packets generalizing p with
  | nil => exact keeps_refl p.hw
  | cons packet rest ih =>
    have hawait : ∀ m : Mode, m.isOpen = true → Follows m p.hw _ _ :=
      fun m hm => follows_awaitCollected hm e p.device.budget.usbSpins p
    rw [sendPackets]
    generalize awaitCollected e p.device.budget.usbSpins p = awaited at hawait ⊢
    obtain ⟨_ | _, q⟩ := awaited
    · exact keeps_of_rest hawait
    · have hsent : Keeps p.hw
          ({ q with hw := writeFifo e packet q.hw }.tell (.txReady e false) : Link ω).hw :=
        keeps_of_rest fun m hm => (hawait m hm).trans
          (follows_commit (hpackets packet List.mem_cons_self) false q.hw)
      exact hsent.trans (ih (fun packet hin => hpackets packet (List.mem_cons_of_mem _ hin)) _)

theorem keeps_write (ep : UInt8) (data : List UInt8) (p : Link ω) :
    Keeps p.hw (p.write ep data).2.hw := by
  rw [write]
  rcases p.bulkEndpoint ep .toHost with _ | e
  · exact keeps_refl p.hw
  · exact keeps_sendPackets ep e (fun packet hin => length_le_of_mem_packets hin) p

end Link

/-- Every operation of the device keeps the discipline. -/
theorem Operation.keeps_run {op : Operation ω} (hop : ∀ f, op ≠ .outside f) (p : Link ω) :
    Keeps p.hw (op.run p).hw := by
  cases op with
  | attach =>
    exact (p.keeps_tell (a := .connect) rfl).trans (keeps_perform (a := .enableEvents _) rfl _)
  | detach =>
    exact (p.keeps_tell (a := .disconnect) rfl).trans (keeps_perform (a := .enableEvents _) rfl _)
  | interrupt => exact p.keeps_onInterrupt
  | takeWork => exact keeps_refl p.hw
  | rxPending ep => exact p.keeps_rxPending ep
  | readPacket ep room => exact p.keeps_readPacket ep room
  | fill ep buffer => exact p.keeps_gather ep buffer.length buffer.length
  | write ep data => exact p.keeps_write ep data
  | stallEndpoint ep dir => exact p.keeps_stallEndpoint ep dir
  | outside f => exact absurd rfl (hop f)

end FlashProgrammer.Usb

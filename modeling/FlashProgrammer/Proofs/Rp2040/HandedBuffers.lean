import FlashProgrammer.Proofs.Rp2040.ControlBuffers

/-!
# Handing buffers over

Each endpoint and direction has one word that hands its buffer over: it says whether the buffer is
the controller's, which of the two alternating packets it holds and how long that is.

`handedOver? a` is the buffer that the action `a` hands to the controller, if it hands one over, and
`due a x` is the packet that is next in turn then.  `bufferControl_of_handed`,
`sameButHalt_of_not_handed` and `toggle_tell` say for every action what becomes of every word and of
every alternation, so what is proved of these need not look at the actions one by one.
-/

namespace FlashProgrammer.Rp2040

open Usb

/-! ## Words -/

namespace BufferControl

/-- The buffer is the controller's. -/
def available (w : Word) : Bool := bit w availableBit

/-- Which of the two alternating packets it is. -/
def toggle (w : Word) : Bool := bit w toggleBit

/-- The buffer holds data. -/
def full (w : Word) : Bool := bit w fullBit

/-- The lowest ten bits are the length, and the others are as they were. -/
theorem bit_setLength (w : Word) (n : Nat) {i : Nat} (hi : i < 32) :
    bit (setLength w n) i = if i < 10 then n.testBit i else bit w i := by
  have hmask : (0x3FF#32).getLsbD i = decide (i < 10) := by
    rw [BitVec.getLsbD_ofNat, show 0x3FF = 2 ^ 10 - 1 by rfl, Nat.testBit_two_pow_sub_one]
    simp [hi]
  have hlength : (BitVec.ofNat 32 (n % 1024)).getLsbD i = (decide (i < 10) && n.testBit i) := by
    rw [BitVec.getLsbD_ofNat, show 1024 = 2 ^ 10 by rfl, Nat.testBit_mod_two_pow]
    simp [hi]
  rw [bit, bit, setLength, BitVec.getLsbD_or, BitVec.getLsbD_and, BitVec.getLsbD_not, hmask, hlength]
  by_cases h : i < 10 <;> simp [h, hi]

theorem testBit_length (w : Word) (i : Nat) :
    (length w).testBit i = (decide (i < 10) && bit w i) := by
  rw [length, show 1024 = 2 ^ 10 by rfl, Nat.testBit_mod_two_pow]
  rfl

theorem length_setBit (w : Word) {i : Nat} (b : Bool) (h : 10 ≤ i) :
    length (setBit w i b) = length w := by
  refine Nat.eq_of_testBit_eq fun j => ?_
  rw [testBit_length, testBit_length]
  by_cases hj : j < 10
  · rw [bit_setBit w i j b (by omega), if_neg (by omega)]
  · simp [hj]

theorem length_setLength (w : Word) (n : Nat) : length (setLength w n) = n % 1024 := by
  refine Nat.eq_of_testBit_eq fun j => ?_
  rw [testBit_length, show 1024 = 2 ^ 10 by rfl, Nat.testBit_mod_two_pow]
  by_cases hj : j < 10
  · rw [bit_setLength w n (by omega), if_pos hj]
  · simp [hj]

/-- Two words that differ at most in the halt of the endpoint. -/
def SameButHalt (w w' : Word) : Prop := ∀ i < 32, i ≠ stallBit → bit w' i = bit w i

theorem sameButHalt_refl (w : Word) : SameButHalt w w := fun _ _ _ => rfl

theorem sameButHalt_setBit (w : Word) (halted : Bool) :
    SameButHalt w (setBit w stallBit halted) := by
  intro i hi hne
  rw [bit_setBit _ _ _ _ hi, if_neg (Ne.symm hne)]

namespace SameButHalt

variable {u v w : Word}

theorem trans (huv : SameButHalt u v) (hvw : SameButHalt v w) : SameButHalt u w :=
  fun i hi hne => (hvw i hi hne).trans (huv i hi hne)

theorem available_eq (h : SameButHalt v w) : available w = available v :=
  h availableBit (by decide) (by decide)

theorem toggle_eq (h : SameButHalt v w) : toggle w = toggle v :=
  h toggleBit (by decide) (by decide)

theorem length_eq (h : SameButHalt v w) : length w = length v := by
  refine Nat.eq_of_testBit_eq fun i => ?_
  rw [testBit_length, testBit_length]
  by_cases hi : i < 10
  · rw [h i (by omega) (by rw [stallBit]; omega)]
  · simp [hi]

end SameButHalt

end BufferControl

namespace Memory

/-- A word that hands a buffer over is as it was set, and the others are as they were. -/
theorem bufferControl_setWord_self (m : Memory) (n : Nat) (ep : Endpoint) (dir dir' : Direction)
    (w : Word) :
    (m.setWord (bufferControlOffset n dir) w).bufferControl ep dir' =
      if n = ep.val ∧ dir = dir' then w else m.bufferControl ep dir' := by
  have hlt := ep.isLt
  split
  · next h =>
    obtain ⟨rfl, rfl⟩ := h
    refine m.word_setWord_self w ?_
    cases dir <;> simp only [bufferControlOffset] <;> omega
  · next h =>
    refine m.word_setWord_ne w fun hsame => h ?_
    cases dir <;> cases dir' <;> simp only [bufferControlOffset] at hsame <;>
      first
        | exact ⟨by omega, rfl⟩
        | omega

theorem bufferControl_setBufferControl (m : Memory) (ep ep' : Endpoint) (dir dir' : Direction)
    (w : Word) :
    (m.setBufferControl ep dir w).bufferControl ep' dir' =
      if ep = ep' ∧ dir = dir' then w else m.bufferControl ep' dir' := by
  simp only [Fin.ext_iff]
  exact m.bufferControl_setWord_self ep.val ep' dir dir' w

/-- The words that hand buffers over lie between two offsets. -/
theorem bufferControl_setWord (m : Memory) {offset : Nat} (h : offset < 0x080 ∨ 0x0A0 ≤ offset)
    (w : Word) (ep : Endpoint) (dir : Direction) :
    (m.setWord offset w).bufferControl ep dir = m.bufferControl ep dir := by
  have hlt := ep.isLt
  refine m.word_setWord_ne w ?_
  cases dir <;> simp only [bufferControlOffset] <;> omega

theorem bufferOffset_ge (ep : Endpoint) (dir : Direction) : 0x100 ≤ bufferOffset ep dir := by
  rw [bufferOffset]
  split <;> omega

end Memory

namespace Adapter

/-! ## The word of a buffer that is handed over -/

theorem bit_armedWord (dir : Direction) (toggle : Bool) (length : Nat) {i : Nat} (hi : 10 ≤ i)
    (h : i < 32) :
    bit (armedWord dir toggle length) i =
      if BufferControl.availableBit = i then true
      else if BufferControl.fullBit = i then dir == .toHost
      else if BufferControl.toggleBit = i then toggle
      else bit (0 : Word) i := by
  rw [armedWord, bit_setBit _ _ _ _ h, bit_setBit _ _ _ _ h, BufferControl.bit_setLength _ _ h,
    if_neg (Nat.not_lt.mpr hi), bit_setBit _ _ _ _ h]

theorem available_armedWord (dir : Direction) (toggle : Bool) (length : Nat) :
    BufferControl.available (armedWord dir toggle length) = true :=
  bit_armedWord dir toggle length (by decide) (by decide)

theorem toggle_armedWord (dir : Direction) (toggle : Bool) (length : Nat) :
    BufferControl.toggle (armedWord dir toggle length) = toggle :=
  bit_armedWord dir toggle length (by decide) (by decide)

theorem length_armedWord (dir : Direction) (toggle : Bool) (length : Nat) :
    BufferControl.length (armedWord dir toggle length) = length % 1024 := by
  rw [armedWord, BufferControl.length_setBit _ _ (by decide),
    BufferControl.length_setBit _ _ (by decide), BufferControl.length_setLength]

/-! ## What an action does to the words -/

/-- The buffer that an action hands to the controller. -/
def handedOver? : Action → Option (Endpoint × Direction)
  | .rxDone ep dataEnd => some (ep, if ep = .control ∧ dataEnd then .toHost else .toDevice)
  | .txReady ep _ => some (ep, .toHost)
  | .configure ep .toDevice _ _ | .clearStall ep .toDevice =>
    if ep = .control then none else some (ep, .toDevice)
  | _ => none

/-- The bytes of the buffer that an action hands over. -/
def handedLength (a : Action) (x : Adapter) : Nat :=
  match a with
  | .rxDone ep dataEnd => if ep = .control ∧ dataEnd then 0 else x.maxPacket.get ep .toDevice
  | .txReady ep _ => x.staged.get ep
  | .configure _ _ maxPacket _ => min maxPacket Memory.bufferLength
  | .clearStall ep _ => x.maxPacket.get ep .toDevice
  | _ => 0

/-- The endpoint and direction whose alternation an action starts again. -/
def restarted? : Action → Option (Endpoint × Direction)
  | .configure ep dir _ _ | .clearStall ep dir => some (ep, dir)
  | _ => none

/-- The action finds that a SETUP packet has arrived. -/
def findsSetup (a : Action) (x : Adapter) : Bool :=
  match a with
  | .interrupts => bit (x.memory.get .interruptStatus) 16
  | _ => false

/-- The packet whose turn it is when an action is done, before it hands a buffer over. -/
def due (a : Action) (x : Adapter) (ep : Endpoint) (dir : Direction) : Bool :=
  if findsSetup a x ∧ ep = .control then true
  else if restarted? a = some (ep, dir) then false
  else x.toggle.get ep dir

/-- What an action has done before it hands a buffer over. -/
structure Prepares (a : Action) (x y : Adapter) : Prop where
  word : ∀ ep dir, BufferControl.SameButHalt (x.memory.bufferControl ep dir)
    (y.memory.bufferControl ep dir)
  toggle : ∀ ep dir, y.toggle.get ep dir = due a x ep dir

theorem setStaged_self (x : Adapter) (ep : Endpoint) : x.setStaged ep (x.staged.get ep) = x := by
  have hstaged : x.staged.set ep (x.staged.get ep) = x.staged := by
    refine PerEndpoint.ext_get fun ep' => ?_
    rw [PerEndpoint.get_set]
    split
    · next h => rw [h]
    · rfl
  rw [setStaged, hstaged]

theorem setStaged_setStaged (x : Adapter) (ep : Endpoint) (m n : Nat) :
    (x.setStaged ep m).setStaged ep n = x.setStaged ep n := by
  have hstaged : (x.staged.set ep m).set ep n = x.staged.set ep n := by
    refine PerEndpoint.ext_get fun ep' => ?_
    simp only [PerEndpoint.get_set]
    split <;> rfl
  simp only [setStaged, hstaged]

/-- Bytes are added to a buffer, all of them if there is room. -/
theorem pushBytes_eq (ep : Endpoint) (bs : List UInt8) (x : Adapter) :
    ∃ memory n, pushBytes ep bs x = { x.setStaged ep n with memory } ∧
      (∀ ep' dir, memory.bufferControl ep' dir = x.memory.bufferControl ep' dir) ∧
      (x.staged.get ep + bs.length ≤ Memory.bufferLength → n = x.staged.get ep + bs.length) := by
  fun_induction pushBytes ep bs x with
  | case1 x => exact ⟨x.memory, x.staged.get ep, by rw [setStaged_self], fun _ _ => rfl, fun _ => rfl⟩
  | case2 b bs x n hfull =>
    refine ⟨x.memory, x.staged.get ep, by rw [setStaged_self], fun _ _ => rfl, fun hroom => ?_⟩
    rw [List.length_cons] at hroom
    omega
  | case3 b bs x n hroom ih =>
    obtain ⟨memory, count, hpushed, hword, hcount⟩ := ih
    have hnext : ({ x with memory := x.memory.setByte (Memory.bufferOffset ep .toHost + n) b
        }.setStaged ep (n + 1)).staged.get ep = n + 1 := PerEndpoint.get_set_self ..
    have hoffset := Memory.bufferOffset_ge ep .toHost
    refine ⟨memory, count, ?_, fun ep' dir => ?_, fun hfits => ?_⟩
    · rw [hpushed]
      exact congrArg (fun y : Adapter => { y with memory }) (setStaged_setStaged x ep (n + 1) count)
    · exact (hword ep' dir).trans (x.memory.bufferControl_setWord (.inr (by omega)) _ ep' dir)
    · rw [List.length_cons] at hfits ⊢
      rw [hcount (by rw [hnext]; omega), hnext]
      omega

/-- Actions that have nothing to do with buffers, or only look at them. -/
def bufferless : Action → Bool
  | .controlEvents | .enableEvents _ | .connect | .disconnect | .setAddress _ | .rxReady _
  | .rxCount _ | .txBusy _ => true
  | _ => false

theorem write_memory (x : Adapter) (memory : Memory) (r : Register) (w : Word) :
    { x with memory }.write r w = { x with memory := memory.set r w } := rfl

theorem connect_eq (x : Adapter) :
    x.connect = { x with
      memory := (((x.memory.set .muxing (ofBits [0, 3])).set .power (ofBits [2, 3])).set .mainControl
        (ofBits [0])).set .sieControl (ofBits [29, 16]) } := by
  rw [connect, x.write_memory x.memory, x.write_memory, x.write_memory, x.write_memory]

theorem tell_of_bufferless {a : Action} (ha : bufferless a = true) (x : Adapter) :
    ∃ memory setupEnd, tell a x = { x with memory, setupEnd } ∧
      ∀ offset, memory.word offset = x.memory.word offset := by
  cases a with
  | controlEvents => exact ⟨x.memory, false, rfl, fun _ => rfl⟩
  | rxReady | rxCount | txBusy => exact ⟨x.memory, x.setupEnd, rfl, fun _ => rfl⟩
  | enableEvents events => exact ⟨_, x.setupEnd, x.write_memory x.memory _ _, fun _ => rfl⟩
  | disconnect => exact ⟨_, x.setupEnd, x.write_memory x.memory _ _, fun _ => rfl⟩
  | setAddress address => exact ⟨_, x.setupEnd, x.write_memory x.memory _ _, fun _ => rfl⟩
  | connect =>
    have hconnect : tell .connect x = x.connect := rfl
    refine ⟨_, x.setupEnd, hconnect.trans x.connect_eq, fun offset => ?_⟩
    simp only [Memory.set, Memory.word_setRegisterAt]
  | _ => cases ha

/-- An interrupt is read: registers change, and a SETUP packet may be accepted. -/
theorem interrupts_cases (x : Adapter) :
    ∃ memory : Memory, (∀ offset, memory.word offset = x.memory.word offset) ∧
      (findsSetup .interrupts x = false ∧ x.interrupts.2 = { x with memory } ∨
        findsSetup .interrupts x = true ∧
          ∃ s, x.interrupts.2 = acceptSetup { x with memory } s) := by
  obtain ⟨m₁, h₁, hword₁, _⟩ := acknowledge_eq (bit (x.memory.get .interruptStatus) 12) 19 x
  obtain ⟨m₂, h₂, hword₂, _⟩ :=
    acknowledge_eq (bit (x.memory.get .interruptStatus) 14) 4 { x with memory := m₁ }
  obtain ⟨m₃, h₃, hword₃, _⟩ :=
    acknowledge_eq (bit (x.memory.get .interruptStatus) 15) 11 { x with memory := m₂ }
  refine ⟨m₃, fun offset =>
    (hword₃ offset).trans ((hword₂ offset).trans (hword₁ offset)), ?_⟩
  simp only [interrupts, h₁, h₂, h₃, findsSetup]
  cases bit (x.memory.get .interruptStatus) 16 with
  | false => exact .inl ⟨rfl, rfl⟩
  | true => exact .inr ⟨rfl, _, rfl⟩

theorem bufferControl_modifyControl (x : Adapter) (ep ep' : Endpoint) (dir dir' : Direction)
    (f : Word → Word) :
    (x.modifyControl ep dir f).memory.bufferControl ep' dir' =
      if ep = ep' ∧ dir = dir' then f (x.memory.bufferControl ep dir)
      else x.memory.bufferControl ep' dir' :=
  x.memory.bufferControl_setBufferControl ep ep' dir dir' _

/-- Setting or clearing the halt of an endpoint changes no other bit. -/
theorem sameButHalt_modifyControl (x : Adapter) (ep ep' : Endpoint) (dir dir' : Direction)
    (halted : Bool) :
    BufferControl.SameButHalt (x.memory.bufferControl ep' dir')
      ((x.modifyControl ep dir fun w => setBit w BufferControl.stallBit halted).memory.bufferControl
        ep' dir') := by
  rw [bufferControl_modifyControl]
  split
  · next h =>
    obtain ⟨rfl, rfl⟩ := h
    exact BufferControl.sameButHalt_setBit _ halted
  · exact BufferControl.sameButHalt_refl _

theorem word_interrupts (x : Adapter) (offset : Nat) :
    x.interrupts.2.memory.word offset = x.memory.word offset := by
  obtain ⟨memory, hword, ⟨_, hread⟩ | ⟨_, s, hread⟩⟩ := x.interrupts_cases <;>
    · rw [hread]
      exact hword offset

theorem toggle_interrupts (x : Adapter) (ep : Endpoint) (dir : Direction) :
    x.interrupts.2.toggle.get ep dir = due .interrupts x ep dir := by
  obtain ⟨memory, _, ⟨hfinds, hread⟩ | ⟨hfinds, s, hread⟩⟩ := x.interrupts_cases
  · rw [due, hfinds, hread]
    rfl
  · rw [due, hfinds, hread]
    simp only [acceptSetup, setStaged, setCursor, write, PerDirection.get_set]
    by_cases hcontrol : ep = .control
    · subst hcontrol
      cases dir <;> simp
    · simp [hcontrol, Ne.symm hcontrol, restarted?]

/-- An action prepares, and then hands its buffer over if it has one. -/
def Prepared (a : Action) (x : Adapter) : Prop :=
  ∃ y, Prepares a x y ∧ tell a x =
    match handedOver? a with
    | some (ep, dir) => y.arm ep dir (handedLength a x)
    | none => y

theorem prepares_of_same {a : Action} {x y : Adapter} (hrestarted : restarted? a = none)
    (hfinds : findsSetup a x = false)
    (hword : ∀ offset, y.memory.word offset = x.memory.word offset)
    (htoggle : y.toggle = x.toggle) : Prepares a x y where
  word := fun ep dir => by
    rw [Memory.bufferControl, Memory.bufferControl, hword]
    exact BufferControl.sameButHalt_refl _
  toggle := fun ep dir => by
    rw [due, hfinds, hrestarted, htoggle]
    simp

theorem prepares_of_restarted {a : Action} {x y : Adapter} {ep : Endpoint} {dir : Direction}
    (hrestarted : restarted? a = some (ep, dir)) (hfinds : findsSetup a x = false)
    (hword : ∀ ep' dir', BufferControl.SameButHalt (x.memory.bufferControl ep' dir')
      (y.memory.bufferControl ep' dir'))
    (htoggle : y.toggle = x.toggle.set ep dir false) : Prepares a x y where
  word := hword
  toggle := fun ep' dir' => by
    rw [due, hfinds, hrestarted, htoggle, PerDirection.get_set]
    simp

/-- An action that hands nothing over only prepares. -/
theorem prepared_of_none {a : Action} {x : Adapter} (hnone : handedOver? a = none)
    (h : Prepares a x (tell a x)) : Prepared a x := ⟨tell a x, h, by rw [hnone]⟩

theorem prepared_of_bufferless {a : Action} (ha : bufferless a = true) (x : Adapter) :
    Prepared a x := by
  obtain ⟨memory, setupEnd, htell, hword⟩ := tell_of_bufferless ha x
  have hnone : handedOver? a = none ∧ restarted? a = none ∧ findsSetup a x = false := by
    cases a with
    | interrupts | configure | fifoRead | rxDone | fifoWrite | txReady | stall | clearStall =>
      cases ha
    | _ => exact ⟨rfl, rfl, rfl⟩
  refine prepared_of_none hnone.1 ?_
  rw [htell]
  exact prepares_of_same hnone.2.1 hnone.2.2 hword rfl

theorem prepared_rxDone (ep : Endpoint) (dataEnd : Bool) (x : Adapter) :
    Prepared (.rxDone ep dataEnd) x := by
  have hdone : tell (.rxDone ep dataEnd) x = x.rxDone ep dataEnd := rfl
  rw [Prepared, hdone, rxDone, handedOver?, handedLength]
  by_cases hcontrol : ep = .control
  · subst hcontrol
    cases dataEnd with
    | true =>
      exact ⟨{ x.setCursor .control 0 with setupPending := false }.setStaged .control 0,
        prepares_of_same rfl rfl (fun _ => rfl) rfl, rfl⟩
    | false =>
      exact ⟨{ x.setCursor .control 0 with setupPending := false }.setCursor .control 0,
        prepares_of_same rfl rfl (fun _ => rfl) rfl, rfl⟩
  · simp only [hcontrol, if_false, false_and]
    exact ⟨(x.setCursor ep 0).setCursor ep 0, prepares_of_same rfl rfl (fun _ => rfl) rfl, rfl⟩

/-- What setting an endpoint up does before it hands a buffer over. -/
def declared (x : Adapter) (ep : Endpoint) (dir : Direction) (maxPacket : Nat) : Adapter :=
  let x := { x with
    maxPacket := x.maxPacket.set ep dir (min maxPacket Memory.bufferLength)
    toggle := x.toggle.set ep dir false }
  if ep = .control then x
  else
    { x with
      memory := x.memory.setWord (Memory.endpointControlOffset ep.val dir) (endpointWord ep dir) }

theorem maxPacket_declared (ep : Endpoint) (dir : Direction) (maxPacket : Nat) (x : Adapter) :
    (x.declared ep dir maxPacket).maxPacket =
      x.maxPacket.set ep dir (min maxPacket Memory.bufferLength) := by
  rw [declared]
  split <;> rfl

theorem prepares_declared (ep : Endpoint) (dir : Direction) (maxPacket : Nat)
    (doubleBuffered : Bool) (x : Adapter) :
    Prepares (.configure ep dir maxPacket doubleBuffered) x (x.declared ep dir maxPacket) := by
  refine prepares_of_restarted rfl rfl (fun ep' dir' => ?_) ?_
  · rw [declared]
    split
    · exact BufferControl.sameButHalt_refl _
    · next hcontrol =>
      have hlt := ep.isLt
      have hpos : ep.val ≠ 0 := fun hzero => hcontrol (Fin.ext hzero)
      have hbelow : Memory.endpointControlOffset ep.val dir < 0x080 := by
        cases dir <;> simp only [Memory.endpointControlOffset] <;> omega
      have hword := x.memory.bufferControl_setWord (.inl hbelow) (endpointWord ep dir) ep' dir'
      simp only [hword]
      exact BufferControl.sameButHalt_refl _
  · rw [declared]
    split <;> rfl

theorem configure_eq (ep : Endpoint) (dir : Direction) (maxPacket : Nat) (x : Adapter) :
    x.configure ep dir maxPacket =
      if ep ≠ .control ∧ dir = .toDevice then (x.declared ep dir maxPacket).armOut ep
      else x.declared ep dir maxPacket := by
  rw [configure, declared]
  by_cases hcontrol : ep = .control
  · simp only [hcontrol, if_true, ne_eq, not_true, false_and, if_false]
  · cases dir <;> simp [hcontrol]

theorem prepared_configure (ep : Endpoint) (dir : Direction) (maxPacket : Nat)
    (doubleBuffered : Bool) (x : Adapter) :
    Prepared (.configure ep dir maxPacket doubleBuffered) x := by
  have hprepares := prepares_declared ep dir maxPacket doubleBuffered x
  have hdone : tell (.configure ep dir maxPacket doubleBuffered) x = x.configure ep dir maxPacket :=
    rfl
  rw [Prepared, hdone, configure_eq]
  by_cases hhands : ep ≠ .control ∧ dir = .toDevice
  · obtain ⟨hcontrol, rfl⟩ := hhands
    refine ⟨(x.declared ep .toDevice maxPacket).setCursor ep 0,
      ⟨hprepares.word, hprepares.toggle⟩, ?_⟩
    have hlength : (x.declared ep .toDevice maxPacket).maxPacket.get ep .toDevice =
        min maxPacket Memory.bufferLength := by
      rw [maxPacket_declared, PerDirection.get_set_self]
    rw [if_pos ⟨hcontrol, rfl⟩, armOut]
    simp only [handedOver?, handedLength, if_neg hcontrol, ← hlength]
  · refine ⟨x.declared ep dir maxPacket, hprepares, ?_⟩
    cases dir with
    | toHost => simp [handedOver?]
    | toDevice =>
      have hcontrol : ep = .control := Classical.byContradiction fun h => hhands ⟨h, rfl⟩
      simp [handedOver?, hcontrol]

theorem toggle_stall (ep : Endpoint) (dir : Direction) (x : Adapter) :
    (x.stall ep dir).toggle = x.toggle := by
  rw [stall]
  split <;> rfl

theorem prepared_stall (ep : Endpoint) (dir : Direction) (x : Adapter) :
    Prepared (.stall ep dir) x := by
  have hdone : tell (.stall ep dir) x = x.stall ep dir := rfl
  refine prepared_of_none rfl ⟨fun ep' dir' => ?_, fun ep' dir' => ?_⟩
  · rw [hdone, stall]
    split
    · exact (sameButHalt_modifyControl (x.write .stallArm (ofBits [0, 1])) .control ep' .toHost
        dir' true).trans (sameButHalt_modifyControl _ .control ep' .toDevice dir' true)
    · exact sameButHalt_modifyControl x ep ep' dir dir' true
  · rw [hdone, toggle_stall]
    rfl

/-- What clearing a halt does before it hands a buffer over. -/
def cleared (x : Adapter) (ep : Endpoint) (dir : Direction) : Adapter :=
  let x := x.modifyControl ep dir fun w => setBit w BufferControl.stallBit false
  { x with toggle := x.toggle.set ep dir false }

theorem prepares_cleared (ep : Endpoint) (dir : Direction) (x : Adapter) :
    Prepares (.clearStall ep dir) x (x.cleared ep dir) :=
  prepares_of_restarted rfl rfl (fun ep' dir' => sameButHalt_modifyControl x ep ep' dir dir' false)
    rfl

theorem prepared_clearStall (ep : Endpoint) (dir : Direction) (x : Adapter) :
    Prepared (.clearStall ep dir) x := by
  have hprepares := prepares_cleared ep dir x
  cases dir with
  | toHost => exact prepared_of_none rfl ⟨hprepares.word, hprepares.toggle⟩
  | toDevice =>
    have hdone : tell (.clearStall ep .toDevice) x =
        if ep = .control then x.cleared ep .toDevice else (x.cleared ep .toDevice).armOut ep := rfl
    rw [Prepared, hdone]
    by_cases hcontrol : ep = .control
    · subst hcontrol
      exact ⟨x.cleared .control .toDevice, hprepares, rfl⟩
    · simp only [handedOver?, handedLength, if_neg hcontrol, armOut]
      exact ⟨(x.cleared ep .toDevice).setCursor ep 0, ⟨hprepares.word, hprepares.toggle⟩, rfl⟩

theorem prepared_tell (a : Action) (x : Adapter) : Prepared a x := by
  cases a with
  | interrupts =>
    refine prepared_of_none rfl ⟨fun ep dir => ?_, x.toggle_interrupts⟩
    show BufferControl.SameButHalt _ (x.interrupts.2.memory.bufferControl ep dir)
    rw [Memory.bufferControl, Memory.bufferControl, x.word_interrupts]
    exact BufferControl.sameButHalt_refl _
  | controlEvents | enableEvents | connect | disconnect | setAddress | rxReady | rxCount | txBusy =>
    exact prepared_of_bufferless rfl x
  | fifoRead ep width =>
    refine prepared_of_none rfl ?_
    show Prepares _ x (pullBytes ep width.bytes x).2
    rw [pullBytes_eq]
    exact prepares_of_same rfl rfl (fun _ => rfl) rfl
  | fifoWrite ep width value =>
    obtain ⟨memory, n, hpushed, hword, _⟩ := pushBytes_eq ep (bytesOfValue width value) x
    refine prepared_of_none rfl ?_
    show Prepares _ x (pushBytes ep (bytesOfValue width value) x)
    rw [hpushed]
    refine ⟨fun ep' dir => ?_, fun _ _ => rfl⟩
    show BufferControl.SameButHalt _ (memory.bufferControl ep' dir)
    rw [hword]
    exact BufferControl.sameButHalt_refl _
  | txReady ep last =>
    exact ⟨x.setStaged ep 0, prepares_of_same rfl rfl (fun _ => rfl) rfl, rfl⟩
  | rxDone ep dataEnd => exact prepared_rxDone ep dataEnd x
  | configure ep dir maxPacket doubleBuffered =>
    exact prepared_configure ep dir maxPacket doubleBuffered x
  | stall ep dir => exact prepared_stall ep dir x
  | clearStall ep dir => exact prepared_clearStall ep dir x

/-- The word of a buffer that is handed over says whose turn it is and how long the buffer is. -/
theorem bufferControl_of_handed {a : Action} {ep : Endpoint} {dir : Direction}
    (h : handedOver? a = some (ep, dir)) (x : Adapter) :
    (tell a x).memory.bufferControl ep dir =
      armedWord dir (due a x ep dir) (handedLength a x) := by
  obtain ⟨y, hprepares, htell⟩ := prepared_tell a x
  rw [htell, h]
  simp only [arm, bufferControl_modifyControl, and_self, if_true, hprepares.toggle]

/-- Any other word changes by a halt at most. -/
theorem sameButHalt_of_not_handed {a : Action} {ep : Endpoint} {dir : Direction}
    (h : handedOver? a ≠ some (ep, dir)) (x : Adapter) :
    BufferControl.SameButHalt (x.memory.bufferControl ep dir)
      ((tell a x).memory.bufferControl ep dir) := by
  obtain ⟨y, hprepares, htell⟩ := prepared_tell a x
  rw [htell]
  cases hhanded : handedOver? a with
  | none => exact hprepares.word ep dir
  | some handed =>
    obtain ⟨ep', dir'⟩ := handed
    have hne : ¬(ep' = ep ∧ dir' = dir) := by
      rintro ⟨rfl, rfl⟩
      exact h hhanded
    simp only [arm, bufferControl_modifyControl, if_neg hne]
    exact hprepares.word ep dir

/-- A packet that is handed over is followed by the other one of the two. -/
theorem toggle_tell (a : Action) (x : Adapter) (ep : Endpoint) (dir : Direction) :
    (tell a x).toggle.get ep dir =
      if handedOver? a = some (ep, dir) then !due a x ep dir else due a x ep dir := by
  obtain ⟨y, hprepares, htell⟩ := prepared_tell a x
  rw [htell]
  cases handedOver? a with
  | none => exact hprepares.toggle ep dir
  | some handed =>
    obtain ⟨ep', dir'⟩ := handed
    simp only [arm, modifyControl, PerDirection.get_set, hprepares.toggle, Option.some.injEq,
      Prod.mk.injEq]
    split
    · next h =>
      obtain ⟨rfl, rfl⟩ := h
      rfl
    · rfl

/-! ## Taking over -/

/-- Clearing an endpoint clears the words of its buffers and no others. -/
theorem bufferControl_clearEndpoint (m : Memory) {n : Nat} (hn : n < 16) (ep : Endpoint)
    (dir : Direction) :
    (clearEndpoint m n).bufferControl ep dir = if n = ep.val then 0 else m.bufferControl ep dir := by
  have hlt := ep.isLt
  -- The words of endpoints lie below those of buffers.
  have hbelow : ∀ (m : Memory) (d : Direction), n ≠ 0 →
      (m.setWord (Memory.endpointControlOffset n d) 0).bufferControl ep dir =
        m.bufferControl ep dir := by
    intro m d hzero
    refine m.bufferControl_setWord (.inl ?_) 0 ep dir
    cases d <;> simp only [Memory.endpointControlOffset] <;> omega
  have hkept : ∀ m : Memory, (if n = 0 then m
      else (m.setWord (Memory.endpointControlOffset n .toHost) 0).setWord
        (Memory.endpointControlOffset n .toDevice) 0).bufferControl ep dir =
          m.bufferControl ep dir := by
    intro m
    split
    · rfl
    · next hzero => rw [hbelow _ _ hzero, hbelow _ _ hzero]
  rw [clearEndpoint]
  simp only [Memory.bufferControl_setWord_self, hkept]
  cases dir <;> by_cases hsame : n = ep.val <;> simp [hsame]

theorem bufferControl_ofMemory (m : Memory) (ep : Endpoint) (dir : Direction) :
    (ofMemory m).memory.bufferControl ep dir = 0 := by
  have hcleared : ∀ (ns : List Nat) (m : Memory), (∀ n ∈ ns, n < 16) →
      m.bufferControl ep dir = 0 ∨ ep.val ∈ ns →
      (ns.foldl clearEndpoint m).bufferControl ep dir = 0 := by
    intro ns
    induction ns with
    | nil => exact fun m _ h => h.resolve_right List.not_mem_nil
    | cons n ns ih =>
      intro m hns h
      refine ih (clearEndpoint m n) (fun k hk => hns k (List.mem_cons_of_mem _ hk)) ?_
      rw [bufferControl_clearEndpoint m (hns n List.mem_cons_self)]
      by_cases hsame : n = ep.val
      · exact .inl (if_pos hsame)
      · rw [if_neg hsame]
        exact h.imp_right fun hin => (List.mem_cons.mp hin).resolve_left (Ne.symm hsame)
  have hlt := ep.isLt
  exact hcleared (List.range 16) m (fun _ => List.mem_range.mp)
    (.inr (List.mem_range.mpr (by omega)))

end Adapter

end FlashProgrammer.Rp2040

import FlashProgrammer.Proofs.Rp2040.SharedBuffers
import FlashProgrammer.Proofs.Usb.FifoDiscipline

/-!
# Proper actions

The adapter walks a cursor through the buffer of a packet and does not look where it ends, and
nothing keeps it from touching a buffer that the controller owns.  An action is `Proper` if it does
neither.  That rests on the device, which keeps the discipline of the FIFOs.

`Fits m x` ties the adapter `x` to the mode `m` of that discipline.  A lawful move of the controller
leaves it in place (`fits_moved`), and each action that the discipline allows is proper and leads to
an adapter that fits the next mode (`fits_step`).
-/

namespace FlashProgrammer.Usb.Mode

/-- A packet of the endpoint is being taken. -/
def takes : Mode → Endpoint → Bool
  | taking e _, ep => e = ep
  | _, _ => false

/-- The bytes that are left of the packet that is being taken. -/
def left : Mode → Endpoint → Nat
  | taking e left, ep => if e = ep then left else 0
  | _, _ => 0

/-- The bytes of the packet that is being built. -/
def built : Mode → Endpoint → Nat
  | building e length, ep => if e = ep then length else 0
  | _, _ => 0

/-- The buffer of the endpoint and direction is in use, so it must be the processor's. -/
def holds : Mode → Endpoint → Direction → Bool
  | full e, ep, .toDevice | taking e _, ep, .toDevice | building e _, ep, .toHost => e = ep
  | _, _, _ => false

end FlashProgrammer.Usb.Mode

namespace FlashProgrammer.Rp2040

open Usb

namespace Adapter

/-! ## What is proper -/

/-- A packet waits in a buffer that is the processor's. -/
def Waits (x : Adapter) (ep : Endpoint) : Prop :=
  BufferControl.full (x.memory.bufferControl ep .toDevice) = true ∧
    BufferControl.available (x.memory.bufferControl ep .toDevice) = false

/-- The buffer for the host is the processor's. -/
def Free (x : Adapter) (ep : Endpoint) : Prop :=
  BufferControl.available (x.memory.bufferControl ep .toHost) = false

/-- The bytes of the place where the waiting packet is. -/
def packetRoom (x : Adapter) (ep : Endpoint) : Nat :=
  if ep = .control ∧ x.setupPending then Setup.size else Memory.bufferLength

/-- The next byte to be taken lies in the place of the waiting packet. -/
def InPacket (x : Adapter) (ep : Endpoint) : Prop :=
  x.packetOffset ep + x.cursor.get ep < x.packetOffset ep + x.packetRoom ep

/-- The next byte to be added lies in the buffer, so it is not dropped. -/
def InBuffer (x : Adapter) (ep : Endpoint) : Prop :=
  Memory.bufferOffset ep .toHost + x.staged.get ep <
    Memory.bufferOffset ep .toHost + Memory.bufferLength

/-- An action takes and adds bytes inside of buffers only, and touches a bulk buffer only if it is
the processor's. -/
def Proper (x : Adapter) : Action → Prop
  | .fifoRead ep width =>
    (∀ i < width.bytes, (pullBytes ep i x).2.InPacket ep) ∧ (ep ≠ .control → x.Waits ep)
  | .rxDone ep _ => ep ≠ .control → x.Waits ep
  | .fifoWrite ep width value =>
    (∀ i < width.bytes, (pushBytes ep ((bytesOfValue width value).take i) x).InBuffer ep) ∧
      (ep ≠ .control → x.Free ep)
  | .txReady ep _ => ep ≠ .control → x.Free ep
  | _ => True

/-! ## Sizes -/

/-- No buffer from the host is longer than the longest, nor will one be. -/
structure Sized (x : Adapter) : Prop where
  maxPacket_le : ∀ ep, x.maxPacket.get ep .toDevice ≤ Memory.bufferLength
  length_le : ∀ ep,
    BufferControl.length (x.memory.bufferControl ep .toDevice) ≤ Memory.bufferLength

theorem maxPacket_of_bufferless {a : Action} (ha : bufferless a = true) (x : Adapter) :
    (tell a x).maxPacket = x.maxPacket := by
  obtain ⟨memory, setupEnd, htell, _⟩ := tell_of_bufferless ha x
  rw [htell]

theorem maxPacket_tell (a : Action) (x : Adapter) :
    (tell a x).maxPacket =
      match a with
      | .configure ep dir maxPacket _ => x.maxPacket.set ep dir (min maxPacket Memory.bufferLength)
      | _ => x.maxPacket := by
  cases a with
  | interrupts =>
    show x.interrupts.2.maxPacket = x.maxPacket
    obtain ⟨memory, _, ⟨_, hread⟩ | ⟨_, s, hread⟩⟩ := x.interrupts_cases <;>
      exact (congrArg Adapter.maxPacket hread).trans rfl
  | fifoRead ep width =>
    show (pullBytes ep width.bytes x).2.maxPacket = x.maxPacket
    rw [pullBytes_eq]
    rfl
  | fifoWrite ep width value =>
    obtain ⟨memory, n, hpushed, _⟩ := pushBytes_eq ep (bytesOfValue width value) x
    show (pushBytes ep (bytesOfValue width value) x).maxPacket = x.maxPacket
    rw [hpushed]
    rfl
  | configure ep dir maxPacket doubleBuffered =>
    show (x.configure ep dir maxPacket).maxPacket = _
    rw [configure_eq]
    split <;> exact maxPacket_declared ep dir maxPacket x
  | rxDone ep dataEnd =>
    show (x.rxDone ep dataEnd).maxPacket = x.maxPacket
    rw [rxDone]
    split
    · cases dataEnd <;> rfl
    · rfl
  | stall ep dir =>
    show (x.stall ep dir).maxPacket = x.maxPacket
    rw [stall]
    split <;> rfl
  | clearStall ep dir =>
    cases dir with
    | toHost => rfl
    | toDevice =>
      show (if ep = .control then x.cleared ep .toDevice
        else (x.cleared ep .toDevice).armOut ep).maxPacket = x.maxPacket
      split <;> rfl
  | txReady => rfl
  | controlEvents | enableEvents | connect | disconnect | setAddress | rxReady | rxCount | txBusy =>
    exact maxPacket_of_bufferless rfl x

theorem handedLength_le {x : Adapter} (h : x.Sized) {a : Action} {ep : Endpoint}
    (ha : handedOver? a = some (ep, .toDevice)) : handedLength a x ≤ Memory.bufferLength := by
  cases a with
  | rxDone ep' dataEnd =>
    rw [handedLength]
    split
    · exact Nat.zero_le _
    · exact h.maxPacket_le ep'
  | configure ep' dir maxPacket doubleBuffered => exact Nat.min_le_right ..
  | clearStall ep' dir => exact h.maxPacket_le ep'
  | _ => cases ha

theorem sized_tell {x : Adapter} (h : x.Sized) (a : Action) : (tell a x).Sized where
  maxPacket_le := fun ep => by
    rw [maxPacket_tell]
    split
    · rw [PerDirection.get_set]
      split
      · exact Nat.min_le_right ..
      · exact h.maxPacket_le ep
    · exact h.maxPacket_le ep
  length_le := fun ep => by
    by_cases hhanded : handedOver? a = some (ep, .toDevice)
    · rw [bufferControl_of_handed hhanded, length_armedWord]
      exact Nat.le_trans (Nat.mod_le ..) (handedLength_le h hhanded)
    · rw [(sameButHalt_of_not_handed hhanded x).length_eq]
      exact h.length_le ep

/-! ## Positions -/

/-- No byte was taken or added, though packets may have been dropped. -/
structure Still (x y : Adapter) : Prop where
  cursor_le : ∀ ep, y.cursor.get ep ≤ x.cursor.get ep
  staged_le : ∀ ep, y.staged.get ep ≤ x.staged.get ep

theorem set_zero_le (t : PerEndpoint Nat) (ep ep' : Endpoint) :
    (t.set ep 0).get ep' ≤ t.get ep' := by
  rw [PerEndpoint.get_set]
  split <;> omega

theorem still_of_same {x y : Adapter} (hcursor : y.cursor = x.cursor)
    (hstaged : y.staged = x.staged) : Still x y :=
  ⟨fun ep => Nat.le_of_eq (congrArg (·.get ep) hcursor),
    fun ep => Nat.le_of_eq (congrArg (·.get ep) hstaged)⟩

theorem still_of_bufferless {a : Action} (ha : bufferless a = true) (x : Adapter) :
    Still x (tell a x) := by
  obtain ⟨memory, setupEnd, htell, _⟩ := tell_of_bufferless ha x
  rw [htell]
  exact still_of_same rfl rfl

theorem still_interrupts (x : Adapter) : Still x x.interrupts.2 := by
  obtain ⟨memory, _, ⟨_, hread⟩ | ⟨_, s, hread⟩⟩ := x.interrupts_cases
  · rw [hread]
    exact still_of_same rfl rfl
  · rw [hread]
    exact ⟨set_zero_le x.cursor .control, set_zero_le x.staged .control⟩

theorem still_configure (ep : Endpoint) (dir : Direction) (maxPacket : Nat) (x : Adapter) :
    Still x (x.configure ep dir maxPacket) := by
  have hcursor : (x.declared ep dir maxPacket).cursor = x.cursor := by
    rw [declared]
    split <;> rfl
  have hstaged : (x.declared ep dir maxPacket).staged = x.staged := by
    rw [declared]
    split <;> rfl
  rw [configure_eq]
  split
  · refine ⟨fun ep' => ?_, fun ep' => ?_⟩
    · show ((x.declared ep dir maxPacket).cursor.set ep 0).get ep' ≤ _
      rw [hcursor]
      exact set_zero_le x.cursor ep ep'
    · exact Nat.le_of_eq (congrArg (·.get ep') hstaged)
  · exact still_of_same hcursor hstaged

theorem still_stall (ep : Endpoint) (dir : Direction) (x : Adapter) : Still x (x.stall ep dir) := by
  rw [stall]
  split <;> exact still_of_same rfl rfl

theorem still_clearStall (ep : Endpoint) (dir : Direction) (x : Adapter) :
    Still x (x.clearStall ep dir) := by
  cases dir with
  | toHost => exact ⟨fun _ => Nat.le_refl _, set_zero_le x.staged ep⟩
  | toDevice =>
    show Still x (if ep = .control then x.cleared ep .toDevice
      else (x.cleared ep .toDevice).armOut ep)
    split
    · exact still_of_same rfl rfl
    · exact ⟨set_zero_le x.cursor ep, fun _ => Nat.le_refl _⟩

/-- An action that moves no packet takes and adds nothing. -/
theorem still_tell {a : Action} (ha : a.plain = true) (x : Adapter) : Still x (tell a x) := by
  cases a with
  | interrupts => exact x.still_interrupts
  | configure ep dir maxPacket _ => exact still_configure ep dir maxPacket x
  | stall ep dir => exact still_stall ep dir x
  | clearStall ep dir => exact still_clearStall ep dir x
  | controlEvents | enableEvents | connect | disconnect | setAddress | rxReady =>
    exact still_of_bufferless rfl x
  | rxCount | fifoRead | rxDone | fifoWrite | txReady | txBusy => cases ha

/-! ## What fits a mode -/

/-- The adapter is as the discipline of the FIFOs expects. -/
structure Fits (m : Mode) (x : Adapter) : Prop where
  sized : x.Sized
  /-- What is left of a packet that is being taken is inside, and nothing was taken of another. -/
  cursor_le : ∀ ep, x.cursor.get ep + m.left ep ≤ if m.takes ep then x.packetRoom ep else 0
  staged_eq : ∀ ep, x.staged.get ep = m.built ep
  waits : ∀ ep, ep ≠ .control → m.holds ep .toDevice = true → x.Waits ep
  free : ∀ ep, ep ≠ .control → m.holds ep .toHost = true → x.Free ep

variable {m m' : Mode} {x : Adapter}

/-- While no packet is being taken or built, nothing of one was. -/
theorem Fits.positions_of_open (h : Fits m x) (hm : m.isOpen = true) (ep : Endpoint) :
    x.cursor.get ep = 0 ∧ x.staged.get ep = 0 := by
  have hcursor := h.cursor_le ep
  have hstaged := h.staged_eq ep
  cases m with
  | rest | full => exact ⟨Nat.le_zero.mp hcursor, hstaged⟩
  | taking | building => cases hm

/-- A lawful move of the controller changes nothing that matters. -/
theorem fits_moved {memory : Memory} (h : Fits m x) (hlawful : Completes x.memory memory) :
    Fits m { x with memory } where
  sized := ⟨h.sized.maxPacket_le, fun ep => hlawful.length_le (h.sized.length_le ep)⟩
  cursor_le := h.cursor_le
  staged_eq := h.staged_eq
  waits := fun ep hep hholds => by
    have hwaits := h.waits ep hep hholds
    simp only [Waits, hlawful.eq_of_released hep hwaits.2]
    exact hwaits
  free := fun ep hep hholds => by
    have hfree := h.free ep hep hholds
    rw [Free, hlawful.eq_of_released hep hfree]
    exact hfree

/-- Nothing is asked of the buffers while nothing is known. -/
theorem fits_rest {y : Adapter} (hsized : y.Sized) (hcursor : ∀ ep, y.cursor.get ep = 0)
    (hstaged : ∀ ep, y.staged.get ep = 0) : Fits .rest y where
  sized := hsized
  cursor_le := fun ep => Nat.le_of_eq (hcursor ep)
  staged_eq := hstaged
  waits := fun _ _ h => by cases h
  free := fun _ _ h => by cases h

theorem fits_plain {a : Action} (h : Fits m x) (hm : m.isOpen = true) (ha : a.plain = true) :
    Fits .rest (tell a x) := by
  have hstill := still_tell ha x
  refine fits_rest (sized_tell h.sized a) (fun ep => ?_) fun ep => ?_
  · have hle := hstill.cursor_le ep
    rw [(h.positions_of_open hm ep).1] at hle
    exact Nat.le_zero.mp hle
  · have hle := hstill.staged_le ep
    rw [(h.positions_of_open hm ep).2] at hle
    exact Nat.le_zero.mp hle

/-- A packet that was found ready waits. -/
theorem fits_rxReady (h : Fits m x) (hm : m.isOpen = true) (ep : Endpoint)
    (hready : x.rxReady ep = true) : Fits (.full ep) x where
  sized := h.sized
  cursor_le := fun ep' => Nat.le_of_eq (h.positions_of_open hm ep').1
  staged_eq := fun ep' => (h.positions_of_open hm ep').2
  waits := fun ep' hep hholds => by
    obtain rfl := of_decide_eq_true hholds
    simp only [rxReady, Bool.or_eq_true, Bool.and_eq_true, beq_iff_eq, hep, false_and,
      false_or] at hready
    exact ⟨hready.1.1, Bool.not_eq_true' _ ▸ hready.1.2⟩
  free := fun _ _ hholds => by cases hholds

/-- What is counted of a packet is inside its place. -/
theorem rxCount_le (h : x.Sized) (ep : Endpoint) : x.rxCount ep ≤ x.packetRoom ep := by
  rw [rxCount, packetRoom]
  split
  · exact Nat.sub_le ..
  · exact Nat.le_trans (Nat.sub_le ..) (h.length_le ep)

theorem fits_rxCount (h : Fits m x) {ep : Endpoint}
    (hm : m = .full ep ∨ m.isOpen = true ∧ ep = .control) :
    Fits (.taking ep (UInt16.ofNat (x.rxCount ep)).toNat) x := by
  have hopen : m.isOpen = true := by
    rcases hm with rfl | ⟨hopen, _⟩
    · rfl
    · exact hopen
  have hcount : (UInt16.ofNat (x.rxCount ep)).toNat ≤ x.packetRoom ep :=
    Nat.le_trans (Nat.mod_le ..) (rxCount_le h.sized ep)
  refine ⟨h.sized, fun ep' => ?_, fun ep' => (h.positions_of_open hopen ep').2,
    fun ep' hep hholds => ?_, fun _ _ hholds => by cases hholds⟩
  · rw [(h.positions_of_open hopen ep').1, Mode.left, Mode.takes]
    by_cases hsame : ep = ep'
    · subst hsame
      simpa using hcount
    · simp [hsame]
  · obtain rfl := of_decide_eq_true hholds
    rcases hm with rfl | ⟨_, hcontrol⟩
    · exact h.waits ep hep hholds
    · exact absurd hcontrol hep

/-- A buffer that was found free can be filled. -/
theorem fits_txBusy (h : Fits m x) (hm : m.isOpen = true) {ep : Endpoint} (hfree : x.Free ep) :
    Fits (.building ep 0) x where
  sized := h.sized
  cursor_le := fun ep' => Nat.le_of_eq (h.positions_of_open hm ep').1
  staged_eq := fun ep' => by
    rw [(h.positions_of_open hm ep').2, Mode.built]
    split <;> rfl
  waits := fun _ _ hholds => by cases hholds
  free := fun ep' _ hholds => by
    obtain rfl := of_decide_eq_true hholds
    exact hfree

/-! ## Bytes of a packet -/

variable {ep : Endpoint} {left n : Nat}

theorem Fits.cursor_taking (h : Fits (.taking ep left) x) :
    x.cursor.get ep + left ≤ x.packetRoom ep := by
  have hle := h.cursor_le ep
  rwa [Mode.left, Mode.takes, if_pos rfl, decide_eq_true rfl, if_pos rfl] at hle

theorem Fits.waits_taking (h : Fits (.taking ep left) x) (hep : ep ≠ .control) : x.Waits ep :=
  h.waits ep hep (decide_eq_true rfl)

theorem Fits.free_building (h : Fits (.building ep n) x) (hep : ep ≠ .control) : x.Free ep :=
  h.free ep hep (decide_eq_true rfl)

theorem Fits.staged_building (h : Fits (.building ep n) x) : x.staged.get ep = n :=
  (h.staged_eq ep).trans (if_pos rfl)

theorem proper_fifoRead (h : Fits (.taking ep left) x) {width : Width}
    (hwidth : width.bytes ≤ left) : x.Proper (.fifoRead ep width) := by
  refine ⟨fun i hi => ?_, h.waits_taking⟩
  have hle := h.cursor_taking
  have hroom : (pullBytes ep i x).2.packetRoom ep = x.packetRoom ep := by
    rw [pullBytes_eq]
    rfl
  have hcursor : (pullBytes ep i x).2.cursor.get ep = x.cursor.get ep + i := by
    rw [pullBytes_eq]
    exact PerEndpoint.get_set_self ..
  rw [InPacket, hroom, hcursor]
  omega

theorem fits_fifoRead (h : Fits (.taking ep left) x) {width : Width}
    (hwidth : width.bytes ≤ left) :
    Fits (.taking ep (left - width.bytes)) (tell (.fifoRead ep width) x) := by
  have htaken : tell (.fifoRead ep width) x = x.setCursor ep (x.cursor.get ep + width.bytes) := by
    show (pullBytes ep width.bytes x).2 = _
    rw [pullBytes_eq]
  have hle := h.cursor_taking
  rw [htaken]
  refine ⟨⟨h.sized.maxPacket_le, h.sized.length_le⟩, fun ep' => ?_, h.staged_eq, h.waits, h.free⟩
  show (x.cursor.set ep (x.cursor.get ep + width.bytes)).get ep' + _ ≤
    if _ then x.packetRoom ep' else 0
  rw [PerEndpoint.get_set, Mode.left, Mode.takes]
  by_cases hsame : ep = ep'
  · subst hsame
    simp only [if_true, decide_true]
    omega
  · have hother := h.cursor_le ep'
    simpa [Mode.left, Mode.takes, hsame] using hother

theorem cursor_rxDone (ep ep' : Endpoint) (dataEnd : Bool) (x : Adapter) :
    (x.rxDone ep dataEnd).cursor.get ep' = if ep = ep' then 0 else x.cursor.get ep' := by
  rw [rxDone]
  split
  · next hcontrol =>
    subst hcontrol
    cases dataEnd with
    | true => exact PerEndpoint.get_set ..
    | false =>
      show ((x.cursor.set .control 0).set .control 0).get ep' = _
      simp only [PerEndpoint.get_set]
      split <;> rfl
  · show ((x.cursor.set ep 0).set ep 0).get ep' = _
    simp only [PerEndpoint.get_set]
    split <;> rfl

theorem staged_rxDone_le (ep ep' : Endpoint) (dataEnd : Bool) (x : Adapter) :
    (x.rxDone ep dataEnd).staged.get ep' ≤ x.staged.get ep' := by
  rw [rxDone]
  split
  · cases dataEnd with
    | true => exact set_zero_le x.staged .control ep'
    | false => exact Nat.le_refl _
  · exact Nat.le_refl _

/-- A packet that is released is forgotten. -/
theorem fits_rxDone (h : Fits (.taking ep left) x) (dataEnd : Bool) :
    Fits .rest (tell (.rxDone ep dataEnd) x) := by
  refine fits_rest (sized_tell h.sized _) (fun ep' => ?_) fun ep' => ?_
  · show (x.rxDone ep dataEnd).cursor.get ep' = 0
    rw [cursor_rxDone]
    split
    · rfl
    · next hne =>
      have hother := h.cursor_le ep'
      rw [Mode.takes, decide_eq_false hne] at hother
      exact Nat.eq_zero_of_add_eq_zero_right (Nat.le_zero.mp hother)
  · have hle := staged_rxDone_le ep ep' dataEnd x
    rw [h.staged_eq ep'] at hle
    exact Nat.le_zero.mp hle

theorem proper_fifoWrite (h : Fits (.building ep n) x) {width : Width}
    (hroom : n + width.bytes ≤ Usb.maxPacket) (value : BitVec width.bits) :
    x.Proper (.fifoWrite ep width value) := by
  refine ⟨fun i hi => ?_, h.free_building⟩
  obtain ⟨memory, count, hpushed, _, hcount⟩ :=
    pushBytes_eq ep ((bytesOfValue width value).take i) x
  have hlength : ((bytesOfValue width value).take i).length = i := by
    rw [List.length_take, length_bytesOfValue]
    omega
  have hstaged : (pushBytes ep ((bytesOfValue width value).take i) x).staged.get ep = count := by
    rw [hpushed]
    exact PerEndpoint.get_set_self ..
  rw [hlength, h.staged_building] at hcount
  have hlt : n + i < Memory.bufferLength := Nat.lt_of_lt_of_le (by omega) hroom
  rw [InBuffer, hstaged, hcount (Nat.le_of_lt hlt)]
  exact Nat.add_lt_add_left hlt _

theorem fits_fifoWrite (h : Fits (.building ep n) x) {width : Width}
    (hroom : n + width.bytes ≤ Usb.maxPacket) (value : BitVec width.bits) :
    Fits (.building ep (n + width.bytes)) (tell (.fifoWrite ep width value) x) := by
  have hsized := sized_tell h.sized (.fifoWrite ep width value)
  obtain ⟨memory, count, hpushed, hword, hcount⟩ := pushBytes_eq ep (bytesOfValue width value) x
  have hwritten : tell (.fifoWrite ep width value) x = { x.setStaged ep count with memory } := hpushed
  rw [length_bytesOfValue, h.staged_building] at hcount
  rw [hwritten] at hsized ⊢
  refine ⟨hsized, h.cursor_le, fun ep' => ?_, nofun, fun ep' hep hholds => ?_⟩
  · show (x.staged.set ep count).get ep' = _
    rw [PerEndpoint.get_set, hcount hroom, Mode.built]
    split
    · rfl
    · next hne =>
      have hother := h.staged_eq ep'
      rwa [Mode.built, if_neg hne] at hother
  · show BufferControl.available (memory.bufferControl ep' .toHost) = false
    rw [hword]
    exact h.free ep' hep hholds

/-- A packet that is committed is no longer being built. -/
theorem fits_txReady (h : Fits (.building ep n) x) (last : Bool) :
    Fits .rest (tell (.txReady ep last) x) := by
  refine fits_rest (sized_tell h.sized _) (fun ep' => ?_) fun ep' => ?_
  · exact Nat.eq_zero_of_add_eq_zero_right (Nat.le_zero.mp (h.cursor_le ep'))
  · show (x.staged.set ep 0).get ep' = 0
    rw [PerEndpoint.get_set]
    split
    · rfl
    · next hne =>
      have hother := h.staged_eq ep'
      rwa [Mode.built, if_neg hne] at hother

/-- A halt is set or cleared. -/
theorem fits_halt (h : Fits m x) {a : Action} (ha : a.plain = true)
    (hpending : (tell a x).setupPending = x.setupPending) (hm : m.afterHalt = some m') :
    Fits m' (tell a x) := by
  have hsized := sized_tell h.sized a
  have hstill := still_tell ha x
  cases m with
  | rest | full =>
    cases hm
    exact fits_plain h rfl ha
  | building => cases hm
  | taking e left =>
    simp only [Mode.afterHalt] at hm
    split at hm
    · next hcontrol =>
      subst hcontrol
      cases hm
      refine ⟨hsized, fun ep' => ?_, fun ep' => ?_, fun ep' hep hholds => ?_, nofun⟩
      · have hle := h.cursor_le ep'
        have hcursor := hstill.cursor_le ep'
        rw [show (tell a x).packetRoom ep' = x.packetRoom ep' by
          rw [packetRoom, packetRoom, hpending]]
        omega
      · have hle := hstill.staged_le ep'
        rw [h.staged_eq ep'] at hle
        exact Nat.le_zero.mp hle
      · exact absurd (of_decide_eq_true hholds).symm hep
    · cases hm

/-! ## Every action -/

theorem setupPending_stall (ep : Endpoint) (dir : Direction) (x : Adapter) :
    (x.stall ep dir).setupPending = x.setupPending := by
  rw [stall]
  split <;> rfl

theorem setupPending_clearStall (ep : Endpoint) (dir : Direction) (x : Adapter) :
    (x.clearStall ep dir).setupPending = x.setupPending := by
  cases dir with
  | toHost => rfl
  | toDevice =>
    show (if ep = .control then x.cleared ep .toDevice
      else (x.cleared ep .toDevice).armOut ep).setupPending = _
    split <;> rfl

/-- What the discipline allows is proper, and the adapter fits the next mode. -/
theorem fits_step (h : Fits m x) {a : Action}
    (ha : m.after a (Controller.perform a x).1 = some m') : x.Proper a ∧ Fits m' (tell a x) := by
  cases a with
  | stall ep dir => exact ⟨trivial, fits_halt h rfl (setupPending_stall ep dir x) ha⟩
  | clearStall ep dir => exact ⟨trivial, fits_halt h rfl (setupPending_clearStall ep dir x) ha⟩
  | rxReady ep =>
    simp only [Mode.after] at ha
    split at ha
    · next hm =>
      cases ha
      refine ⟨trivial, ?_⟩
      split
      · next hready => exact fits_rxReady h hm ep hready
      · exact fits_plain (a := .rxReady ep) h hm rfl
    · cases ha
  | rxCount ep =>
    simp only [Mode.after] at ha
    split at ha
    · next hm =>
      cases ha
      exact ⟨trivial, fits_rxCount h hm⟩
    · cases ha
  | txBusy ep =>
    simp only [Mode.after] at ha
    split at ha
    · next hm =>
      cases ha
      refine ⟨trivial, ?_⟩
      split
      · exact fits_rest h.sized (fun ep' => (h.positions_of_open hm ep').1)
          fun ep' => (h.positions_of_open hm ep').2
      · next hbusy => exact fits_txBusy h hm (Bool.eq_false_iff.mpr hbusy)
    · cases ha
  | fifoRead ep width =>
    cases m with
    | taking e left =>
      simp only [Mode.after] at ha
      split at ha
      · next hallowed =>
        obtain ⟨rfl, hwidth⟩ := hallowed
        cases ha
        exact ⟨proper_fifoRead h hwidth, fits_fifoRead h hwidth⟩
      · cases ha
    | rest | full | building => cases ha
  | rxDone ep dataEnd =>
    cases m with
    | taking e left =>
      simp only [Mode.after] at ha
      split at ha
      · next hsame =>
        subst hsame
        cases ha
        exact ⟨h.waits_taking, fits_rxDone h dataEnd⟩
      · cases ha
    | rest | full | building => cases ha
  | fifoWrite ep width value =>
    cases m with
    | building e n =>
      simp only [Mode.after] at ha
      split at ha
      · next hallowed =>
        obtain ⟨rfl, hroom⟩ := hallowed
        cases ha
        exact ⟨proper_fifoWrite h hroom value, fits_fifoWrite h hroom value⟩
      · cases ha
    | rest | full | taking => cases ha
  | txReady ep last =>
    cases m with
    | building e n =>
      simp only [Mode.after] at ha
      split at ha
      · next hsame =>
        subst hsame
        cases ha
        exact ⟨h.free_building, fits_txReady h last⟩
      · cases ha
    | rest | full | taking => cases ha
  | interrupts | controlEvents | enableEvents | connect | disconnect | setAddress | configure =>
    simp only [Mode.after] at ha
    split at ha
    · next hm =>
      cases ha
      exact ⟨trivial, fits_plain h hm rfl⟩
    · cases ha

end Adapter

end FlashProgrammer.Rp2040

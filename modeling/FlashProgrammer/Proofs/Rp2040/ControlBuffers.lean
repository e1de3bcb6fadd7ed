import FlashProgrammer.Proofs.Usb.BulkMoves
import FlashProgrammer.Rp2040.Adapter

/-!
# The buffers of endpoint 0

The adapter keeps a SETUP packet in a slot of its own and moves the data of endpoint 0
through one buffer.  `SameControl a b` says that between two moments nothing happened to
either: the slot, the buffer and the words that hand it over are as they were, and so is
what the processor remembers of them.  Working the registers and setting up the other
endpoints leaves them alone.

A FIFO access takes bytes of the waiting packet from memory one after the other, so
`readFifo_eq` says what a whole read returns.  While a SETUP packet waits that is the slot.
-/

namespace FlashProgrammer.Rp2040

open Usb

namespace Memory

/-- The offset is in the part of the shared memory that serves endpoint 0: the SETUP packet, the two
words that hand the buffer over, and the buffer. -/
def OfControl (offset : Nat) : Prop :=
  offset < 0x008 ∨ 0x080 ≤ offset ∧ offset < 0x088 ∨ 0x100 ≤ offset ∧ offset < 0x140

theorem word_setWord_of_control (m : Memory) {a b : Nat} (w : Word) (ha : ¬OfControl a)
    (hb : OfControl b) : (m.setWord a w).word b = m.word b := by
  refine m.word_setWord_ne w ?_
  simp only [OfControl] at ha hb
  omega

theorem not_ofControl_endpointControlOffset {ep : Endpoint} (h : ep ≠ .control) (dir : Direction) :
    ¬OfControl (endpointControlOffset ep.val dir) := by
  have hpos : ep.val ≠ 0 := fun hzero => h (Fin.ext hzero)
  have hlt := ep.isLt
  cases dir <;> simp only [OfControl, endpointControlOffset] <;> omega

theorem not_ofControl_bufferControlOffset {ep : Endpoint} (h : ep ≠ .control) (dir : Direction) :
    ¬OfControl (bufferControlOffset ep.val dir) := by
  have hpos : ep.val ≠ 0 := fun hzero => h (Fin.ext hzero)
  have hlt := ep.isLt
  cases dir <;> simp only [OfControl, bufferControlOffset] <;> omega

theorem bytes_succ (m : Memory) (offset n : Nat) :
    m.bytes offset (n + 1) = m.byte offset :: m.bytes (offset + 1) n := by
  simp only [bytes, List.range_succ_eq_map, List.map_cons, List.map_map, Nat.add_zero,
    List.cons.injEq, true_and]
  refine List.map_congr_left fun i _ => ?_
  show m.byte (offset + (i + 1)) = m.byte (offset + 1 + i)
  congr 1
  omega

/-- Bytes depend only on the words they are in. -/
theorem bytes_congr {m m' : Memory} {offset n : Nat}
    (h : ∀ i < n, m'.word (offset + i) = m.word (offset + i)) :
    m'.bytes offset n = m.bytes offset n := by
  refine List.map_congr_left fun i hi => ?_
  show byteOf (m'.word (offset + i)) _ = byteOf (m.word (offset + i)) _
  rw [h i (List.mem_range.mp hi)]

theorem get_set_ne (m : Memory) {r r' : Register} (w : Word)
    (h : r.offset / 4 ≠ r'.offset / 4) : (m.set r w).get r' = m.get r' := by
  simp [get, set, registerAt, setRegisterAt, h]

end Memory

namespace Adapter

/-! ## What is left alone -/

/-- An acknowledgement changes a register and nothing else. -/
theorem acknowledge_eq (pending : Bool) (statusBit : Nat) (a : Adapter) :
    ∃ memory, acknowledge pending statusBit a = { a with memory } ∧
      (∀ offset, memory.word offset = a.memory.word offset) ∧
      memory.get .bufferStatus = a.memory.get .bufferStatus := by
  rw [acknowledge]
  split
  · exact ⟨_, rfl, fun _ => rfl, a.memory.get_set_ne _ (by decide)⟩
  · exact ⟨_, rfl, fun _ => rfl, rfl⟩

/-- Between two moments nothing happened to the SETUP packet and the buffer of endpoint 0. -/
structure SameControl (a b : Adapter) : Prop where
  setupPending : b.setupPending = a.setupPending
  cursor : b.cursor.get .control = a.cursor.get .control
  staged : b.staged.get .control = a.staged.get .control
  word : ∀ offset, Memory.OfControl offset → b.memory.word offset = a.memory.word offset

theorem sameControl_refl (a : Adapter) : SameControl a a := ⟨rfl, rfl, rfl, fun _ _ => rfl⟩

theorem SameControl.trans {a b c : Adapter} (hab : SameControl a b) (hbc : SameControl b c) :
    SameControl a c :=
  ⟨hbc.setupPending.trans hab.setupPending, hbc.cursor.trans hab.cursor,
    hbc.staged.trans hab.staged, fun offset h => (hbc.word offset h).trans (hab.word offset h)⟩

theorem sameControl_tell_enableEvents (events : BusEvents) (a : Adapter) :
    SameControl a (tell (.enableEvents events) a) := ⟨rfl, rfl, rfl, fun _ _ => rfl⟩

theorem sameControl_tell_setAddress (address : UInt8) (a : Adapter) :
    SameControl a (tell (.setAddress address) a) := ⟨rfl, rfl, rfl, fun _ _ => rfl⟩

theorem sameControl_tell_controlEvents (a : Adapter) :
    SameControl a (tell .controlEvents a) := ⟨rfl, rfl, rfl, fun _ _ => rfl⟩

theorem sameControl_setWord (a : Adapter) {offset : Nat} (h : ¬Memory.OfControl offset) (w : Word) :
    SameControl a { a with memory := a.memory.setWord offset w } :=
  ⟨rfl, rfl, rfl, fun _ hcontrol => a.memory.word_setWord_of_control w h hcontrol⟩

/-- Another endpoint is armed. -/
theorem sameControl_armOut {ep : Endpoint} (h : ep ≠ .control) (a : Adapter) :
    SameControl a (a.armOut ep) where
  setupPending := rfl
  cursor := PerEndpoint.get_set_ne _ _ h
  staged := rfl
  word := fun _ hcontrol => a.memory.word_setWord_of_control _
    (Memory.not_ofControl_bufferControlOffset h .toDevice) hcontrol

/-- Another endpoint is set up. -/
theorem sameControl_tell_configure {ep : Endpoint} (h : ep ≠ .control) (dir : Direction)
    (maxPacket : Nat) (doubleBuffered : Bool) (a : Adapter) :
    SameControl a (tell (.configure ep dir maxPacket doubleBuffered) a) := by
  show SameControl a (a.configure ep dir maxPacket)
  have hoffset := Memory.not_ofControl_endpointControlOffset h dir
  have hset := sameControl_setWord a hoffset (endpointWord ep dir)
  rw [configure, if_neg h]
  cases dir with
  | toHost => exact ⟨rfl, rfl, rfl, hset.word⟩
  | toDevice =>
    refine SameControl.trans (b := { a with
      maxPacket := a.maxPacket.set ep .toDevice (min maxPacket Memory.bufferLength)
      toggle := a.toggle.set ep .toDevice false
      memory := a.memory.setWord (Memory.endpointControlOffset ep.val .toDevice)
        (endpointWord ep .toDevice) }) ⟨rfl, rfl, rfl, hset.word⟩ (sameControl_armOut h _)

/-! ## Taking bytes -/

theorem setCursor_self (a : Adapter) (ep : Endpoint) : a.setCursor ep (a.cursor.get ep) = a := by
  have hcursor : a.cursor.set ep (a.cursor.get ep) = a.cursor := by
    refine PerEndpoint.ext_get fun ep' => ?_
    rw [PerEndpoint.get_set]
    split
    · next h => rw [h]
    · rfl
  rw [setCursor, hcursor]

theorem setCursor_setCursor (a : Adapter) (ep : Endpoint) (m n : Nat) :
    (a.setCursor ep m).setCursor ep n = a.setCursor ep n := by
  have hcursor : (a.cursor.set ep m).set ep n = a.cursor.set ep n := by
    refine PerEndpoint.ext_get fun ep' => ?_
    simp only [PerEndpoint.get_set]
    split <;> rfl
  simp only [setCursor, hcursor]

theorem pullBytes_succ (ep : Endpoint) (n : Nat) (a : Adapter) :
    pullBytes ep (n + 1) a =
      ((a.pull ep).1 :: (pullBytes ep n (a.pull ep).2).1, (pullBytes ep n (a.pull ep).2).2) := rfl

/-- The bytes of the waiting packet from the cursor on. -/
theorem pullBytes_eq (ep : Endpoint) (n : Nat) (a : Adapter) :
    pullBytes ep n a =
      (a.memory.bytes (a.packetOffset ep + a.cursor.get ep) n,
        a.setCursor ep (a.cursor.get ep + n)) := by
  induction n generalizing a with
  | zero => rw [pullBytes, Nat.add_zero, setCursor_self]; rfl
  | succ n ih =>
    have hcursor : (a.setCursor ep (a.cursor.get ep + 1)).cursor.get ep = a.cursor.get ep + 1 :=
      PerEndpoint.get_set_self ..
    have hoffset : (a.setCursor ep (a.cursor.get ep + 1)).packetOffset ep = a.packetOffset ep := rfl
    have hnext : a.cursor.get ep + 1 + n = a.cursor.get ep + (n + 1) := by omega
    simp only [pullBytes_succ, pull, ih, hcursor, hoffset, setCursor_setCursor, hnext,
      Memory.bytes_succ]
    rfl

theorem pullBytes_add (ep : Endpoint) (m n : Nat) (a : Adapter) :
    pullBytes ep (m + n) a =
      ((pullBytes ep m a).1 ++ (pullBytes ep n (pullBytes ep m a).2).1,
        (pullBytes ep n (pullBytes ep m a).2).2) := by
  induction m generalizing a with
  | zero => simp [pullBytes]
  | succ m ih => simp only [Nat.succ_add, pullBytes_succ, ih, List.cons_append]

/-- One access takes its bytes. -/
theorem take_eq (ep : Endpoint) (width : Width) (a : Adapter) :
    take ep width a = pullBytes ep width.bytes a := by
  have hlength : (pullBytes ep width.bytes a).1.length = width.bytes := by
    rw [pullBytes_eq]
    simp [Memory.bytes]
  show (bytesOfValue width (valueOfBytes width (pullBytes ep width.bytes a).1), _) = _
  rw [bytesOfValue_valueOfBytes width hlength]

/-- A read takes as many bytes as were asked for, in accesses of any width. -/
theorem readFifo_eq (ep : Endpoint) (n : Nat) (a : Adapter) :
    readFifo ep n a = pullBytes ep n a := by
  fun_induction readFifo ep n a with
  | case1 => rfl
  | case2 a | case3 a => exact take_eq ep _ a
  | case4 a bs a' hbs b a'' hb =>
    rw [take_eq] at hbs hb
    rw [pullBytes_add ep 2 1, hbs, hb]
  | case5 n a bs a' hbs rest a'' hrest ih =>
    rw [take_eq] at hbs
    rw [hrest] at ih
    have hcount : n.succ.succ.succ.succ = 4 + n := by omega
    rw [hcount, pullBytes_add ep 4 n, hbs, ← ih]

end Adapter

end FlashProgrammer.Rp2040

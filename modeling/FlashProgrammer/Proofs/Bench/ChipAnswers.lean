import FlashProgrammer.Bench.FlashBus
import FlashProgrammer.Programmer.Answer

/-!
# What a chip on the bench answers

The chip behind a slot of a bus that does not fail.  A status read tells whether the
chip is at work and brings that work on by one, so waiting long enough finds it idle.
A memory read answers the cells at the address, as far as three bytes can name it.
Neither changes the memory.

`Holds.execute` is the general law: an instruction that does not read the status is
answered byte by byte and takes effect when it ends.  An erase or program is such an
instruction behind a write enable, and an idle chip does what it says.
-/

namespace FlashProgrammer.Bench

open Flash

/-! ## The chip -/

namespace NorFlash

/-- The state of a chip that is not at work any more. -/
def rested (c : NorFlash) : NorFlash := { c with busy := 0 }

theorem idle_iff {c : NorFlash} : c.isBusy = false ↔ c.stuck = false ∧ c.busy = 0 := by
  simp only [isBusy, Bool.or_eq_false_iff, decide_eq_false_iff_not, Nat.not_lt, Nat.le_zero]

/-- The chip at rest with its write latch set. -/
def ready (c : NorFlash) : NorFlash := { c with stuck := false, busy := 0, writable := true }

theorem ready_eq {c : NorFlash} (h : c.isBusy = false) : c.ready = { c with writable := true } := by
  obtain ⟨hstuck, hbusy⟩ := idle_iff.mp h
  rw [ready, hstuck, hbusy]

@[simp] theorem readRange_rested (c : NorFlash) (address length : Nat) :
    c.rested.readRange address length = c.readRange address length := rfl

/-- The status byte says whether the chip is at work. -/
theorem isBusyStatus_status (c : NorFlash) : isBusyStatus c.status = c.isBusy := by
  rw [status]
  cases c.isBusy <;> cases c.writable <;> decide

theorem isBusy_eq {c : NorFlash} (hstuck : c.stuck = false) : c.isBusy = decide (0 < c.busy) := by
  simp [isBusy, hstuck]

/-- Only a status read changes a chip before its transaction ends. -/
theorem respond_snd {c : NorFlash} {t : Transaction} (h : t.head.headD 0 ≠ 0x05) :
    (c.respond t).2 = c := by
  simp only [respond, if_neg h]
  split
  · rfl
  · repeat' split
    all_goals rfl

/-- The end of a read changes nothing. -/
theorem finish_read (c : NorFlash) {opcode : UInt8} (rest : List UInt8)
    (h : opcode ∈ [0x03, 0x05, 0x5A, 0x9F]) : c.finish (opcode :: rest) = c := by
  simp only [List.mem_cons, List.not_mem_nil, or_false] at h
  rcases h with rfl | rfl | rfl | rfl <;> simp [finish, modify, eraseLength?]

/-- After the opcode, each further byte is answered with the next byte of the id. -/
theorem respond_id {c : NorFlash} {t : Transaction} {k : Nat}
    (ht : t.toList = 0x9F :: List.replicate (k + 1) 0xFF) :
    c.respond t = (c.id.getD k 0xFF, c) := by
  have hlength : t.length - 1 = k + 1 := by
    rw [← t.length_toList, ht]
    simp
  have hopcode : t.head.headD 0 = 0x9F := by
    rw [← t.take_toList, ht]
    rfl
  simp only [respond, hlength, hopcode, Nat.add_sub_cancel]
  rw [if_neg (Nat.succ_ne_zero k), if_pos trivial]

theorem respond_status {c : NorFlash} {t : Transaction} {b : UInt8} (ht : t.toList = [0x05, b]) :
    c.respond t = (c.status, { c with busy := c.busy - 1 }) := by
  have hhead : t.head = [0x05, b] := by rw [← t.take_toList, ht]; rfl
  have hlength : t.length = 2 := by rw [← t.length_toList, ht]; rfl
  simp [respond, hhead, hlength]

/-- The address of an instruction, as far as three bytes can name it. -/
theorem addressOf_bytes (opcode : UInt8) (address : Nat) (rest : List UInt8) :
    addressOf (opcode :: (addressBytes address ++ rest)) = address % 0x1000000 := by
  rw [addressOf, List.drop_succ_cons, List.drop_zero,
    List.take_left' (length_addressBytes address)]
  exact decode_addressBytes address

/-- After an opcode and an address, each further byte of a read is answered with the next cell. -/
theorem respond_read {c : NorFlash} {t : Transaction} {address k : Nat}
    (ht : t.toList = 0x03 :: addressBytes address ++ List.replicate (k + 1) 0xFF) :
    c.respond t = (c.read (address % 0x1000000 + k), c) := by
  have hlength : t.length - 1 = 4 + k := by
    rw [← t.length_toList, ht]
    simp
    omega
  have hhead : t.head = 0x03 :: addressBytes address := by
    rw [← t.take_toList, ht, List.take_left' (by simp)]
  have haddress : addressOf t.head = address % 0x1000000 := by
    rw [hhead, ← List.append_nil (addressBytes address)]
    exact addressOf_bytes 0x03 address []
  have hopcode : t.head.headD 0 = 0x03 := by rw [hhead]; rfl
  have hread : 4 ≤ 4 + k := Nat.le_add_right 4 k
  simp only [respond, hlength, hopcode, haddress, Nat.add_sub_cancel_left]
  rw [if_neg (by omega), if_neg (by decide), if_neg (by decide), if_pos ⟨trivial, hread⟩]

end NorFlash

/-! ## The bus -/

namespace FlashBus

/-- A bus does not fail, and has a chip in a slot. -/
structure Holds (b : FlashBus) (slot : Slot) (c : NorFlash) : Prop where
  chip_eq : b.chip? slot = some c
  /-- No byte fails. -/
  works : b.failLeft = 0

/-- The chip of a slot is selected and was sent some bytes. -/
structure Hears (b : FlashBus) (slot : Slot) (c : NorFlash) (sent : List UInt8) : Prop
    extends b.Holds slot c where
  selected_eq : b.selected = some slot
  /-- The bytes since then. -/
  sent_eq : b.current.toList = sent

variable {b : FlashBus} {slot : Slot} {c : NorFlash} {sent : List UInt8}

theorem chip?_setChip (b : FlashBus) (slot : Slot) (chip : Option NorFlash) :
    (b.setChip slot chip).chip? slot = chip := by
  simp [chip?, setChip, PerSlot.get_set]

theorem Holds.select (h : b.Holds slot c) : (Spi.select slot b).Hears slot c [] :=
  ⟨⟨h.chip_eq, h.works⟩, rfl, rfl⟩

theorem Hears.deselect (h : b.Hears slot c sent) :
    (Spi.deselect b).Holds slot (c.finish sent) := by
  have hopen : b.open? = some (slot, sent) := by
    simp [open?, h.selected_eq, h.sent_eq]
  have hbus : Spi.deselect b =
      { b.modifyChip slot fun c => c.finish sent with
        selected := none
        current := .empty
        log := b.log.push (slot, sent) } := by
    show b.deselect = _
    rw [FlashBus.deselect, hopen]
  rw [hbus]
  constructor
  · show (b.modifyChip slot _).chip? slot = _
    rw [modifyChip, chip?_setChip, h.chip_eq]
    rfl
  · exact h.works

/-- A byte that reaches the chip is answered by it. -/
theorem Hears.deliver (h : b.Hears slot c sent) (out : UInt8) :
    ∃ t b', t.toList = sent ++ [out] ∧ b.deliver out = ((c.respond t).1, b') ∧
      b'.Hears slot (c.respond t).2 (sent ++ [out]) := by
  have hsent : (b.current.push out).toList = sent ++ [out] := by
    rw [Transaction.toList_push, h.sent_eq]
  have hchip := h.chip_eq
  simp only [chip?] at hchip
  let heard : FlashBus := { b with current := b.current.push out }
  let answered := heard.setChip slot (some (c.respond heard.current).2)
  have hholds : answered.Holds slot (c.respond heard.current).2 :=
    ⟨chip?_setChip heard slot _, h.works⟩
  refine ⟨heard.current, answered, hsent, ?_, hholds, h.selected_eq, hsent⟩
  simp only [FlashBus.deliver, h.selected_eq, chip?, hchip, heard, answered]

theorem Hears.exchange (h : b.Hears slot c sent) (out : UInt8) :
    ∃ t b', t.toList = sent ++ [out] ∧ Spi.exchange out b = (.ok (c.respond t).1, b') ∧
      b'.Hears slot (c.respond t).2 (sent ++ [out]) := by
  have hworks : ¬(b.okLeft = 0 ∧ 0 < b.failLeft) := by
    rw [h.works]
    exact fun hfail => Nat.lt_irrefl 0 hfail.2
  have hcounted : Hears { b with transfers := b.transfers + 1, okLeft := b.okLeft - 1 } slot c
      sent := ⟨⟨h.chip_eq, h.works⟩, h.selected_eq, h.sent_eq⟩
  obtain ⟨t, b', ht, hdeliver, hhears⟩ := hcounted.deliver out
  refine ⟨t, b', ht, ?_, hhears⟩
  show b.exchange out = _
  simp only [FlashBus.exchange, if_neg hworks, hdeliver]

/-- Bytes that are sent do not change the chip, unless they are a status read. -/
theorem Hears.send {opcode : UInt8} (hopcode : opcode ≠ 0x05) {rest : List UInt8}
    (h : b.Hears slot c (opcode :: rest)) (bs : List UInt8) :
    ∃ b', Spi.send bs b = (.ok (), b') ∧ b'.Hears slot c (opcode :: rest ++ bs) := by
  induction bs generalizing b rest with
  | nil => exact ⟨b, rfl, by simpa using h⟩
  | cons out bs ih =>
    obtain ⟨t, b₁, ht, hexchange, hhears⟩ := h.exchange out
    have hhead : t.head.headD 0 ≠ 0x05 := by
      rw [← t.take_toList, ht]
      exact hopcode
    rw [NorFlash.respond_snd hhead] at hhears
    obtain ⟨b', hsend, hrest⟩ := ih hhears
    refine ⟨b', ?_, by simpa using hrest⟩
    rw [Spi.send, hexchange]
    exact hsend

/-- Filler bytes are answered one by one, as long as the chip does not change. -/
theorem Hears.receive {asked : List UInt8} {reply : Nat → UInt8} (n k : Nat)
    (hreply : ∀ i < k + n, ∀ t : Transaction,
      t.toList = asked ++ List.replicate (i + 1) 0xFF → c.respond t = (reply i, c))
    (h : b.Hears slot c (asked ++ List.replicate k 0xFF)) :
    ∃ b', Spi.receive n b = (.ok ((List.range n).map fun i => reply (k + i)), b') ∧
      b'.Hears slot c (asked ++ List.replicate (k + n) 0xFF) := by
  induction n generalizing b k with
  | zero => exact ⟨b, rfl, h⟩
  | succ n ih =>
    obtain ⟨t, b₁, ht, hexchange, hhears⟩ := h.exchange 0xFF
    rw [List.append_assoc, ← List.replicate_succ'] at ht hhears
    rw [hreply k (by omega) t ht] at hexchange hhears
    obtain ⟨b', hreceive, hrest⟩ := ih (k + 1) (fun i hi => hreply i (by omega)) hhears
    refine ⟨b', ?_, by rwa [Nat.add_assoc, Nat.add_comm 1 n] at hrest⟩
    rw [Spi.receive_succ, hexchange]
    simp only [hreceive, Except.map]
    rw [List.range_succ_eq_map, List.map_cons, List.map_map]
    simp only [Nat.add_zero, Function.comp_def, Nat.succ_eq_add_one, Nat.add_assoc,
      Nat.add_comm 1]

/-! ## Instructions -/

/-- An instruction that does not read the status is answered byte by byte and takes effect when it
ends. -/
theorem Holds.execute (h : b.Holds slot c) (i : Instruction) (reply : Nat → UInt8)
    (hopcode : i.opcode ≠ 0x05)
    (hreply : ∀ k < i.replyLength, ∀ t : Transaction,
      t.toList = i.bytes ++ List.replicate (k + 1) 0xFF → c.respond t = (reply k, c)) :
    ∃ b', Flash.execute slot i b = (.ok ((List.range i.replyLength).map reply), b') ∧
      b'.Holds slot (c.finish (i.bytes ++ List.replicate i.replyLength 0xFF)) := by
  obtain ⟨t, b₁, ht, hexchange, hhears⟩ := h.select.exchange i.opcode
  have hhead : t.head.headD 0 ≠ 0x05 := by
    rw [← t.take_toList, ht]
    exact hopcode
  rw [NorFlash.respond_snd hhead] at hhears
  have hfirst : b₁.Hears slot c [i.opcode] := hhears
  obtain ⟨b₂, hsend, hsent⟩ := hfirst.send hopcode
    (i.address.elim [] addressBytes ++ List.replicate i.fillers 0 ++ i.payload)
  have hasked : b₂.Hears slot c (i.bytes ++ List.replicate 0 0xFF) := by
    rw [List.replicate_zero, List.append_nil]
    exact hsent
  obtain ⟨b₃, hreceive, hreceived⟩ := hasked.receive i.replyLength 0 (by simpa using hreply)
  simp only [Nat.zero_add] at hreceive hreceived
  have hbytes : i.bytes = i.opcode ::
      (i.address.elim [] addressBytes ++ List.replicate i.fillers 0 ++ i.payload) := rfl
  refine ⟨Spi.deselect b₃, ?_, hreceived.deselect⟩
  simp only [Flash.execute, clock, hbytes, Spi.send, hexchange, hsend]
  rw [hreceive]

theorem Holds.readData (h : b.Holds slot c) (address length : Nat) :
    ∃ b', Flash.readData slot address length b =
        (.ok (c.readRange (address % 0x1000000) length), b') ∧ b'.Holds slot c := by
  have hbytes : (Instruction.readData address length).bytes = 0x03 :: addressBytes address := by
    simp [Instruction.readData, Instruction.bytes]
  obtain ⟨b', hread, hdone⟩ := h.execute (.readData address length)
    (fun k => c.read (address % 0x1000000 + k)) (show (0x03 : UInt8) ≠ 0x05 by decide)
    fun k _ t ht => by
      rw [hbytes] at ht
      exact NorFlash.respond_read ht
  rw [hbytes, List.cons_append, NorFlash.finish_read c _ (by decide)] at hdone
  exact ⟨b', hread, hdone⟩

/-- The id is read also while the chip is at work. -/
theorem Holds.readId (h : b.Holds slot c) :
    ∃ b', Flash.readId slot b = (.ok ⟨c.id.getD 0 0xFF, c.id.getD 1 0xFF, c.id.getD 2 0xFF⟩, b') ∧
      b'.Holds slot c := by
  obtain ⟨b', hread, hdone⟩ := h.execute .readId (fun k => c.id.getD k 0xFF) (by decide)
    fun _ _ _ ht => NorFlash.respond_id ht
  have hbytes : Instruction.readId.bytes = [0x9F] := by decide
  rw [hbytes, List.singleton_append, NorFlash.finish_read c _ (by decide)] at hdone
  exact ⟨b', by simp only [Flash.readId, hread]; rfl, hdone⟩

/-- An instruction without a reply takes effect when it ends. -/
theorem Holds.command (h : b.Holds slot c) {i : Instruction} (hopcode : i.opcode ≠ 0x05)
    (hreply : i.replyLength = 0) :
    ∃ b', Flash.command slot i b = (.ok (), b') ∧ b'.Holds slot (c.finish i.bytes) := by
  obtain ⟨b', hexecute, hdone⟩ := h.execute i (fun _ => 0) hopcode fun k hk => by omega
  rw [hreply, List.replicate_zero, List.append_nil] at hdone
  exact ⟨b', by simp only [Flash.command, hexecute]; rfl, hdone⟩

/-- An idle chip does what it is told after a write enable. -/
theorem Holds.modify (h : b.Holds slot c) (hidle : c.isBusy = false) {i : Instruction}
    (hopcode : i.opcode ≠ 0x05) (hreply : i.replyLength = 0) :
    ∃ b', Flash.modify slot i b = (.ok (), b') ∧ b'.Holds slot (c.ready.finish i.bytes) := by
  obtain ⟨b₁, henable, henabled⟩ := h.command (i := .writeEnable) (by decide) rfl
  have hready : c.finish Instruction.writeEnable.bytes = c.ready := by
    rw [NorFlash.ready_eq hidle]
    simp [Instruction.writeEnable, Instruction.bytes, NorFlash.finish, hidle]
  rw [hready] at henabled
  obtain ⟨b₂, hcommand, hdone⟩ := henabled.command hopcode hreply
  exact ⟨b₂, by simp only [Flash.modify, Flash.writeEnable, henable, hcommand], hdone⟩

/-- A status read brings the work of the chip on by one. -/
theorem Holds.isBusy (h : b.Holds slot c) :
    ∃ b', Flash.isBusy slot b = (.ok c.isBusy, b') ∧
      b'.Holds slot { c with busy := c.busy - 1 } := by
  obtain ⟨t₁, b₁, ht₁, hopcode, hhears₁⟩ := h.select.exchange 0x05
  have hlength : t₁.length = 1 := by rw [← t₁.length_toList, ht₁]; rfl
  have hquiet : c.respond t₁ = (0xFF, c) := by simp [NorFlash.respond, hlength]
  rw [hquiet] at hhears₁
  obtain ⟨t₂, b₂, ht₂, hfiller, hhears₂⟩ := hhears₁.exchange 0xFF
  rw [NorFlash.respond_status ht₂] at hfiller hhears₂
  refine ⟨Spi.deselect b₂, ?_, ?_⟩
  · have hbytes : Instruction.readStatus.bytes = [0x05] := rfl
    simp only [Flash.isBusy, readStatus, Flash.execute, clock, hbytes, Spi.send, hopcode]
    simp only [Instruction.readStatus, Spi.receive_succ, Spi.receive_zero, hfiller, Except.map,
      List.getD_cons_zero, NorFlash.isBusyStatus_status]
  · have hdone := hhears₂.deselect
    rwa [List.nil_append, List.singleton_append, NorFlash.finish_read _ _ (by decide)] at hdone

/-- A chip that comes to rest is found idle within as many polls. -/
theorem Holds.waitIdle {polls : Nat} (h : b.Holds slot c) (hstuck : c.stuck = false)
    (hbusy : c.busy < polls) :
    ∃ b', Flash.waitIdle slot polls b = (.ok (), b') ∧ b'.Holds slot c.rested := by
  induction polls generalizing b c with
  | zero => exact absurd hbusy (Nat.not_lt_zero _)
  | succ polls ih =>
    obtain ⟨b₁, hpoll, hholds⟩ := h.isBusy
    rw [NorFlash.isBusy_eq hstuck] at hpoll
    simp only [Flash.waitIdle, hpoll]
    cases hzero : decide (0 < c.busy) with
    | false =>
      have hrest : c.busy = 0 := by simpa using hzero
      refine ⟨b₁, rfl, ?_⟩
      rwa [hrest] at hholds
    | true =>
      have hpos : 0 < c.busy := by simpa using hzero
      exact ih (c := { c with busy := c.busy - 1 }) hholds hstuck
        (show c.busy - 1 < polls by omega)

/-- Memory is read once the chip has come to rest. -/
theorem Holds.readIdle {polls : Nat} (h : b.Holds slot c) (hstuck : c.stuck = false)
    (hbusy : c.busy < polls) (address length : Nat) :
    ∃ b', Programmer.readIdle slot polls address length b =
        (.ok (c.readRange (address % 0x1000000) length), b') ∧ b'.Holds slot c.rested := by
  obtain ⟨b₁, hwait, hrested⟩ := h.waitIdle hstuck hbusy
  obtain ⟨b₂, hread, hdone⟩ := hrested.readData address length
  exact ⟨b₂, by simp only [Programmer.readIdle, hwait, hread, NorFlash.readRange_rested], hdone⟩

end FlashBus

end FlashProgrammer.Bench

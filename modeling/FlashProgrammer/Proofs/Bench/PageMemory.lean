import FlashProgrammer.Proofs.Bench.ChipAnswers

/-!
# A page in memory

An idle chip with its write latch set erases the block it is told to erase and programs
the page it is told to program.  Programming only clears bits, so a page reads as its
data only if it was erased before: `readRange_rewritten` says that it does then, with
ones behind the data, and `rewritten_of_ne` that nothing outside the block changed.
-/

namespace FlashProgrammer.Bench.NorFlash

open Flash

variable {c : NorFlash}

/-! ## Instructions that modify -/

/-- A chip that is ready does what modifies it. -/
theorem finish_ready (c : NorFlash) {opcode : UInt8} (h : opcode ≠ 0x06 ∧ opcode ≠ 0x04)
    (rest : List UInt8) :
    c.ready.finish (opcode :: rest) = c.ready.modify opcode (opcode :: rest) := by
  have hidle : c.ready.isBusy = false := rfl
  have hwritable : c.ready.writable = true := rfl
  simp [finish, hidle, hwritable, h]

/-- An idle chip that has modified its memory and come to rest again. -/
theorem rested_start {c : NorFlash} (h : c.isBusy = false) (cells : Nat → UInt8) :
    (c.ready.start cells).rested = { c with cells, writable := false } := by
  obtain ⟨hstuck, hbusy⟩ := idle_iff.mp h
  simp only [ready, start, rested, hstuck, hbusy]

theorem rested_eq {c : NorFlash} (h : c.isBusy = false) : c.rested = c := by
  rw [rested, ← (idle_iff.mp h).2]

/-- The opcodes that erase a block. -/
theorem mem_of_eraseLength? {opcode : UInt8} {length : Nat}
    (h : eraseLength? opcode = some length) : opcode ∈ [0x20, 0x52, 0xD8] := by
  rw [eraseLength?] at h
  split at h
  · simp [*]
  · split at h
    · simp [*]
    · split at h
      · simp [*]
      · cases h

theorem finish_blockErase {opcode : UInt8} {length : Nat} (h : eraseLength? opcode = some length)
    (c : NorFlash) (address : Nat) :
    c.ready.finish (Instruction.blockErase opcode address).bytes =
      c.ready.start (c.erased (address % 0x1000000) length) := by
  have hbytes : (Instruction.blockErase opcode address).bytes =
      opcode :: (addressBytes address ++ []) := by
    simp [Instruction.blockErase, Instruction.bytes]
  have hmodifies : (opcode ≠ 0x06 ∧ opcode ≠ 0x04) ∧ ¬(opcode = 0xC7 ∨ opcode = 0x60) ∧
      opcode ≠ 0x02 := by
    have hopcode := mem_of_eraseLength? h
    simp only [List.mem_cons, List.not_mem_nil, or_false] at hopcode
    rcases hopcode with rfl | rfl | rfl <;> decide
  obtain ⟨hready, hchip, hprogram⟩ := hmodifies
  rw [hbytes, finish_ready c hready, modify, if_neg hchip, if_neg (by simp), if_neg hprogram, h]
  show c.ready.start (c.erased (addressOf _) length) = _
  rw [addressOf_bytes]

theorem finish_pageProgram (c : NorFlash) (address : Nat) (data : List UInt8) :
    c.ready.finish (Instruction.pageProgram address data).bytes =
      c.ready.start (c.programmed (address % 0x1000000) data) := by
  have hbytes : (Instruction.pageProgram address data).bytes =
      0x02 :: (addressBytes address ++ data) := by
    simp [Instruction.pageProgram, Instruction.bytes]
  have hlong : ¬(0x02 :: (addressBytes address ++ data)).length < 4 := by
    simp
  have hdata : (0x02 :: (addressBytes address ++ data)).drop 4 = data := by
    rw [List.drop_succ_cons, List.drop_left' (length_addressBytes address)]
  rw [hbytes, finish_ready c (by decide), modify, if_neg (by decide), if_neg hlong, if_pos rfl,
    hdata]
  show c.ready.start (c.programmed (addressOf _) data) = _
  rw [addressOf_bytes]

/-! ## Programming -/

/-- Programming clears the bits of a cell that its byte clears. -/
theorem programCell_eq (offset : Nat) (cell : UInt8) (start : Nat) (data : List UInt8)
    (hfits : start % 256 + data.length ≤ 256) :
    programCell offset cell start data =
      if start % 256 ≤ offset then cell &&& data.getD (offset - start % 256) 0xFF else cell := by
  have hones : ∀ byte : UInt8, byte &&& 0xFF = byte := fun byte => UInt8.and_neg_one
  induction data generalizing cell start with
  | nil => simp [programCell, hones]
  | cons b rest ih =>
    rw [List.length_cons] at hfits
    have hrest : programCell offset (if start % 256 = offset then cell &&& b else cell) (start + 1)
        rest = if start % 256 + 1 ≤ offset
          then cell &&& rest.getD (offset - (start % 256 + 1)) 0xFF
          else if start % 256 = offset then cell &&& b else cell := by
      -- The last byte may stand at the end of the page, and then the next place is its beginning.
      cases rest with
      | nil =>
        rw [programCell, List.getD_nil, hones]
        split
        · next heq => rw [if_neg (by omega)]
        · split <;> rfl
      | cons b' rest =>
        rw [List.length_cons] at hfits
        have hnext : (start + 1) % 256 = start % 256 + 1 := by omega
        rw [ih _ (start + 1) (by rw [List.length_cons]; omega), hnext]
        split
        · rw [if_neg (by omega)]
        · rfl
    rw [programCell, hrest]
    rcases Nat.lt_trichotomy (start % 256) offset with hlt | heq | hgt
    · obtain ⟨k, hk⟩ : ∃ k, offset - start % 256 = k + 1 := ⟨offset - start % 256 - 1, by omega⟩
      have hprevious : offset - (start % 256 + 1) = k := by omega
      rw [if_pos (by omega), if_pos (by omega), hk, hprevious, List.getD_cons_succ]
    · rw [if_neg (by omega), if_pos heq, if_pos (by omega), heq, Nat.sub_self,
        List.getD_cons_zero]
    · rw [if_neg (by omega), if_neg (by omega), if_neg (by omega)]

/-! ## A page that is erased and programmed -/

/-- The cells after the block that holds a page was erased and the page was programmed. -/
def rewritten (c : NorFlash) (length page : Nat) (data : List UInt8) : Nat → UInt8 :=
  { c with cells := c.erased (page * 256) length }.programmed (page * 256) data

/-- A block may be named by where it begins. -/
theorem erased_block (c : NorFlash) {length : Nat} (hlength : 0 < length) (address : Nat) :
    c.erased (address / length * length) length = c.erased address length := by
  funext a
  rw [erased, erased, Nat.mul_div_cancel _ hlength]

/-- A block holds whole pages. -/
theorem block_of_page {length : Nat} (hlength : 256 ∣ length) (a : Nat) :
    a / length = a / 256 * 256 / length := by
  obtain ⟨pages, rfl⟩ := hlength
  rw [← Nat.div_div_eq_div_mul, ← Nat.div_div_eq_div_mul, Nat.mul_div_cancel _ (by decide)]

/-- Nothing outside the block changes. -/
theorem rewritten_of_ne {length page a : Nat} (hlength : 256 ∣ length)
    (ha : a / length ≠ page * 256 / length) (data : List UInt8) :
    c.rewritten length page data a = c.cells a := by
  have hpage : a / 256 ≠ page * 256 / 256 := by
    rw [Nat.mul_div_cancel _ (by decide)]
    intro heq
    rw [block_of_page hlength a, heq] at ha
    exact ha rfl
  show (if a / 256 = page * 256 / 256 then _ else c.erased (page * 256) length a) = _
  rw [if_neg hpage, erased, if_neg ha]

/-- The page holds its data, and ones behind it. -/
theorem rewritten_page {length page i : Nat} {data : List UInt8} (hlength : 256 ∣ length)
    (hi : i < 256) (hdata : data.length ≤ 256) :
    c.rewritten length page data (page * 256 + i) = data.getD i 0xFF := by
  have hpage : (page * 256 + i) / 256 = page * 256 / 256 := by omega
  have hoffset : (page * 256 + i) % 256 = i := by omega
  have haligned : page * 256 % 256 = 0 := Nat.mul_mod_left page 256
  have herased : c.erased (page * 256) length (page * 256 + i) = 0xFF := by
    rw [erased, if_pos]
    rw [block_of_page hlength, hpage, Nat.mul_div_cancel _ (by decide)]
  show (if (page * 256 + i) / 256 = page * 256 / 256 then
    programCell ((page * 256 + i) % 256) (c.erased (page * 256) length (page * 256 + i))
      (page * 256) data else _) = _
  rw [if_pos hpage, hoffset, herased, programCell_eq _ _ _ _ (by omega), haligned,
    if_pos (Nat.zero_le i), Nat.sub_zero]
  exact UInt8.neg_one_and

theorem readRange_rewritten {length page : Nat} {data : List UInt8} {n : Nat} {c' : NorFlash}
    (hcells : c'.cells = c.rewritten length page data) (hlength : 256 ∣ length) (hn : n ≤ 256)
    (hdata : data.length ≤ n) (hsize : page * 256 + n ≤ c'.size) :
    c'.readRange (page * 256) n = data ++ List.replicate (n - data.length) 0xFF := by
  refine List.ext_getElem (by simp [readRange]; omega) fun i hi _ => ?_
  have hin : i < n := by simpa [readRange] using hi
  simp only [readRange, List.getElem_map, List.getElem_range, read]
  rw [if_pos (by omega), hcells, rewritten_page hlength (by omega) (by omega),
    List.getD_eq_getElem?_getD, List.getElem_append]
  split
  · next h => simp [h]
  · next h => simp [h]

end FlashProgrammer.Bench.NorFlash

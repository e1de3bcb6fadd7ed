import FlashProgrammer.Programmer.Poll
import FlashProgrammer.Proofs.Flash.Identified
import FlashProgrammer.Proofs.Flash.Said
import FlashProgrammer.Proofs.Trace.Erasure

/-!
# What serving a request does

`Serves s r data ts reply s'` lists everything that serving the request `r` can come
to: from the programmer `s` it takes the bytes `data` from the host, issues the
transactions `ts`, answers `reply` and leaves `s'`.  There is one constructor for each way
through the firmware, with all that the firmware checked on that way.

`serves` says that the list is complete, for any hardware.  Every later statement
about requests is a case analysis of `Serves` and never opens the firmware again.
-/

namespace FlashProgrammer.Programmer

open Flash Protocol Usb Trace

/-! ## Requests for an erase -/

/-- The first and last block that an erase request names.  Erasing the whole chip counts as its
first block, and a status request names none. -/
def span? (first last : Nat) : EraseOperation → Option (Nat × Nat)
  | .all => some (0, 0)
  | .page => some (first, first)
  | .pageRange => some (first, last)
  | .status => none

/-- The instruction that an erase request starts with. -/
def firstErase (g : Geometry) (first : Nat) : EraseOperation → Instruction
  | .all => .chipErase
  | _ => .blockErase g.eraseOpcode (g.blockAddress first)

/-- At most one chip is targeted. -/
theorem selected_unique {s : Programmer} {slot slot' : Slot} {g g' : Geometry}
    (h : s.selected = some (slot, g)) (h' : s.selected = some (slot', g')) :
    slot' = slot ∧ g' = g := by
  rw [h] at h'
  cases h'
  exact ⟨rfl, rfl⟩

theorem Job.at?_eq_none {j : Job} : j.at? = none ↔ j = .idle := by
  cases j <;> simp [Job.at?]

/-! ## The data of a write -/

/-- The programmer takes the data of a write. -/
def takesData (s : Programmer) (page count : Nat) : Bool :=
  match s.selected, s.job.at? with
  | some (_, g), none => !(count = 0 || g.pageLength < count || g.pageCount ≤ page)
  | _, _ => false

/-- The bytes that came for a write whose data was taken.  No other request brings data. -/
def dataOf {ω : Type} [Controller ω] (r : Request) (s : Programmer × Link ω) : List UInt8 :=
  match r with
  | .write page count =>
    if s.1.takesData page.val count.val then
      (s.2.gather flashEndpoint count.val count.val).1.bytes
    else []
  | _ => []

/-! ## The outcomes -/

/-- What serving a request can come to. -/
inductive Serves (s : Programmer) :
    Request → List UInt8 → List Transaction → Option Response → Programmer → Prop where
  /-- The number of chips is fixed. -/
  | deviceCount :
      Serves s .deviceCount [] [] (some (.deviceCount Slot.internalCount Slot.externalCount)) s
  /-- There is no such slot to list. -/
  | listedNone {number bus : UInt8} (hslot : Slot.find? number bus = none) :
      Serves s (.listDevice number bus) [] [] (some (.listDevice .missing)) s
  /-- The chip of a slot was identified. -/
  | listed {number bus : UInt8} {slot : Slot} {g : Geometry} {ts : List Transaction}
      (hslot : Slot.find? number bus = some slot) (hg : Identified g)
      (hasks : ∀ t ∈ ts, Asks slot t) :
      Serves s (.listDevice number bus) [] ts (some (.listDevice (deviceInfo g))) s
  /-- There is no such slot to target. -/
  | targetedNone {number bus : UInt8} (hslot : Slot.find? number bus = none) :
      Serves s (.targetDevice number bus) [] [] (some .targetDevice)
        { s with job := .idle, written := none, target := none, geometry := none }
  /-- The chip of a slot was identified and targeted. -/
  | targeted {number bus : UInt8} {slot : Slot} {g : Geometry} {ts : List Transaction}
      (hslot : Slot.find? number bus = some slot) (hg : Identified g)
      (hasks : ∀ t ∈ ts, Asks slot t) :
      Serves s (.targetDevice number bus) [] ts (some .targetDevice)
        { s with job := .idle, written := none, target := some slot, geometry := some g }
  /-- There is no target to erase. -/
  | eraseUntargeted {operation : EraseOperation} {first last : PageNumber}
      (hsel : s.selected = none) :
      Serves s (.erase operation first last) [] [] (some (eraseResponse .invalid first.val)) s
  /-- The status could not be read. -/
  | statusUnread {first last : PageNumber} {slot : Slot} {g : Geometry} {t : Transaction}
      {e : Fault} (hsel : s.selected = some (slot, g)) (hpolls : Polls slot (.error e) t) :
      Serves s (.erase .status first last) [] [t] (some (eraseResponse .invalid s.job.position)) s
  /-- The chip is at work. -/
  | statusBusy {first last : PageNumber} {slot : Slot} {g : Geometry} {t : Transaction}
      (hsel : s.selected = some (slot, g)) (hpolls : Polls slot (.ok true) t) :
      Serves s (.erase .status first last) [] [t] (some (eraseResponse .inProgress s.job.position)) s
  /-- The chip is done, and no block is left. -/
  | statusDone {first last : PageNumber} {slot : Slot} {g : Geometry} {t : Transaction}
      (hsel : s.selected = some (slot, g)) (hpolls : Polls slot (.ok false) t)
      (hlast : ∀ current next last, s.job = .erase current next last → last < next) :
      Serves s (.erase .status first last) [] [t] (some (eraseResponse .complete s.job.position))
        { s with job := .idle }
  /-- The chip is done, and the next block was started. -/
  | statusNext {first last : PageNumber} {slot : Slot} {g : Geometry} {t : Transaction}
      {ts : List Transaction} {current next final : Nat} (hsel : s.selected = some (slot, g))
      (hpolls : Polls slot (.ok false) t) (hjob : s.job = .erase current next final)
      (hnext : next ≤ final)
      (hmodifies : Modifies slot (.blockErase g.eraseOpcode (g.blockAddress next)) (.ok ()) ts) :
      Serves s (.erase .status first last) [] (t :: ts) (some (eraseResponse .inProgress next))
        { s with job := .erase next (next + 1) final }
  /-- The chip is done, and the next block could not be started. -/
  | statusNextFailed {first last : PageNumber} {slot : Slot} {g : Geometry} {t : Transaction}
      {ts : List Transaction} {current next final : Nat} {e : Fault}
      (hsel : s.selected = some (slot, g)) (hpolls : Polls slot (.ok false) t)
      (hjob : s.job = .erase current next final) (hnext : next ≤ final)
      (hmodifies :
        Modifies slot (.blockErase g.eraseOpcode (g.blockAddress next)) (.error e) ts) :
      Serves s (.erase .status first last) [] (t :: ts) (some (eraseResponse .invalid next))
        { s with job := .idle }
  /-- Something is outstanding, and nothing else is erased. -/
  | eraseOutstanding {operation : EraseOperation} {first last : PageNumber}
      {blocks : Nat × Nat} {slot : Slot} {g : Geometry} {active : Nat}
      (hsel : s.selected = some (slot, g))
      (hspan : span? first.val last.val operation = some blocks) (hjob : s.job.at? = some active) :
      Serves s (.erase operation first last) [] [] (some (eraseResponse .inProgress active)) s
  /-- There are no such blocks. -/
  | eraseOutOfRange {operation : EraseOperation} {first last : PageNumber} {b e : Nat}
      {slot : Slot} {g : Geometry} (hsel : s.selected = some (slot, g))
      (hspan : span? first.val last.val operation = some (b, e)) (hjob : s.job = .idle)
      (hrange : e < b ∨ g.eraseBlocks ≤ e) :
      Serves s (.erase operation first last) [] [] (some (eraseResponse .invalid first.val)) s
  /-- The first block was started. -/
  | eraseStarted {operation : EraseOperation} {first last : PageNumber} {b e : Nat}
      {slot : Slot} {g : Geometry} {ts : List Transaction} (hsel : s.selected = some (slot, g))
      (hspan : span? first.val last.val operation = some (b, e)) (hjob : s.job = .idle)
      (hle : b ≤ e) (hblocks : e < g.eraseBlocks)
      (hmodifies : Modifies slot (firstErase g first.val operation) (.ok ()) ts) :
      Serves s (.erase operation first last) [] ts (some (eraseResponse .inProgress b))
        { s with job := .erase b (b + 1) e }
  /-- The first block could not be started. -/
  | eraseFailed {operation : EraseOperation} {first last : PageNumber} {b e : Nat}
      {slot : Slot} {g : Geometry} {ts : List Transaction} {fault : Fault}
      (hsel : s.selected = some (slot, g))
      (hspan : span? first.val last.val operation = some (b, e)) (hjob : s.job = .idle)
      (hle : b ≤ e) (hblocks : e < g.eraseBlocks)
      (hmodifies : Modifies slot (firstErase g first.val operation) (.error fault) ts) :
      Serves s (.erase operation first last) [] ts (some (eraseResponse .invalid b)) s
  /-- There is no such page to read. -/
  | readRefused {page : PageNumber}
      (hrefused : ∀ slot g, s.selected = some (slot, g) → g.pageCount ≤ page.val) :
      Serves s (.read page) [] [] none s
  /-- A page was read, or it was tried. -/
  | readTried {page : PageNumber} {slot : Slot} {g : Geometry} {ts : List Transaction}
      {result : Except Fault (List UInt8)} (hsel : s.selected = some (slot, g))
      (hpage : page.val < g.pageCount)
      (hreads : ReadsIdle slot s.budget.flashPolls (g.pageAddress page.val) g.pageLength result ts) :
      Serves s (.read page) [] ts none s
  /-- The data of a write is not wanted. -/
  | writeRefused {page count : PageNumber} (hrefused : s.takesData page.val count.val = false) :
      Serves s (.write page count) [] [] none s
  /-- Not all data of a write came.  What came stands in the front of the page buffer. -/
  | writeIncomplete {page count : PageNumber} {slot : Slot} {g : Geometry} {bytes : List UInt8}
      (hsel : s.selected = some (slot, g)) (hjob : s.job = .idle) (hpos : 0 < count.val)
      (hcount : count.val ≤ g.pageLength) (hpage : page.val < g.pageCount)
      (hbytes : bytes.length < count.val) :
      Serves s (.write page count) bytes [] none { s with page := bytes ++ s.page.drop bytes.length }
  /-- The data of a write came and its page was started. -/
  | writeProgrammed {page count : PageNumber} {slot : Slot} {g : Geometry} {bytes : List UInt8}
      {ts : List Transaction} (hsel : s.selected = some (slot, g)) (hjob : s.job = .idle)
      (hpos : 0 < count.val) (hcount : count.val ≤ g.pageLength) (hpage : page.val < g.pageCount)
      (hbytes : bytes.length = count.val)
      (hmodifies : Modifies slot (.pageProgram (g.pageAddress page.val) bytes) (.ok ()) ts) :
      Serves s (.write page count) bytes ts none
        { s with
          page := bytes ++ s.page.drop bytes.length
          job := .write page.val
          written := some ⟨page.val, count.val⟩ }
  /-- The data of a write came, and its page could not be started. -/
  | writeFailed {page count : PageNumber} {slot : Slot} {g : Geometry} {bytes : List UInt8}
      {ts : List Transaction} {e : Fault} (hsel : s.selected = some (slot, g))
      (hjob : s.job = .idle) (hpos : 0 < count.val) (hcount : count.val ≤ g.pageLength)
      (hpage : page.val < g.pageCount) (hbytes : bytes.length = count.val)
      (hmodifies : Modifies slot (.pageProgram (g.pageAddress page.val) bytes) (.error e) ts) :
      Serves s (.write page count) bytes ts none
        { s with page := bytes ++ s.page.drop bytes.length, written := none }
  /-- There is nothing to compare. -/
  | verifyNothing (hnothing : s.selected = none ∨ s.written = none) :
      Serves s .verify [] [] (some (.verify .invalid)) s
  /-- The page that was written last was read and compared. -/
  | verifyRead {slot : Slot} {g : Geometry} {written : Written} {ts : List Transaction}
      {bytes : List UInt8} (hsel : s.selected = some (slot, g))
      (hwritten : s.written = some written)
      (hreads : ReadsIdle slot s.budget.flashPolls (g.pageAddress written.page) written.length
        (.ok bytes) ts) :
      Serves s .verify [] ts
        (some (.verify (if bytes = s.page.take written.length then .agrees else .differs))) s
  /-- The page that was written last could not be read. -/
  | verifyUnread {slot : Slot} {g : Geometry} {written : Written} {ts : List Transaction}
      {e : Fault} (hsel : s.selected = some (slot, g)) (hwritten : s.written = some written)
      (hreads : ReadsIdle slot s.budget.flashPolls (g.pageAddress written.page) written.length
        (.error e) ts) :
      Serves s .verify [] ts (some (.verify .invalid)) s
  /-- The reset line was pulsed. -/
  | resetTarget : Serves s .resetTarget [] [] (some .resetTarget) s

/-! ## The functions of the firmware -/

section Answering

variable {ω : Type} [Spi.Bus ω]

theorem readIdle_readsIdle (slot : Slot) (polls address length : Nat) (w : Traced ω) :
    ∃ ts, ReadsIdle slot polls address length (readIdle slot polls address length w).1 ts ∧
      Issues ts w (readIdle slot polls address length w).2 := by
  obtain ⟨ts, hwaits, hissues⟩ := waitIdle_waits slot polls w
  rw [readIdle]
  generalize waitIdle slot polls w = waited at hwaits hissues ⊢
  obtain ⟨_ | _, w'⟩ := waited
  · exact ⟨ts, .kept hwaits, hissues⟩
  · obtain ⟨t, hcarries, hread⟩ := execute_carries slot (.readData address length) w'
    exact ⟨ts ++ [t], .read hwaits hcarries, hissues.trans hread⟩

theorem eraseStatus_serves {s : Programmer} {slot : Slot} {g : Geometry}
    (hsel : s.selected = some (slot, g)) (first last : PageNumber) (w : Traced ω) :
    ∃ ts, Serves s (.erase .status first last) [] ts (some (s.eraseStatus slot g w).1)
        (s.eraseStatus slot g w).2.1 ∧
      Issues ts w (s.eraseStatus slot g w).2.2 := by
  obtain ⟨t, hpolls, hissues⟩ := isBusy_polls slot w
  rw [eraseStatus]
  generalize isBusy slot w = asked at hpolls hissues ⊢
  obtain ⟨_ | _ | _, w'⟩ := asked
  · exact ⟨[t], .statusUnread hsel hpolls, hissues⟩
  · cases hjob : s.job with
    | idle =>
      have hdone : Serves s (.erase .status first last) [] [t] _ _ :=
        .statusDone hsel hpolls fun _ _ _ h => by rw [hjob] at h; cases h
      rw [hjob] at hdone
      exact ⟨[t], hdone, hissues⟩
    | write page =>
      have hdone : Serves s (.erase .status first last) [] [t] _ _ :=
        .statusDone hsel hpolls fun _ _ _ h => by rw [hjob] at h; cases h
      rw [hjob] at hdone
      exact ⟨[t], hdone, hissues⟩
    | erase current next final =>
      simp only
      split
      · next hnext =>
        obtain ⟨ts, hmodifies, hstarted⟩ :=
          modify_modifies slot (.blockErase g.eraseOpcode (g.blockAddress next)) w'
        simp only [startBlock, startBlockErase]
        generalize Flash.modify slot _ w' = started at hmodifies hstarted ⊢
        obtain ⟨_ | _, w''⟩ := started
        · exact ⟨t :: ts, .statusNextFailed hsel hpolls hjob hnext hmodifies,
            hissues.trans hstarted⟩
        · exact ⟨t :: ts, .statusNext hsel hpolls hjob hnext hmodifies, hissues.trans hstarted⟩
      · next hnext =>
        have hdone : Serves s (.erase .status first last) [] [t] _ _ :=
          .statusDone hsel hpolls fun _ _ _ h => by rw [hjob] at h; cases h; omega
        rw [hjob] at hdone
        exact ⟨[t], hdone, hissues⟩
  · exact ⟨[t], .statusBusy hsel hpolls, hissues⟩

theorem startErase_serves {s : Programmer} {slot : Slot} {g : Geometry} {b e : Nat}
    (hsel : s.selected = some (slot, g)) (operation : EraseOperation) (first last : PageNumber)
    (hspan : span? first.val last.val operation = some (b, e)) (w : Traced ω) :
    ∃ ts, Serves s (.erase operation first last) [] ts
        (some (s.startErase g b e first.val
          (Flash.modify slot (firstErase g first.val operation)) w).1)
        (s.startErase g b e first.val
          (Flash.modify slot (firstErase g first.val operation)) w).2.1 ∧
      Issues ts w (s.startErase g b e first.val
        (Flash.modify slot (firstErase g first.val operation)) w).2.2 := by
  rw [startErase]
  cases hjob : s.job.at? with
  | some active => exact ⟨[], .eraseOutstanding hsel hspan hjob, issues_refl w⟩
  | none =>
    have hidle := Job.at?_eq_none.mp hjob
    simp only [Bool.or_eq_true, decide_eq_true_eq]
    split
    · next hrange => exact ⟨[], .eraseOutOfRange hsel hspan hidle hrange, issues_refl w⟩
    · next hrange =>
      obtain ⟨hle, hblocks⟩ : b ≤ e ∧ e < g.eraseBlocks := by omega
      obtain ⟨ts, hmodifies, hissues⟩ :=
        modify_modifies slot (firstErase g first.val operation) w
      generalize Flash.modify slot (firstErase g first.val operation) w =
        started at hmodifies hissues ⊢
      obtain ⟨_ | _, w'⟩ := started
      · exact ⟨ts, .eraseFailed hsel hspan hidle hle hblocks hmodifies, hissues⟩
      · exact ⟨ts, .eraseStarted hsel hspan hidle hle hblocks hmodifies, hissues⟩

theorem erase_serves (operation : EraseOperation) (first last : PageNumber) (s : Programmer)
    (w : Traced ω) :
    ∃ ts, Serves s (.erase operation first last) [] ts
        (some (s.erase operation first.val last.val w).1)
        (s.erase operation first.val last.val w).2.1 ∧
      Issues ts w (s.erase operation first.val last.val w).2.2 := by
  rw [erase]
  cases hsel : s.selected with
  | none => exact ⟨[], .eraseUntargeted hsel, issues_refl w⟩
  | some selected =>
    cases operation with
    | status => exact eraseStatus_serves hsel first last w
    | all => exact startErase_serves hsel .all first last rfl w
    | page => exact startErase_serves hsel .page first last rfl w
    | pageRange => exact startErase_serves hsel .pageRange first last rfl w

theorem verify_serves (s : Programmer) (w : Traced ω) :
    ∃ ts, Serves s .verify [] ts (some (.verify (s.verify w).1)) s ∧ Issues ts w (s.verify w).2 := by
  rw [verify]
  cases hsel : s.selected with
  | none => exact ⟨[], .verifyNothing (.inl hsel), issues_refl w⟩
  | some selected =>
    obtain ⟨slot, g⟩ := selected
    cases hwritten : s.written with
    | none => exact ⟨[], .verifyNothing (.inr hwritten), issues_refl w⟩
    | some written =>
      obtain ⟨ts, hreads, hissues⟩ := readIdle_readsIdle slot s.budget.flashPolls
        (g.pageAddress written.page) written.length w
      simp only
      generalize readIdle slot s.budget.flashPolls (g.pageAddress written.page) written.length w =
        read at hreads hissues ⊢
      obtain ⟨_ | bytes, w'⟩ := read
      · exact ⟨ts, .verifyUnread hsel hwritten hreads, hissues⟩
      · exact ⟨ts, .verifyRead hsel hwritten hreads, hissues⟩

/-- Requests with a response are served by answering them. -/
theorem answer_serves [ResetLine ω] (r : Request) (s : Programmer) (w : Traced ω)
    (hread : ∀ page, r ≠ .read page) (hwrite : ∀ page count, r ≠ .write page count) :
    ∃ ts, Serves s r [] ts (s.answer r w).1 (s.answer r w).2.1 ∧
      Issues ts w (s.answer r w).2.2 := by
  cases r with
  | deviceCount => exact ⟨[], .deviceCount, issues_refl w⟩
  | listDevice number bus =>
    simp only [answer, listDevice]
    cases hslot : Slot.find? number bus with
    | none => exact ⟨[], .listedNone hslot, issues_refl w⟩
    | some slot =>
      obtain ⟨ts, hasks, hissues⟩ := identify_asks slot w
      exact ⟨ts, .listed hslot (identified_identify slot w) hasks, hissues⟩
  | targetDevice number bus =>
    simp only [answer, targetDevice]
    cases hslot : Slot.find? number bus with
    | none => exact ⟨[], .targetedNone hslot, issues_refl w⟩
    | some slot =>
      obtain ⟨ts, hasks, hissues⟩ := identify_asks slot w
      exact ⟨ts, .targeted hslot (identified_identify slot w) hasks, hissues⟩
  | erase operation first last => exact erase_serves operation first last s w
  | verify => exact verify_serves s w
  | resetTarget => exact ⟨[], .resetTarget, issues_pulseReset w⟩
  | read page => exact absurd rfl (hread page)
  | write page count => exact absurd rfl (hwrite page count)

end Answering

/-! ## The data of a write -/

/-- The page buffer has room for any page. -/
theorem length_take_page {s : Programmer} (h : s.page.length = maxPageLength) (g : Geometry)
    {count : Nat} (hcount : count ≤ g.pageLength) : (s.page.take count).length = count := by
  rw [List.length_take, h]
  exact Nat.min_eq_left (Nat.le_trans hcount g.pageLength_le)

section Gathering

variable {ω : Type} [Controller ω]

theorem readPacket_length_le {ep : UInt8} {room : Nat} {p p' : Link ω} {bs : List UInt8}
    (h : p.readPacket ep room = (.ok bs, p')) : bs.length ≤ room := by
  rw [Link.readPacket] at h
  split at h
  · cases h
  · next e _ =>
    split at h
    · cases h
    · next q _ =>
      rw [Prod.mk.injEq, Except.ok.injEq] at h
      rw [← h.1]
      simp only [Link.takePacket, length_readFifo]
      exact Nat.min_le_right _ _

/-- All that was asked for came, or less and a fault. -/
theorem gather_length (ep : UInt8) {fuel need : Nat} (hfuel : need ≤ fuel) (p : Link ω) :
    ((p.gather ep fuel need).1.outcome = .ok () ∧
      (p.gather ep fuel need).1.bytes.length = need) ∨
    ((∃ e, (p.gather ep fuel need).1.outcome = .error e) ∧
      (p.gather ep fuel need).1.bytes.length < need) := by
  -- Every packet that is kept brings a byte or more, so fuel for each byte that is needed is enough.
  induction fuel generalizing need p with
  | zero =>
    obtain rfl : need = 0 := Nat.le_zero.mp hfuel
    exact .inl ⟨rfl, rfl⟩
  | succ fuel ih =>
    rw [Link.gather]
    split
    · next hzero => exact .inl ⟨rfl, hzero.symm⟩
    · next hzero =>
      have hpos := Nat.pos_of_ne_zero hzero
      cases hr : p.readPacket ep need with
      | mk outcome p' =>
        cases outcome with
        | error e => exact .inr ⟨⟨e, rfl⟩, hpos⟩
        | ok bs =>
          have hle := readPacket_length_le hr
          simp only
          split
          · exact .inr ⟨⟨_, rfl⟩, hpos⟩
          · next hempty =>
            have hbs : 0 < bs.length := by
              cases bs with
              | nil => exact absurd rfl hempty
              | cons b bs => exact Nat.succ_pos _
            have hrest := ih (show need - bs.length ≤ fuel by omega) p'
            simp only [List.length_append]
            rcases hrest with ⟨hok, hlength⟩ | ⟨herror, hlength⟩
            · exact .inl ⟨hok, by omega⟩
            · exact .inr ⟨herror, by omega⟩

/-- What is in front of a page after its first bytes were filled. -/
theorem fill_append {α : Type} (bytes page : List α) {count : Nat} (h : bytes.length ≤ count) :
    bytes ++ (page.take count).drop bytes.length ++ page.drop count =
      bytes ++ page.drop bytes.length := by
  have hsplit : page.drop count = (page.drop bytes.length).drop (count - bytes.length) := by
    rw [List.drop_drop, Nat.add_sub_cancel' h]
  rw [List.append_assoc, List.drop_take, hsplit, List.take_append_drop]

end Gathering

/-! ## The requests -/

section Serving

variable {ω : Type} [Spi.Bus ω] [Controller ω]

theorem servePage_serves (page : PageNumber) (s : Station (Traced ω)) :
    ∃ ts, Serves s.1 (.read page) [] ts none (servePage page.val s).1 ∧
      Issues ts s.2.hw (servePage page.val s).2.hw := by
  obtain ⟨s, p⟩ := s
  rw [servePage]
  simp only
  cases hsel : s.selected with
  | none =>
    exact ⟨[], .readRefused (fun _ _ h => by rw [hsel] at h; cases h),
      issues_of_used (used_stallEndpoint flashEndpoint .toHost p)⟩
  | some selected =>
    obtain ⟨slot, g⟩ := selected
    simp only
    split
    · next hpage =>
      obtain ⟨ts, hreads, hissues⟩ := readIdle_readsIdle slot s.budget.flashPolls
        (g.pageAddress page.val) g.pageLength p.hw
      generalize readIdle slot s.budget.flashPolls (g.pageAddress page.val) g.pageLength p.hw =
        read at hreads hissues ⊢
      obtain ⟨_ | bytes, w'⟩ := read
      · exact ⟨ts, .readTried hsel hpage hreads,
          hissues.quiet (issues_of_used (used_stallEndpoint flashEndpoint .toHost ⟨p.device, w'⟩))⟩
      · exact ⟨ts, .readTried hsel hpage hreads,
          hissues.quiet (issues_of_used (talks_write flashEndpoint bytes ⟨p.device, w'⟩).used)⟩
    · next hpage =>
      refine ⟨[], .readRefused fun slot' g' h => ?_,
        issues_of_used (used_stallEndpoint flashEndpoint .toHost p)⟩
      rw [hsel] at h
      cases h
      omega

theorem acceptPage_serves (page count : PageNumber) (s : Station (Traced ω))
    (hbuffer : s.1.page.length = maxPageLength) :
    ∃ ts, Serves s.1 (.write page count) (dataOf (.write page count) s) ts none
        (acceptPage page.val count.val s).1 ∧
      Issues ts s.2.hw (acceptPage page.val count.val s).2.hw := by
  obtain ⟨s, p⟩ := s
  have hstall := issues_of_used (used_stallEndpoint flashEndpoint .toDevice p)
  have hrefuse : ∀ hno : s.takesData page.val count.val = false,
      Serves s (.write page count) (dataOf (.write page count) (s, p)) [] none s := by
    intro hno
    rw [dataOf, hno]
    exact .writeRefused hno
  rw [acceptPage]
  simp only
  cases hsel : s.selected with
  | none => exact ⟨[], hrefuse (by simp [takesData, hsel]), hstall⟩
  | some selected =>
    obtain ⟨slot, g⟩ := selected
    cases hjob : s.job.at? with
    | some active => exact ⟨[], hrefuse (by simp [takesData, hsel, hjob]), hstall⟩
    | none =>
      have hidle := Job.at?_eq_none.mp hjob
      have htakes : s.takesData page.val count.val =
          !(count.val = 0 || g.pageLength < count.val || g.pageCount ≤ page.val) := by
        rw [takesData, hsel, hjob]
      simp only
      split
      · next hrefused => exact ⟨[], hrefuse (by simp [htakes, hrefused]), hstall⟩
      · next hrefused =>
        have hdata : dataOf (.write page count) (s, p) =
            (p.gather flashEndpoint count.val count.val).1.bytes := by
          simp only [dataOf, htakes, hrefused]
          rfl
        simp only [Bool.or_eq_true, decide_eq_true_eq] at hrefused
        have hneed : (s.page.take count.val).length = count.val :=
          length_take_page hbuffer g (by omega)
        have hpos : 0 < count.val := by omega
        have hcount : count.val ≤ g.pageLength := by omega
        have hpage : page.val < g.pageCount := by omega
        have hissues := issues_of_used (talks_fill flashEndpoint (s.page.take count.val) p).used
        have hgather := gather_length flashEndpoint (Nat.le_refl count.val) p
        rw [hdata]
        simp only [Link.fill, hneed] at hissues ⊢
        generalize p.gather flashEndpoint count.val count.val = gathered at hissues hgather ⊢
        obtain ⟨⟨bytes, outcome⟩, p'⟩ := gathered
        simp only at hissues hgather ⊢
        rcases hgather with ⟨rfl, hbytes⟩ | ⟨⟨e, rfl⟩, hbytes⟩
        · obtain ⟨ts, hmodifies, hstarted⟩ :=
            modify_modifies slot (.pageProgram (g.pageAddress page.val) bytes) p'.hw
          have hpayload : (bytes ++ s.page.drop bytes.length).take count.val = bytes := by
            rw [← hbytes, List.take_left]
          simp only [fill_append bytes s.page (Nat.le_of_eq hbytes), program, startPageProgram,
            hpayload]
          generalize Flash.modify slot _ p'.hw = started at hmodifies hstarted ⊢
          obtain ⟨_ | _, w''⟩ := started
          · exact ⟨ts, .writeFailed hsel hidle hpos hcount hpage hbytes hmodifies,
              hissues.trans hstarted⟩
          · exact ⟨ts, .writeProgrammed hsel hidle hpos hcount hpage hbytes hmodifies,
              hissues.trans hstarted⟩
        · simp only [fill_append bytes s.page (Nat.le_of_lt hbytes)]
          exact ⟨[], .writeIncomplete hsel hidle hpos hcount hpage hbytes,
            hissues.quiet (issues_of_used (used_stallEndpoint flashEndpoint .toDevice p'))⟩

variable [ResetLine ω]

theorem respond_serves (r : Request) (s : Station (Traced ω))
    (hread : ∀ page, r ≠ .read page) (hwrite : ∀ page count, r ≠ .write page count) :
    ∃ ts, Serves s.1 r [] ts (s.1.answer r s.2.hw).1 (respond r s).1 ∧
      Issues ts s.2.hw (respond r s).2.hw := by
  obtain ⟨ts, hserves, hissues⟩ := answer_serves r s.1 s.2.hw hread hwrite
  rw [respond]
  generalize s.1.answer r s.2.hw = answered at hserves hissues ⊢
  obtain ⟨_ | response, s', w'⟩ := answered
  · exact ⟨ts, hserves, hissues⟩
  · exact ⟨ts, hserves,
      hissues.quiet
        (issues_of_used (talks_write flashEndpoint response.encode ⟨s.2.device, w'⟩).used)⟩

theorem serve_serves (r : Request) (s : Station (Traced ω))
    (hbuffer : s.1.page.length = maxPageLength) :
    ∃ ts, Serves s.1 r (dataOf r s) ts (s.1.answer r s.2.hw).1 (serve r s).1 ∧
      Issues ts s.2.hw (serve r s).2.hw := by
  cases r with
  | read page => exact servePage_serves page s
  | write page count => exact acceptPage_serves page count s hbuffer
  | deviceCount => exact respond_serves .deviceCount s nofun nofun
  | listDevice number bus => exact respond_serves (.listDevice number bus) s nofun nofun
  | targetDevice number bus => exact respond_serves (.targetDevice number bus) s nofun nofun
  | erase operation first last =>
    exact respond_serves (.erase operation first last) s nofun nofun
  | verify => exact respond_serves .verify s nofun nofun
  | resetTarget => exact respond_serves .resetTarget s nofun nofun

/-- What comes for a request is the same under a guise. -/
theorem dataOf_station {ω' : Type} [Spi.Bus ω'] [Controller ω'] [ResetLine ω'] (x : Guise ω' ω)
    (r : Request) (s : Station ω') : dataOf r (x.station s) = dataOf r s := by
  cases r with
  | write page count =>
    have hgather := x.gather_link flashEndpoint count.val count.val s.2
    simp only [dataOf, Guise.station, hgather]
  | _ => rfl

/-- Tracing does not change what comes for a write. -/
theorem dataOf_traced (r : Request) (s : Station ω) :
    dataOf r (s.1, traced s.2) = dataOf r s :=
  (dataOf_station withoutTrace r (s.1, traced s.2)).symm

/-- The transactions that a request is served with. -/
def transactionsOf (r : Request) (s : Station ω) : List Transaction :=
  transactions (serve r (s.1, traced s.2)).2.hw.events

/-- The frame that a request is answered with, if it is answered with one. -/
def replyTo (r : Request) (s : Station ω) : Option Response := (s.1.answer r s.2.hw).1

/-- Serving a request comes to one of the outcomes. -/
theorem serves (r : Request) (s : Station ω) (hbuffer : s.1.page.length = maxPageLength) :
    Serves s.1 r (dataOf r s) (transactionsOf r s) (replyTo r s) (serve r s).1 := by
  obtain ⟨ts, hserves, hissues⟩ := serve_serves r (s.1, traced s.2) hbuffer
  have hts : transactionsOf r s = ts := hissues.transactions_eq
  have hreply : replyTo r s = (s.1.answer r (traced s.2).hw).1 :=
    congrArg Prod.fst (answer_hw r s.1 (traced s.2).hw)
  have hafter : (serve r s).1 = (serve r (s.1, traced s.2)).1 :=
    congrArg Prod.fst (serve_untraced r (s.1, traced s.2))
  rw [hts, hreply, hafter, ← dataOf_traced]
  exact hserves

end Serving

end FlashProgrammer.Programmer

import Mathlib
import FlashProgrammer.Bench.Rig
import FlashProgrammer.Proofs.Bench.FlashTransfers
import FlashProgrammer.Proofs.Bench.LoopGate
import FlashProgrammer.Proofs.Bench.PageMemory
import FlashProgrammer.Proofs.Programmer.Reachable
import FlashProgrammer.Proofs.Protocol.ResponseFrames

/-!
# From the host to a chip and back

A host on the bench makes requests, the main loop serves them, and a chip behind a slot
does what it is told.  `Meets x s told slot c` is such a bench between two requests: what
the programmer remembers, what the host was told, and what the chip is.

Each kind of request has a lemma that says what it makes of that.  `round_trip` puts them
together for a known part: a page that was written into an erased block comes back as it
was sent, with ones behind it, and nothing outside the block has changed.
-/

namespace FlashProgrammer.Programmer

open Bench Flash Protocol Usb

variable {ρ : Type} [ResetLine ρ]

/-! ## Requests -/

/-- A bench between two requests: what the programmer remembers, the packets that the host was
sent, and the chip in a slot. -/
structure Meets (x : Station (Fifos FlashBus ρ)) (s : Programmer) (told : List (List UInt8))
    (slot : Slot) (c : NorFlash) : Prop where
  programmer_eq : x.1 = s
  link_holds : ∃ sent b, sent.toList = told ∧ Awaits x.2 [] sent b ∧ b.Holds slot c

/-- The host makes requests, each with the packets that it queues behind it. -/
def converse (turns : List (Request × List (List UInt8))) (x : Station (Fifos FlashBus ρ)) :
    Station (Fifos FlashBus ρ) :=
  turns.foldl (fun x turn => exchange (turn.1.encode :: turn.2) x) x

theorem converse_append (turns turns' : List (Request × List (List UInt8)))
    (x : Station (Fifos FlashBus ρ)) :
    converse (turns ++ turns') x = converse turns' (converse turns x) :=
  List.foldl_append ..

variable {x : Station (Fifos FlashBus ρ)} {s : Programmer} {told : List (List UInt8)}
  {slot : Slot} {c : NorFlash} {g : Geometry}

/-- One request is served, and the main loop does nothing else. -/
theorem Meets.turn (h : Meets x s told slot c) {r : Request} {behind told' : List (List UInt8)}
    {s' : Programmer} {c' : NorFlash}
    (hserve : ∀ (q : Link (Fifos FlashBus ρ)) sent b, Awaits q behind sent b →
      sent.toList = told → q.hw.spi.Holds slot c →
      ∃ q', serve r (s, q) = (s', q') ∧ Meets (s', q') s' told' slot c') :
    Meets (converse [(r, behind)] x) s' told' slot c' := by
  obtain ⟨s₀, p⟩ := x
  obtain ⟨hs, sent, b, hsent, hawaits, hholds⟩ := h
  obtain rfl : s₀ = s := hs
  obtain ⟨q, hq, hexchange⟩ := hawaits.exchange (s := s₀) r behind
  obtain ⟨q', hserved, hmeets⟩ := hserve q sent b hq hsent (by rw [hq.spi_eq]; exact hholds)
  obtain ⟨sent', b', _, hdone, _⟩ := hmeets.link_holds
  rw [converse, List.foldl_cons, List.foldl_nil, hexchange _ hserved ⟨sent', b', hdone⟩]
  exact hmeets

/-- A request that is answered with one frame. -/
theorem Meets.answered (h : Meets x s told slot c) {r : Request} {response : Response}
    {s' : Programmer} {c' : NorFlash}
    (hserve : ∀ y : Station (Fifos FlashBus ρ), serve r y = respond r y)
    (hanswer : ∀ w : Fifos FlashBus ρ, w.spi.Holds slot c →
      ∃ b', s.answer r w = (some response, s', { w with spi := b' }) ∧ b'.Holds slot c') :
    Meets (converse [(r, [])] x) s' (told ++ [response.encode]) slot c' := by
  refine h.turn fun q sent b hq hsent hholds => ?_
  obtain ⟨b', hanswered, hholds'⟩ := hanswer q.hw hholds
  obtain ⟨q', hwrite, hdone⟩ := (hq.with hq.live b').write response.encode
  have hframe : packets response.encode = [response.encode] :=
    packets_of_fits (List.cons_ne_nil _ _) (Nat.le_trans response.length_encode_le (by decide))
  rw [hframe] at hdone
  refine ⟨q', ?_, rfl, _, b', by rw [Record.toList_append, hsent], hdone, hholds'⟩
  rw [hserve, respond]
  simp only [hanswered, hwrite]

/-- A known part is targeted. -/
theorem Meets.target (h : Meets x s told slot c) {number bus : UInt8}
    (hslot : Slot.find? number bus = some slot)
    (hknown : catalogued? ⟨c.id.getD 0 0xFF, c.id.getD 1 0xFF, c.id.getD 2 0xFF⟩ = some g) :
    Meets (converse [(.targetDevice number bus, [])] x)
      { s with job := .idle, written := none, target := some slot, geometry := some g }
      (told ++ [Response.targetDevice.encode]) slot c := by
  refine h.answered (fun _ => rfl) fun w hw => ?_
  obtain ⟨b', hread, hholds⟩ := hw.readId
  refine ⟨b', ?_, hholds⟩
  have hidentify : identify slot w.spi = (g, b') := by
    simp only [identify, hread, resolve, hknown]
  have htarget : s.targetDevice number bus w.spi =
      ({ s with job := .idle, written := none, target := some slot, geometry := some g }, b') := by
    simp only [targetDevice, hslot, hidentify]
  have hview := targetDevice_view (isView_around w) number bus s w.spi
  rw [htarget] at hview
  simp only [answer]
  rw [hview]

/-- An idle chip is told to erase a block. -/
theorem Meets.eraseBlock (h : Meets x s told slot c) (hsel : s.selected = some (slot, g))
    (hjob : s.job = .idle) {block : PageNumber} (hblock : block.val < g.eraseBlocks)
    (hidle : c.isBusy = false) (hopcode : g.eraseOpcode ≠ 0x05) (unused : PageNumber) :
    Meets (converse [(.erase .page block unused, [])] x)
      { s with job := .erase block.val (block.val + 1) block.val }
      (told ++ [(eraseResponse .inProgress block.val).encode]) slot
      (c.ready.finish
        (Instruction.blockErase g.eraseOpcode (g.blockAddress block.val)).bytes) := by
  refine h.answered (fun _ => rfl) fun w hw => ?_
  obtain ⟨b', hmodify, hholds⟩ := hw.modify hidle
    (i := .blockErase g.eraseOpcode (g.blockAddress block.val)) hopcode rfl
  refine ⟨b', ?_, hholds⟩
  have herase : s.erase .page block.val unused.val w.spi =
      (eraseResponse .inProgress block.val,
        { s with job := .erase block.val (block.val + 1) block.val }, b') := by
    have hinside : (block.val < block.val || g.eraseBlocks ≤ block.val) = false := by
      simpa using hblock
    simp only [erase, hsel, startErase, hjob, Job.at?, hinside, startBlock, startBlockErase,
      hmodify]
    rfl
  have hview := erase_view (isView_around w) .page block.val unused.val s w.spi
  rw [herase] at hview
  simp only [answer]
  rw [hview]

/-- No block follows the one that is being erased. -/
def Ending (j : Job) : Prop := ∀ current next last, j = .erase current next last → last < next

/-- A poll says whether the chip is still at work, and the last one ends the operation. -/
theorem Meets.poll (h : Meets x s told slot c) (hsel : s.selected = some (slot, g))
    (hending : Ending s.job) (unused : PageNumber) :
    Meets (converse [(.erase .status unused unused, [])] x)
      (if c.isBusy then s else { s with job := .idle })
      (told ++ [(eraseResponse (if c.isBusy then .inProgress else .complete)
        s.job.position).encode])
      slot { c with busy := c.busy - 1 } := by
  refine h.answered (fun _ => rfl) fun w hw => ?_
  obtain ⟨b', hpoll, hholds⟩ := hw.isBusy
  refine ⟨b', ?_, hholds⟩
  have hstatus : s.eraseStatus slot g w.spi =
      (eraseResponse (if c.isBusy then .inProgress else .complete) s.job.position,
        if c.isBusy then s else { s with job := .idle }, b') := by
    simp only [eraseStatus, hpoll]
    cases c.isBusy with
    | true => rfl
    | false =>
      cases hjob : s.job with
      | idle | write page => rfl
      | erase current next last =>
        simp only
        rw [if_neg (Nat.not_le_of_lt (hending current next last hjob))]
        rfl
  have hview := erase_view (isView_around w) .status unused.val unused.val s w.spi
  simp only [erase, hsel, hstatus] at hview
  simp only [answer, erase, hsel]
  rw [hview]

/-- What the host is told of an operation at a block or page while it polls until the end. -/
def pollReplies (busyTime position : Nat) : List (List UInt8) :=
  List.replicate busyTime (eraseResponse .inProgress position).encode ++
    [(eraseResponse .complete position).encode]

/-- The polls that are needed until an operation is seen to have ended. -/
def polling (busyTime : Nat) (unused : PageNumber) : List (Request × List (List UInt8)) :=
  List.replicate (busyTime + 1) (.erase .status unused unused, [])

/-- As many polls as the chip needs to come to rest, and the one that finds it there. -/
theorem Meets.pollAll (h : Meets x s told slot c) (hsel : s.selected = some (slot, g))
    (hending : Ending s.job) (hstuck : c.stuck = false) (unused : PageNumber) :
    Meets (converse (polling c.busy unused) x) { s with job := .idle }
      (told ++ pollReplies c.busy s.job.position) slot c.rested := by
  induction hbusy : c.busy generalizing x told c with
  | zero =>
    have hpolled := h.poll hsel hending unused
    have hidle : c.isBusy = false := by simp [NorFlash.isBusy_eq hstuck, hbusy]
    simp only [hidle, hbusy] at hpolled
    simpa [polling, pollReplies, NorFlash.rested] using hpolled
  | succ n ih =>
    have hpolled := h.poll hsel hending unused
    have hbusy' : c.isBusy = true := by simp [NorFlash.isBusy_eq hstuck, hbusy]
    simp only [hbusy', if_true] at hpolled
    have hrest := ih hpolled hstuck (by simp [hbusy])
    rw [← converse_append] at hrest
    simpa [polling, pollReplies, List.replicate_succ, NorFlash.rested] using hrest

/-- The page that was written last is compared with the bytes that were written. -/
theorem Meets.verify (h : Meets x s told slot c) (hsel : s.selected = some (slot, g))
    {last : Written} (hwritten : s.written = some last) (hstuck : c.stuck = false)
    (hbusy : c.busy < s.budget.flashPolls) :
    Meets (converse [(.verify, [])] x) s
      (told ++ [(Response.verify
        (if c.readRange (g.pageAddress last.page % 0x1000000) last.length =
          s.page.take last.length then .agrees else .differs)).encode])
      slot c.rested := by
  refine h.answered (fun _ => rfl) fun w hw => ?_
  obtain ⟨b', hread, hholds⟩ := hw.readIdle hstuck hbusy (g.pageAddress last.page) last.length
  refine ⟨b', ?_, hholds⟩
  have hview := verify_view (isView_around w) s w.spi
  simp only [Programmer.verify, hsel, hwritten, hread] at hview
  simp only [answer, Programmer.verify, hsel, hwritten]
  rw [hview]

/-- A page is read and leaves in packets. -/
theorem Meets.read (h : Meets x s told slot c) (hsel : s.selected = some (slot, g))
    {page : PageNumber} (hpage : page.val < g.pageCount) (hstuck : c.stuck = false)
    (hbusy : c.busy < s.budget.flashPolls) :
    Meets (converse [(.read page, [])] x) s
      (told ++ packets (c.readRange (g.pageAddress page.val % 0x1000000) g.pageLength))
      slot c.rested := by
  refine h.turn fun q sent b hq hsent hholds => ?_
  obtain ⟨b', hread, hholds'⟩ := hholds.readIdle hstuck hbusy (g.pageAddress page.val) g.pageLength
  have hview := readIdle_view (isView_around q.hw) slot s.budget.flashPolls
    (g.pageAddress page.val) g.pageLength q.hw.spi
  rw [hread] at hview
  obtain ⟨q', hwrite, hdone⟩ := (hq.with hq.live b').write
    (c.readRange (g.pageAddress page.val % 0x1000000) g.pageLength)
  refine ⟨q', ?_, rfl, _, b', by rw [Record.toList_append, hsent], hdone, hholds'⟩
  simp only [serve, servePage, hsel, if_pos hpage]
  rw [hview]
  simp only [hwrite]

/-- The data of a page is taken, however it was cut, and an idle chip is told to program it. -/
theorem Meets.write (h : Meets x s told slot c) (hsel : s.selected = some (slot, g))
    (hjob : s.job = .idle) (hbuffer : s.page.length = maxPageLength) {page count : PageNumber}
    (hpage : page.val < g.pageCount) (hpos : 0 < count.val) (hle : count.val ≤ g.pageLength)
    {cuts : List (List UInt8)} (hcuts : ∀ packet ∈ cuts, packet ≠ [] ∧ packet.length ≤ maxPacket)
    (hcount : cuts.flatten.length = count.val) (hidle : c.isBusy = false) :
    Meets (converse [(.write page count, cuts)] x)
      { s with
        job := .write page.val
        written := some ⟨page.val, count.val⟩
        page := cuts.flatten ++ s.page.drop count.val }
      told slot
      (c.ready.finish
        (Instruction.pageProgram (g.pageAddress page.val) cuts.flatten).bytes) := by
  refine h.turn fun q sent b hq hsent hholds => ?_
  have hneed : cuts.flatten.length = (s.page.take count.val).length := by
    rw [hcount, List.length_take, hbuffer]
    exact (Nat.min_eq_left (Nat.le_trans hle g.pageLength_le)).symm
  rw [← List.append_nil cuts] at hq
  obtain ⟨q', hfill, hfilled⟩ := hq.fill hcuts hneed
  rw [hq.spi_eq, ← hfilled.spi_eq] at hholds
  obtain ⟨b', hmodify, hholds'⟩ := hholds.modify hidle
    (i := .pageProgram (g.pageAddress page.val) cuts.flatten) (show (0x02 : UInt8) ≠ 0x05 by decide)
    rfl
  have hprogram : Flash.modify slot (.pageProgram (g.pageAddress page.val) cuts.flatten) q'.hw =
      (.ok (), { q'.hw with spi := b' }) := by
    have hview := modify_view (isView_around q'.hw) slot
      (.pageProgram (g.pageAddress page.val) cuts.flatten) q'.hw.spi
    rwa [hmodify] at hview
  have haccepted : (decide (count.val = 0) || decide (g.pageLength < count.val) ||
      decide (g.pageCount ≤ page.val)) = false := by
    simp
    omega
  refine ⟨⟨q'.device, { q'.hw with spi := b' }⟩, ?_, rfl, sent, b', hsent,
    hfilled.with hfilled.live b', hholds'⟩
  simp only [serve, acceptPage, hsel, hjob, Job.at?, haccepted, hfill, program, startPageProgram,
    List.take_left' hcount, hprogram]
  rfl

/-! ## Operations -/

/-- A block is erased, and the host polls until the chip is done. -/
theorem Meets.erased (h : Meets x s told slot c) (hsel : s.selected = some (slot, g))
    (hjob : s.job = .idle) (hlength : NorFlash.eraseLength? g.eraseOpcode = some g.eraseSize)
    {block : PageNumber} (hblock : block.val < g.eraseBlocks) (hidle : c.isBusy = false)
    (unused : PageNumber) :
    Meets (converse ((.erase .page block unused, []) :: polling c.busyTime unused) x)
      { s with job := .idle }
      (told ++ (eraseResponse .inProgress block.val).encode :: pollReplies c.busyTime block.val)
      slot
      { c with
        cells := c.erased (g.blockAddress block.val % addressReach) g.eraseSize
        writable := false } := by
  have hopcode : g.eraseOpcode ≠ 0x05 := by
    have hmem := NorFlash.mem_of_eraseLength? hlength
    intro heq
    rw [heq] at hmem
    exact absurd hmem (by decide)
  have hstarted := h.eraseBlock hsel hjob hblock hidle hopcode unused
  rw [NorFlash.finish_blockErase hlength] at hstarted
  have hending : Ending (.erase block.val (block.val + 1) block.val) := by
    rintro _ _ _ ⟨⟩
    exact Nat.lt_succ_self _
  have hdone := hstarted.pollAll hsel hending rfl unused
  rw [NorFlash.rested_start hidle, ← converse_append, List.append_assoc] at hdone
  exact hdone

/-- A page is written, and the host polls until the chip is done. -/
theorem Meets.written (h : Meets x s told slot c) (hsel : s.selected = some (slot, g))
    (hjob : s.job = .idle) (hbuffer : s.page.length = maxPageLength) {page count : PageNumber}
    (hpage : page.val < g.pageCount) (hpos : 0 < count.val) (hle : count.val ≤ g.pageLength)
    {cuts : List (List UInt8)} (hcuts : ∀ packet ∈ cuts, packet ≠ [] ∧ packet.length ≤ maxPacket)
    (hcount : cuts.flatten.length = count.val) (hidle : c.isBusy = false) (unused : PageNumber) :
    Meets (converse ((.write page count, cuts) :: polling c.busyTime unused) x)
      { s with
        job := .idle
        written := some ⟨page.val, count.val⟩
        page := cuts.flatten ++ s.page.drop count.val }
      (told ++ pollReplies c.busyTime page.val) slot
      { c with
        cells := c.programmed (g.pageAddress page.val % addressReach) cuts.flatten
        writable := false } := by
  have hstarted := h.write hsel hjob hbuffer hpage hpos hle hcuts hcount hidle
  rw [NorFlash.finish_pageProgram] at hstarted
  have hending : Ending (.write page.val) := nofun
  have hdone := hstarted.pollAll hsel hending rfl unused
  rw [NorFlash.rested_start hidle, ← converse_append] at hdone
  exact hdone

/-! ## A page of a block -/

/-- The erase block that holds a page. -/
def blockOf (eraseSize page : Nat) : Nat := page * 256 / eraseSize

/-- The block of a page is erased and the page is written, its data cut into packets. -/
def rewriting (eraseSize : Nat) (page : PageNumber) (cuts : List (List UInt8)) (busyTime : Nat)
    (unused : PageNumber) : List (Request × List (List UInt8)) :=
  (.erase .page (.ofNat (blockOf eraseSize page.val)) unused, []) :: polling busyTime unused ++
    (.write page (.ofNat cuts.flatten.length), cuts) :: polling busyTime unused

/-- What is asked of a geometry so that a page can be rewritten: pages of 256 bytes, blocks that
consist of pages, an opcode that erases one, and addresses that are not cut. -/
structure Rewritable (g : Geometry) (page : Nat) : Prop where
  pageLength_eq : g.pageLength = 256
  eraseLength_eq : NorFlash.eraseLength? g.eraseOpcode = some g.eraseSize
  /-- Blocks are not empty. -/
  pos : 0 < g.eraseSize
  dvd : 256 ∣ g.eraseSize
  /-- The page is inside the chip. -/
  page_lt : page < g.pageCount
  /-- Its block is inside the chip. -/
  block_lt : blockOf g.eraseSize page < g.eraseBlocks
  /-- Three bytes name where it begins. -/
  reach : page * 256 < addressReach

theorem Rewritable.val_blockOf {page : Nat} (h : Rewritable g page) :
    (PageNumber.ofNat (blockOf g.eraseSize page)).val = blockOf g.eraseSize page :=
  PageNumber.val_ofNat_of_lt (calc
    blockOf g.eraseSize page
      ≤ blockOf g.eraseSize page * g.eraseSize := Nat.le_mul_of_pos_right _ h.pos
    _ ≤ page * 256 := Nat.div_mul_le_self _ _
    _ < addressReach := h.reach)

theorem Rewritable.pageAddress_eq {page : Nat} (h : Rewritable g page) :
    g.pageAddress page % addressReach = page * 256 := by
  rw [Geometry.pageAddress, h.pageLength_eq, Nat.mod_eq_of_lt h.reach]

/-- The block that is erased is the one that holds the page. -/
theorem Rewritable.erased_eq {page : Nat} (h : Rewritable g page) (c : NorFlash) :
    c.erased (g.blockAddress (blockOf g.eraseSize page) % addressReach) g.eraseSize =
      c.erased (page * 256) g.eraseSize := by
  have hreach : blockOf g.eraseSize page * g.eraseSize < addressReach :=
    Nat.lt_of_le_of_lt (Nat.div_mul_le_self _ _) h.reach
  have huncut : g.blockAddress (blockOf g.eraseSize page) =
      blockOf g.eraseSize page * g.eraseSize :=
    Nat.min_eq_left (Nat.le_trans (Nat.le_of_lt hreach) (by decide))
  rw [huncut, Nat.mod_eq_of_lt hreach]
  exact c.erased_block h.pos (page * 256)

/-- The block of a page is erased and the page is written. -/
theorem Meets.rewritten (h : Meets x s told slot c) (hsel : s.selected = some (slot, g))
    (hjob : s.job = .idle) (hbuffer : s.page.length = maxPageLength) {page : PageNumber}
    (hpage : Rewritable g page.val) (hidle : c.isBusy = false) {data : List UInt8}
    (hdata : 1 ≤ data.length ∧ data.length ≤ 256) {cuts : List (List UInt8)}
    (hcuts : ∀ packet ∈ cuts, packet ≠ [] ∧ packet.length ≤ maxPacket)
    (hwhole : cuts.flatten = data) (unused : PageNumber) :
    Meets (converse (rewriting g.eraseSize page cuts c.busyTime unused) x)
      { s with
        job := .idle
        written := some ⟨page.val, data.length⟩
        page := data ++ s.page.drop data.length }
      (told ++ (eraseResponse .inProgress (blockOf g.eraseSize page.val)).encode ::
        pollReplies c.busyTime (blockOf g.eraseSize page.val) ++ pollReplies c.busyTime page.val)
      slot { c with cells := c.rewritten g.eraseSize page.val data, writable := false } := by
  subst hwhole
  have hcount : (PageNumber.ofNat cuts.flatten.length).val = cuts.flatten.length :=
    PageNumber.val_ofNat_of_lt (Nat.lt_of_le_of_lt hdata.2 (by decide))
  have hblock : (PageNumber.ofNat (blockOf g.eraseSize page.val)).val < g.eraseBlocks := by
    rw [hpage.val_blockOf]
    exact hpage.block_lt
  have herased := h.erased hsel hjob hpage.eraseLength_eq hblock hidle unused
  rw [hpage.val_blockOf, hpage.erased_eq] at herased
  have hwritten := herased.written hsel rfl hbuffer hpage.page_lt
    (by rw [hcount]; exact hdata.1) (by rw [hcount, hpage.pageLength_eq]; exact hdata.2) hcuts
    hcount.symm hidle unused
  rw [hpage.pageAddress_eq, hcount, ← converse_append] at hwritten
  exact hwritten

/-- The page that was written into an erased block comes back as it was sent, and the verification
agrees. -/
theorem Meets.readBack {page : PageNumber} {data : List UInt8} (before : NorFlash)
    (h : Meets x s told slot c) (hsel : s.selected = some (slot, g))
    (hwritten : s.written = some ⟨page.val, data.length⟩)
    (hbuffer : s.page.take data.length = data) (hpolls : 1 ≤ s.budget.flashPolls)
    (hpage : Rewritable g page.val) (hdata : data.length ≤ 256)
    (hcells : c.cells = before.rewritten g.eraseSize page.val data)
    (hsize : page.val * 256 + 256 ≤ c.size) (hidle : c.isBusy = false) :
    Meets (converse [(.read page, []), (.verify, [])] x) s
      (told ++ packets (data ++ List.replicate (256 - data.length) 0xFF) ++
        [(Response.verify .agrees).encode])
      slot c := by
  obtain ⟨hstuck, hbusy⟩ := NorFlash.idle_iff.mp hidle
  have hpoll : c.busy < s.budget.flashPolls := by omega
  have hread := h.read hsel hpage.page_lt hstuck hpoll
  rw [NorFlash.rested_eq hidle] at hread
  have hverified := hread.verify hsel hwritten hstuck hpoll
  rw [NorFlash.rested_eq hidle, ← converse_append] at hverified
  have haddress : g.pageAddress page.val % 0x1000000 = page.val * 256 := hpage.pageAddress_eq
  -- The page is read with what stands behind the data, and only the data is compared.
  have hwhole : c.readRange (g.pageAddress page.val % 0x1000000) g.pageLength =
      data ++ List.replicate (256 - data.length) 0xFF := by
    rw [haddress, hpage.pageLength_eq]
    exact NorFlash.readRange_rewritten hcells hpage.dvd (Nat.le_refl _) hdata hsize
  have hagrees : c.readRange (g.pageAddress page.val % 0x1000000) data.length =
      s.page.take data.length := by
    have hfront := NorFlash.readRange_rewritten hcells hpage.dvd hdata (Nat.le_refl _) (by omega)
    rw [haddress, hbuffer, hfront, Nat.sub_self, List.replicate_zero, List.append_nil]
  rw [hwhole, if_pos hagrees] at hverified
  exact hverified

/-! ## Known parts -/

/-- The opcode of a known part erases blocks of its size, which consist of whole pages. -/
theorem erases_part : ∀ maker ∈ makers, ∀ part ∈ maker.parts,
    NorFlash.eraseLength? part.eraseOpcode = some part.eraseSize ∧ 0 < part.eraseSize ∧
      256 ∣ part.eraseSize := by
  decide

/-- A known part within the reach of three bytes consists of whole blocks. -/
theorem block_dvd_part : ∀ maker ∈ makers, ∀ part ∈ maker.parts,
    capacityOfCode part.actual ≤ addressReach → part.eraseSize ∣ capacityOfCode part.actual := by
  decide

/-- Every page of a known part within the reach of three bytes can be rewritten. -/
theorem rewritable_part {maker : Maker} (hmaker : maker ∈ makers) {part : Part}
    (hpart : part ∈ maker.parts) (hreach : capacityOfCode part.actual ≤ addressReach) {page : Nat}
    (hpage : page < capacityOfCode part.actual / 256) (id : JedecId) :
    Rewritable (part.geometry id) page := by
  obtain ⟨hlength, hpos, hdvd⟩ := erases_part maker hmaker part hpart
  have hbegin : page * 256 < capacityOfCode part.actual := by omega
  refine ⟨rfl, hlength, hpos, hdvd, hpage, ?_, Nat.lt_of_lt_of_le hbegin hreach⟩
  calc blockOf part.eraseSize page
      < capacityOfCode part.actual / part.eraseSize :=
        Nat.div_lt_div_of_lt_of_dvd (block_dvd_part maker hmaker part hpart hreach) hbegin
    _ = capacityOfCode part.actual / max part.eraseSize 1 := by rw [Nat.max_eq_left hpos]
    _ ≤ (part.geometry id).eraseBlocks := Nat.le_max_left _ _

/-- The requests of a round trip: a chip is targeted, one of its pages is rewritten, and the page is
read and verified. -/
def roundTrip (number bus : UInt8) (eraseSize : Nat) (page : PageNumber)
    (cuts : List (List UInt8)) (busyTime : Nat) (unused : PageNumber) :
    List (Request × List (List UInt8)) :=
  (.targetDevice number bus, []) ::
    (rewriting eraseSize page cuts busyTime unused ++ [(.read page, []), (.verify, [])])

/-- A page of a known part comes back as it was written, and nothing changes outside its block.

The part is any known one within the reach of three bytes, idle, with anything in its memory, on a
bus that does not fail, and takes any time for an erase or write.  The programmer is in any state
that it can reach and polls at least once, and its link is ready.  The data is 1 to 256 bytes, cut
into packets in any way, and the fields that a request does not use hold anything.

The host hears that the erase and the write are in progress as long as the chip is at work, and
then that they are complete.  The page that it reads is the data with ones behind it, and the
verification agrees. -/
theorem round_trip (h : Meets x s told slot c) (hs : Reachable s)
    (hpolls : 1 ≤ s.budget.flashPolls) {number bus : UInt8}
    (hslot : Slot.find? number bus = some slot) {maker : Maker} (hmaker : maker ∈ makers)
    {part : Part} (hpart : part ∈ maker.parts)
    (hreach : capacityOfCode part.actual ≤ addressReach)
    (hid : c.id = [maker.id, part.deviceType, part.reported])
    (hsize : c.size = capacityOfCode part.actual) (hidle : c.isBusy = false) {page : PageNumber}
    (hpage : page.val < c.size / 256) {data : List UInt8}
    (hdata : 1 ≤ data.length ∧ data.length ≤ 256) {cuts : List (List UInt8)}
    (hcuts : ∀ packet ∈ cuts, packet ≠ [] ∧ packet.length ≤ maxPacket)
    (hwhole : cuts.flatten = data) (unused : PageNumber) :
    ∃ s' cells pages,
      Meets (converse (roundTrip number bus part.eraseSize page cuts c.busyTime unused) x) s'
        (told ++ [Response.targetDevice.encode] ++
          (eraseResponse .inProgress (blockOf part.eraseSize page.val)).encode ::
            pollReplies c.busyTime (blockOf part.eraseSize page.val) ++
          pollReplies c.busyTime page.val ++ pages ++ [(Response.verify .agrees).encode])
        slot { c with cells, writable := false } ∧
      pages.flatten = data ++ List.replicate (256 - data.length) 0xFF ∧
      ∀ a, a / part.eraseSize ≠ blockOf part.eraseSize page.val → cells a = c.cells a := by
  have hknown : catalogued? ⟨c.id.getD 0 0xFF, c.id.getD 1 0xFF, c.id.getD 2 0xFF⟩ =
      some (part.geometry ⟨maker.id, part.deviceType, part.reported⟩) := by
    rw [hid]
    exact catalogued_part maker hmaker part hpart
  rw [hsize] at hpage
  have hrewritable := rewritable_part hmaker hpart hreach hpage
    ⟨maker.id, part.deviceType, part.reported⟩
  have htargeted := h.target hslot hknown
  have hrewritten := htargeted.rewritten rfl rfl hs.wellFormed.page_length hrewritable hidle hdata
    hcuts hwhole unused
  have hback := hrewritten.readBack c rfl rfl (List.take_left' rfl) hpolls hrewritable
    hdata.2 rfl (by rw [hsize]; omega) hidle
  rw [← converse_append, ← converse_append] at hback
  exact ⟨_, _, _, hback, flatten_packets _, fun a ha =>
    NorFlash.rewritten_of_ne hrewritable.dvd ha data⟩

/-! ## On the bench -/

/-- A device that the host has just configured is ready for the first request. -/
theorem awaits_enumerate {β ρ : Type} (budget : WaitBudget) (b : β) (reset : ρ) :
    Awaits (enumerate ⟨{ budget }, (⟨{}, b, reset⟩ : Fifos β ρ)⟩) [] {} b where
  live :=
    { lifecycle_eq := by cbv
      awake := by cbv
      out_open := by cbv
      in_open := by cbv
      idle := by cbv }
  side_eq := by cbv

/-- A bench that the host has just configured. -/
theorem meets_enumerated {chips : PerSlot (Option NorFlash)} (hchip : chips.get slot = some c) :
    Meets (Rig.enumerated chips []) {} [] slot c := by
  have hlink : Awaits (Rig.enumerated chips []).2 [] {} ({ chips } : FlashBus) := by
    have hready := awaits_enumerate {} ({ chips } : FlashBus) ({} : PinRecord)
    simp only [Rig.enumerated, Rig.station, Rig.ofChips, List.foldl_nil]
    exact hready
  exact ⟨rfl, {}, { chips }, rfl, hlink, hchip, rfl⟩

/-- A part of 1 MiB that holds zeros. -/
def zeroed : NorFlash := { id := [0xEF, 0x40, 0x14], size := 0x100000, cells := fun _ => 0 }

/-- A hundred bytes. -/
def hundred : List UInt8 := (List.range 100).map UInt8.ofNat

/-- A hundred bytes are written to page 17, which is in block 1, in two packets. -/
theorem round_trip_hundred_bytes :
    ∃ s' cells pages,
      Meets
        (converse (roundTrip 0 0 4096 (.ofNat 17) [hundred.take 64, hundred.drop 64] 2 (.ofNat 0))
          (Rig.enumerated ⟨some zeroed, none, none⟩ []))
        s'
        ([] ++ [Response.targetDevice.encode] ++
          (eraseResponse .inProgress 1).encode :: pollReplies 2 1 ++ pollReplies 2 17 ++ pages ++
          [(Response.verify .agrees).encode])
        .local1 { zeroed with cells, writable := false } ∧
      pages.flatten = hundred ++ List.replicate 156 0xFF ∧
      ∀ a, a / 4096 ≠ 1 → cells a = 0 := by
  have hbench : Meets (Rig.enumerated ⟨some zeroed, none, none⟩ []) {} [] .local1 zeroed :=
    meets_enumerated rfl
  have hround := round_trip hbench (.start {}) (by decide)
    (show Slot.find? 0 0 = some .local1 by decide)
    (show makers[0] ∈ makers from List.getElem_mem _)
    (show Part.sectored 0x40 0x14 ∈ makers[0].parts by decide) (by decide) rfl (by decide)
    (by decide) (show (PageNumber.ofNat 17).val < zeroed.size / 256 by decide)
    (show 1 ≤ hundred.length ∧ hundred.length ≤ 256 by decide) (by decide)
    (show [hundred.take 64, hundred.drop 64].flatten = hundred by decide) (.ofNat 0)
  exact hround

end FlashProgrammer.Programmer

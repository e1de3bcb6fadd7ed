import FlashProgrammer.Bench.Rig
import FlashProgrammer.Proofs.Programmer.Reachable

/-!
# Addressing

A request names a page or an erase block, and a chip is told an address.  The
address goes out in three bytes, so it is the beginning of what the request names
only up to multiples of `addressReach`.

`addressing_exact` says what goes out and where that is right.  It is right for every
page or block that begins below `addressReach`, and for no other: such a request
touches only bytes of what it names, and one past the reach touches only bytes
before it.  On a chip whose last page or block begins below the reach nothing goes
wrong, and on every other chip two different requests reach the same bytes.
-/

namespace FlashProgrammer.Trace.Transaction

/-- The address that a transaction named: the three bytes after the opcode, highest first. -/
def address? (t : Transaction) : Option Nat :=
  if 4 ≤ t.sent.length then some (LittleEndian.decode ((t.sent.drop 1).take 3).reverse) else none

/-- How many bytes of memory a transaction is about: the data it moved, or a whole block. -/
def extent (t : Transaction) (g : Flash.Geometry) : Flash.Grain → Nat
  | .page => t.sent.length - 4
  | .block => g.eraseSize

/-- A transaction is about the byte at an address. -/
def Touches (t : Transaction) (g : Flash.Geometry) (grain : Flash.Grain) (x : Nat) : Prop :=
  ∃ a, t.address? = some a ∧ a ≤ x ∧ x < a + t.extent g grain

end FlashProgrammer.Trace.Transaction

namespace FlashProgrammer.Programmer

open Flash Protocol Usb Trace

/-! ## What a request names -/

/-- A request reads, writes, verifies or erases. -/
def Aims : Request → Prop
  | .read _ | .write _ _ | .verify | .erase _ _ _ => True
  | .deviceCount | .listDevice _ _ | .targetDevice _ _ | .resetTarget => False

/-- What a request names.  A verification names the page that was written last, and a status
request the block that comes next. -/
inductive Names (s : Programmer) : Request → Grain → Nat → Prop where
  | read {page : PageNumber} : Names s (.read page) .page page.val
  | write {page count : PageNumber} : Names s (.write page count) .page page.val
  /-- The page to compare. -/
  | verify {w : Written} (hwritten : s.written = some w) : Names s .verify .page w.page
  /-- The block to erase. -/
  | erasePage {first last : PageNumber} : Names s (.erase .page first last) .block first.val
  /-- The first block to erase. -/
  | eraseRange {first last : PageNumber} : Names s (.erase .pageRange first last) .block first.val
  /-- The next block to erase. -/
  | status {first last : PageNumber} {current next final : Nat}
      (hjob : s.job = .erase current next final) : Names s (.erase .status first last) .block next

/-! ## The addresses of instructions -/

/-- An instruction without an address names none. -/
theorem address?_of_short {slot : Slot} {i : Instruction} {result : Except Fault (List UInt8)}
    {t : Transaction} (h : Carries slot i result t) (hshort : i.clocked.length < 4) :
    t.address? = none := by
  obtain ⟨n, hsent⟩ := h.sent_eq
  refine if_neg fun hfour => ?_
  rw [hsent, List.length_take] at hfour
  omega

/-- An address goes out as far as three bytes can name it, and the data follows it. -/
theorem address?_of_address {slot : Slot} {i : Instruction} {result : Except Fault (List UInt8)}
    {t : Transaction} {x a : Nat} (h : Carries slot i result t) (hx : i.address = some x)
    (ha : t.address? = some a) :
    a = x % addressReach ∧
      t.sent.length - 4 ≤ i.fillers + i.payload.length + i.replyLength := by
  obtain ⟨n, hsent⟩ := h.sent_eq
  have hclocked : i.clocked = i.opcode :: (addressBytes x ++
      (List.replicate i.fillers 0 ++ i.payload ++ List.replicate i.replyLength 0xFF)) := by
    simp [Instruction.clocked, Instruction.bytes, hx]
  rw [Transaction.address?] at ha
  split at ha
  · next hfour =>
    cases ha
    -- The transaction may have been cut short by a fault, but not before the address was out.
    have hn : 4 ≤ n := by
      rw [hsent, List.length_take] at hfour
      omega
    obtain ⟨m, rfl⟩ : ∃ m, n = m + 3 + 1 := ⟨n - 4, by omega⟩
    constructor
    · have hbytes : (t.sent.drop 1).take 3 = addressBytes x := by
        rw [hsent, hclocked, List.take_succ_cons, List.drop_succ_cons, List.drop_zero,
          List.take_take, Nat.min_eq_left (by omega),
          List.take_left' (length_addressBytes x)]
      rw [hbytes]
      exact decode_addressBytes x
    · have hlength : i.clocked.length =
          4 + (i.fillers + i.payload.length + i.replyLength) := by
        simp [hclocked]
        omega
      rw [hsent, List.length_take]
      omega
  · cases ha

theorem polls_unaddressed {slot : Slot} {result : Except Fault Bool} {t : Transaction}
    (h : Polls slot result t) : t.address? = none := by
  obtain ⟨reply, hcarries, _⟩ := h
  exact address?_of_short hcarries (by decide)

theorem waits_unaddressed {slot : Slot} {n : Nat} {result : Except Fault Unit}
    {ts : List Transaction} (h : Waits slot n result ts) : ∀ t ∈ ts, t.address? = none := by
  induction h with
  | spent => simp
  | idle hpolls | failed hpolls => simpa using polls_unaddressed hpolls
  | busy hpolls _ ih => simpa using ⟨polls_unaddressed hpolls, by simpa using ih⟩

/-- Of a wait and a read, only the read names an address. -/
theorem readsIdle_addressed {slot : Slot} {polls address length a : Nat}
    {result : Except Fault (List UInt8)} {ts : List Transaction} {t : Transaction}
    (h : ReadsIdle slot polls address length result ts) (ht : t ∈ ts)
    (ha : t.address? = some a) : Carries slot (.readData address length) result t := by
  cases h with
  | kept hwaits =>
    rw [waits_unaddressed hwaits t ht] at ha
    cases ha
  | read hwaits hcarries =>
    rcases List.mem_append.mp ht with ht | ht
    · rw [waits_unaddressed hwaits t ht] at ha
      cases ha
    · obtain rfl := List.mem_singleton.mp ht
      exact hcarries

/-- Of a write enable and the instruction after it, only the instruction names an address. -/
theorem modifies_addressed {slot : Slot} {i : Instruction} {result : Except Fault Unit}
    {ts : List Transaction} {t : Transaction} {a : Nat} (h : Modifies slot i result ts)
    (ht : t ∈ ts) (ha : t.address? = some a) : ∃ reply, Carries slot i reply t := by
  have henabled : ∀ {reply}, ¬Carries slot .writeEnable reply t := by
    intro reply hcarries
    rw [address?_of_short hcarries (by decide)] at ha
    cases ha
  cases h with
  | kept henable =>
    obtain rfl := List.mem_singleton.mp ht
    exact absurd henable henabled
  | given henable _ hcarries =>
    simp only [List.mem_cons, List.not_mem_nil, or_false] at ht
    rcases ht with rfl | rfl
    · exact absurd henable henabled
    · exact ⟨_, hcarries⟩

/-! ## The addresses of requests -/

/-- A transaction went to the chip of a slot, named the address of a page or block as far as three
bytes can, and moved no more bytes than that has. -/
structure Aimed (slot : Slot) (g : Geometry) (grain : Grain) (index : Nat) (t : Transaction)
    (a : Nat) : Prop where
  /-- It went to the chip. -/
  slot_eq : t.slot = slot
  /-- It named the address. -/
  address_eq : a = g.named grain index
  /-- It moved no more. -/
  extent_le : t.extent g grain ≤ g.size grain

theorem readData_aimed {slot : Slot} {g : Geometry} {page length a : Nat}
    {result : Except Fault (List UInt8)} {t : Transaction}
    (h : Carries slot (.readData (g.pageAddress page) length) result t)
    (hlength : length ≤ g.pageLength) (ha : t.address? = some a) :
    Aimed slot g .page page t a := by
  obtain ⟨haddress, hmoved⟩ := address?_of_address h rfl ha
  refine ⟨h.slot_eq, haddress, Nat.le_trans hmoved ?_⟩
  simpa [Instruction.readData, Geometry.size] using hlength

theorem pageProgram_aimed {slot : Slot} {g : Geometry} {page a : Nat} {data : List UInt8}
    {result : Except Fault (List UInt8)} {t : Transaction}
    (h : Carries slot (.pageProgram (g.pageAddress page) data) result t)
    (hdata : data.length ≤ g.pageLength) (ha : t.address? = some a) :
    Aimed slot g .page page t a := by
  obtain ⟨haddress, hmoved⟩ := address?_of_address h rfl ha
  refine ⟨h.slot_eq, haddress, Nat.le_trans hmoved ?_⟩
  simpa [Instruction.pageProgram, Geometry.size] using hdata

theorem blockErase_aimed {slot : Slot} {g : Geometry} {block a : Nat}
    {result : Except Fault (List UInt8)} {t : Transaction}
    (h : Carries slot (.blockErase g.eraseOpcode (g.blockAddress block)) result t)
    (hg : Identified g) (hblock : block < g.eraseBlocks) (ha : t.address? = some a) :
    Aimed slot g .block block t a := by
  rw [hg.blockAddress_eq hblock] at h
  obtain ⟨haddress, _⟩ := address?_of_address h rfl ha
  exact ⟨h.slot_eq, haddress, Nat.le_refl _⟩

/-- The first erase of a request is aimed at the first block it names. -/
theorem firstErase_aimed {s : Programmer} {slot : Slot} {g : Geometry}
    {operation : EraseOperation} {first last : PageNumber} {b e a : Nat}
    {result : Except Fault Unit} {ts : List Transaction} {t : Transaction} (hg : Identified g)
    (hspan : span? first.val last.val operation = some (b, e)) (hle : b ≤ e)
    (hblocks : e < g.eraseBlocks)
    (h : Modifies slot (firstErase g first.val operation) result ts) (ht : t ∈ ts)
    (ha : t.address? = some a) :
    ∃ grain index, Names s (.erase operation first last) grain index ∧
      g.Accepts grain index ∧ Aimed slot g grain index t a := by
  obtain ⟨reply, hcarries⟩ := modifies_addressed h ht ha
  cases operation with
  | all =>
    have hshort : Instruction.chipErase.clocked.length < 4 := by decide
    rw [address?_of_short hcarries hshort] at ha
    cases ha
  | page =>
    cases hspan
    have hfirst : first.val < g.eraseBlocks := by omega
    exact ⟨.block, first.val, .erasePage, ⟨hfirst, first.isLt⟩,
      blockErase_aimed hcarries hg hfirst ha⟩
  | pageRange =>
    cases hspan
    have hfirst : first.val < g.eraseBlocks := by omega
    exact ⟨.block, first.val, .eraseRange, ⟨hfirst, first.isLt⟩,
      blockErase_aimed hcarries hg hfirst ha⟩
  | status => cases hspan

/-- The erase that a status request starts is aimed at the next block. -/
theorem nextErase_aimed {s : Programmer} {slot : Slot} {g : Geometry} {first last : PageNumber}
    {current next final a : Nat} {result : Except Fault Unit} {ts : List Transaction}
    {p t : Transaction} (hs : s.WellFormed) (hsel : s.selected = some (slot, g))
    (hjob : s.job = .erase current next final) (hnext : next ≤ final)
    (hpolls : Polls slot (.ok false) p)
    (h : Modifies slot (.blockErase g.eraseOpcode (g.blockAddress next)) result ts)
    (ht : t ∈ p :: ts) (ha : t.address? = some a) :
    ∃ grain index, Names s (.erase .status first last) grain index ∧
      g.Accepts grain index ∧ Aimed slot g grain index t a := by
  obtain ⟨slot', g', hsel', _, _, hblocks, hreach⟩ := hs.erasing _ _ _ hjob
  rw [hsel] at hsel'
  cases hsel'
  have hblock : next < g.eraseBlocks := Nat.lt_of_le_of_lt hnext hblocks
  rcases List.mem_cons.mp ht with rfl | ht
  · rw [polls_unaddressed hpolls] at ha
    cases ha
  · obtain ⟨reply, hcarries⟩ := modifies_addressed h ht ha
    exact ⟨.block, next, .status hjob, ⟨hblock, Nat.lt_of_le_of_lt hnext hreach⟩,
      blockErase_aimed hcarries (hs.identified slot g hsel) hblock ha⟩

/-- A request that sends an address names an acceptable page or block, and sends the address of
that. -/
theorem Serves.aimed {s s' : Programmer} {r : Request} {data : List UInt8}
    {ts : List Transaction} {reply : Option Response} {slot : Slot} {g : Geometry}
    (h : Serves s r data ts reply s')
    (hs : s.WellFormed) (hsel : s.selected = some (slot, g)) (hr : Aims r) {t : Transaction}
    (ht : t ∈ ts) {a : Nat} (ha : t.address? = some a) :
    ∃ grain index, Names s r grain index ∧ g.Accepts grain index ∧
      Aimed slot g grain index t a := by
  have hg := hs.identified slot g hsel
  have hpolled : ∀ {slot' result p}, Polls slot' result p → t ∈ [p] → False := by
    intro slot' result p hpolls hp
    obtain rfl := List.mem_singleton.mp hp
    rw [polls_unaddressed hpolls] at ha
    cases ha
  cases h with
  | deviceCount | listedNone | listed | targetedNone | targeted | resetTarget => cases hr
  | eraseUntargeted | eraseOutstanding | eraseOutOfRange | readRefused | writeRefused
  | writeIncomplete | verifyNothing => cases ht
  | statusUnread _ hpolls => exact absurd ht (hpolled hpolls)
  | statusBusy _ hpolls => exact absurd ht (hpolled hpolls)
  | statusDone _ hpolls _ => exact absurd ht (hpolled hpolls)
  | statusNext hsel' hpolls hjob hnext hmodifies =>
    obtain ⟨rfl, rfl⟩ := selected_unique hsel hsel'
    exact nextErase_aimed hs hsel hjob hnext hpolls hmodifies ht ha
  | statusNextFailed hsel' hpolls hjob hnext hmodifies =>
    obtain ⟨rfl, rfl⟩ := selected_unique hsel hsel'
    exact nextErase_aimed hs hsel hjob hnext hpolls hmodifies ht ha
  | eraseStarted hsel' hspan _ hle hblocks hmodifies =>
    obtain ⟨rfl, rfl⟩ := selected_unique hsel hsel'
    exact firstErase_aimed hg hspan hle hblocks hmodifies ht ha
  | eraseFailed hsel' hspan _ hle hblocks hmodifies =>
    obtain ⟨rfl, rfl⟩ := selected_unique hsel hsel'
    exact firstErase_aimed hg hspan hle hblocks hmodifies ht ha
  | @readTried page _ _ _ _ hsel' hpage hreads =>
    obtain ⟨rfl, rfl⟩ := selected_unique hsel hsel'
    exact ⟨.page, page.val, .read, ⟨hpage, page.isLt⟩,
      readData_aimed (readsIdle_addressed hreads ht ha) (Nat.le_refl _) ha⟩
  | @writeProgrammed page _ _ _ _ _ hsel' _ _ hcount hpage hbytes hmodifies =>
    obtain ⟨rfl, rfl⟩ := selected_unique hsel hsel'
    obtain ⟨_, hcarries⟩ := modifies_addressed hmodifies ht ha
    exact ⟨.page, page.val, .write, ⟨hpage, page.isLt⟩,
      pageProgram_aimed hcarries (hbytes ▸ hcount) ha⟩
  | @writeFailed page _ _ _ _ _ _ hsel' _ _ hcount hpage hbytes hmodifies =>
    obtain ⟨rfl, rfl⟩ := selected_unique hsel hsel'
    obtain ⟨_, hcarries⟩ := modifies_addressed hmodifies ht ha
    exact ⟨.page, page.val, .write, ⟨hpage, page.isLt⟩,
      pageProgram_aimed hcarries (hbytes ▸ hcount) ha⟩
  | verifyRead hsel' hwritten hreads =>
    obtain ⟨rfl, rfl⟩ := selected_unique hsel hsel'
    obtain ⟨_, _, hsel'', hpage, hreach, _, hlength⟩ := hs.written _ hwritten
    obtain ⟨rfl, rfl⟩ := selected_unique hsel hsel''
    exact ⟨.page, _, .verify hwritten, ⟨hpage, hreach⟩,
      readData_aimed (readsIdle_addressed hreads ht ha) hlength ha⟩
  | verifyUnread hsel' hwritten hreads =>
    obtain ⟨rfl, rfl⟩ := selected_unique hsel hsel'
    obtain ⟨_, _, hsel'', hpage, hreach, _, hlength⟩ := hs.written _ hwritten
    obtain ⟨rfl, rfl⟩ := selected_unique hsel hsel''
    exact ⟨.page, _, .verify hwritten, ⟨hpage, hreach⟩,
      readData_aimed (readsIdle_addressed hreads ht ha) hlength ha⟩

/-- A byte that is touched lies inside the page or block exactly if that begins below the reach.
Otherwise it lies before it. -/
theorem Aimed.touches_iff {slot : Slot} {g : Geometry} {grain : Grain} {index a x : Nat}
    {t : Transaction} (h : Aimed slot g grain index t a) (hg : Identified g)
    (ha : t.address? = some a) (hx : t.Touches g grain x) :
    (g.start grain index ≤ x ∧ x < g.start grain index + g.size grain) ↔
      g.start grain index < addressReach := by
  obtain ⟨b, hb, hle, hlt⟩ := hx
  rw [ha] at hb
  cases hb
  have hextent := h.extent_le
  rw [h.address_eq] at hle hlt
  constructor
  · rintro ⟨hstart, _⟩
    refine Nat.lt_of_not_le fun hreach => ?_
    have hbefore := hg.named_add_size_le hreach
    omega
  · intro hstart
    rw [(g.named_eq_start_iff grain index).mpr hstart] at hle hlt
    exact ⟨hle, by omega⟩

/-- Whether addressing is right, for a page or block and for a whole chip.

A request that reads, writes, verifies or erases sends only addresses of the page or block it
names, cut to three bytes.  Such an address is right, and every byte that the transaction touches
lies inside the page or block, exactly if that begins below `addressReach`.  So all acceptable
requests are addressed rightly exactly on the chips whose last page or block begins below it, and
on exactly these no two of them share an address. -/
theorem addressing_exact {ω : Type} [Spi.Bus ω] [ResetLine ω] [Controller ω] {s : Station ω}
    {slot : Slot} {g : Geometry} (hs : Reachable s.1) (hsel : s.1.selected = some (slot, g)) :
    (∀ r, Aims r → ∀ t ∈ transactionsOf r s, ∀ a, t.address? = some a →
      ∃ grain index, Names s.1 r grain index ∧ g.Accepts grain index ∧ t.slot = slot ∧
        a = g.start grain index % addressReach ∧
        (a = g.start grain index ↔ g.start grain index < addressReach) ∧
        ∀ x, t.Touches g grain x →
          ((g.start grain index ≤ x ∧ x < g.start grain index + g.size grain) ↔
            g.start grain index < addressReach)) ∧
    ∀ grain,
      ((∀ index, g.Accepts grain index → g.named grain index = g.start grain index) ↔
        g.start grain (g.lastIndex grain) < addressReach) ∧
      ((∀ i j, g.Accepts grain i → g.Accepts grain j →
          g.named grain i = g.named grain j → i = j) ↔
        g.start grain (g.lastIndex grain) < addressReach) := by
  have hg := hs.wellFormed.identified slot g hsel
  constructor
  · intro r hr t ht a ha
    obtain ⟨grain, index, hnames, haccepts, haimed⟩ :=
      (hs.serves r).aimed hs.wellFormed hsel hr ht ha
    refine ⟨grain, index, hnames, haccepts, haimed.slot_eq, haimed.address_eq, ?_, ?_⟩
    · rw [haimed.address_eq]
      exact g.named_eq_start_iff grain index
    · intro x hx
      exact haimed.touches_iff hg ha hx
  · intro grain
    exact ⟨g.faithful_iff grain, hg.tellsApart_iff grain⟩

/-! ## On the bench -/

/-- A known part, by its capacity code, that holds zeros. -/
def part (capacity : UInt8) (size : Nat) : Bench.NorFlash :=
  { id := [0xEF, 0x40, capacity], size, cells := fun _ => 0 }

/-- The geometry of a known part. -/
def partGeometry (capacity : UInt8) : Geometry :=
  (Part.sectored 0x40 capacity).geometry ⟨0xEF, 0x40, capacity⟩

/-- A programmer that targets a part of 2 MiB. -/
def twoMegabytes : Station Bench.Rig := Bench.Rig.targeting (part 0x15 0x200000)

/-- A programmer that targets a part of 32 MiB. -/
def thirtyTwoMegabytes : Station Bench.Rig := Bench.Rig.targeting (part 0x19 0x2000000)

theorem addressing_exact_second_block :
    (∃ t ∈ transactionsOf (.erase .page (.ofNat 1) (.ofNat 0)) twoMegabytes,
      t.address? = some 0x1000 ∧ ∃ grain index,
        Names twoMegabytes.1 (.erase .page (.ofNat 1) (.ofNat 0)) grain index ∧
        (0x1000 = (partGeometry 0x15).start grain index ↔
          (partGeometry 0x15).start grain index < addressReach)) ∧
    ((∀ index, (partGeometry 0x15).Accepts .block index →
        (partGeometry 0x15).named .block index = (partGeometry 0x15).start .block index) ↔
      (partGeometry 0x15).start .block ((partGeometry 0x15).lastIndex .block) < addressReach) := by
  have hreachable : Reachable twoMegabytes.1 := .served (.targetDevice 0 0) _ (.start {})
  have hsel : twoMegabytes.1.selected = some (.local1, partGeometry 0x15) := by decide
  have hmem : (⟨.local1, [0x20, 0x00, 0x10, 0x00], [0xFF, 0xFF, 0xFF, 0xFF], none⟩ : Transaction) ∈
      transactionsOf (.erase .page (.ofNat 1) (.ofNat 0)) twoMegabytes := by
    decide
  obtain ⟨haddresses, hwhole⟩ := addressing_exact hreachable hsel
  refine ⟨⟨_, hmem, by decide, ?_⟩, (hwhole .block).1⟩
  obtain ⟨grain, index, hnames, _, _, _, hexact, _⟩ :=
    haddresses (.erase .page (.ofNat 1) (.ofNat 0)) trivial _ hmem 0x1000 (by decide)
  exact ⟨grain, index, hnames, hexact⟩

/-- Block 4096 of a part of 32 MiB begins at the reach.  Its erase is accepted, goes out as that of
block 0, and erases that one. -/
theorem block_at_reach_erases_first_block :
    Reachable thirtyTwoMegabytes.1 ∧
    thirtyTwoMegabytes.1.selected = some (.local1, partGeometry 0x19) ∧
    (partGeometry 0x19).Accepts .block 4096 ∧
    (partGeometry 0x19).start .block 4096 = 0x1000000 ∧
    transactionsOf (.erase .page (.ofNat 4096) (.ofNat 0)) thirtyTwoMegabytes =
      [⟨.local1, [0x06], [0xFF], none⟩,
        ⟨.local1, [0x20, 0x00, 0x00, 0x00], [0xFF, 0xFF, 0xFF, 0xFF], none⟩] ∧
    ((serve (.erase .page (.ofNat 4096) (.ofNat 0)) thirtyTwoMegabytes).2.hw.spi.chip? .local1).map
      (fun c => (c.read 0, c.read 0x1000000)) = some (0xFF, 0x00) := by
  refine ⟨.served (.targetDevice 0 0) _ (.start {}), by decide, ⟨by decide, by decide⟩, by decide,
    by decide, by decide⟩

end FlashProgrammer.Programmer

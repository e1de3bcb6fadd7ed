import FlashProgrammer.Bench.Rig
import FlashProgrammer.Proofs.Flash.Reading
import FlashProgrammer.Proofs.Programmer.Reachable

/-!
# Erasing a range

A range erase is started by one request and brought on by the status requests that
follow.  Other requests may come in between.  `Erasing slot g last current xs` says
what the exchanges `xs` can be while block `current` is being erased and the blocks
up to `last` are to follow: an exchange leaves the erase where it is, starts the
block after `current`, or finds the last one done.

`Serves.erasing` says so of one request and `Runs.erasing` of any number of them.
What is told to the chip, what the host is told, and how often it must ask are read
off `Erasing` by induction, and `range_erase_exact` puts them together.
-/

namespace FlashProgrammer.Trace.Transaction

/-- What a transaction went out as. -/
def out (t : Transaction) : Slot × List UInt8 := (t.slot, t.sent)

end FlashProgrammer.Trace.Transaction

namespace FlashProgrammer.Flash

open Trace

/-! ## What goes out -/

/-- What goes out to erase one block: a write enable and the erase of the block. -/
def eraseOf (slot : Slot) (g : Geometry) (block : Nat) : List (Slot × List UInt8) :=
  [(slot, [0x06]), (slot, g.eraseOpcode :: addressBytes (block * g.eraseSize))]

/-- What goes out and modifies a chip, in order. -/
def modifying (ts : List Transaction) : List (Slot × List UInt8) :=
  (ts.filter Transaction.modifies).map Transaction.out

theorem modifying_append (ts us : List Transaction) :
    modifying (ts ++ us) = modifying ts ++ modifying us := by
  simp [modifying]

theorem modifying_eq_nil {ts : List Transaction} (h : ∀ t ∈ ts, t.modifies = false) :
    modifying ts = [] := by
  have hnone : ts.filter Transaction.modifies = [] := by
    rw [List.filter_eq_nil_iff]
    intro t ht hm
    rw [h t ht] at hm
    cases hm
  rw [modifying, hnone]
  rfl

/-- Without a fault a write enable and the instruction went out, and both count. -/
theorem Modifies.ok {slot : Slot} {i : Instruction} {result : Except Fault Unit}
    {ts : List Transaction} (h : Modifies slot i result ts) (hfault : ∀ t ∈ ts, t.fault = none)
    (hi : i.opcode ∉ Transaction.readOpcodes) :
    result = .ok () ∧ ∃ t u, ts = [t, u] ∧ t.out = (slot, [0x06]) ∧ u.out = (slot, i.clocked) ∧
      t.modifies = true ∧ u.modifies = true := by
  obtain ⟨hresult, t, u, rfl, ht, hsent, hu, hgiven⟩ := h.of_fault_none hfault
  refine ⟨hresult, t, u, rfl, ?_, ?_, ?_, ?_⟩
  · rw [Transaction.out, ht, hsent]
  · rw [Transaction.out, hu, hgiven]
  · rw [Transaction.modifies, hsent]
    decide
  · simpa [Transaction.modifies, hgiven, Instruction.clocked, Instruction.bytes] using hi

end FlashProgrammer.Flash

namespace FlashProgrammer.Programmer

open Flash Protocol Usb Trace

/-! ## One request while blocks are being erased -/

namespace Exchange

/-- The host is told that an erase is complete. -/
def completes (x : Exchange) : Bool :=
  match x.reply with
  | some (.erase .complete _) => true
  | _ => false

/-- The request asks how far the erase has come. -/
def IsPoll (x : Exchange) : Prop := ∃ first last, x.request = .erase .status first last

/-- The erase stays at a block: nothing is modified, the host is told of that block if it is told
of one, and a poll finds the chip busy. -/
structure Keeps (slot : Slot) (current : Nat) (x : Exchange) : Prop where
  quiet : ∀ t ∈ x.transactions, t.modifies = false
  told : ∀ status position, x.reply = some (.erase status position) →
    status = .inProgress ∧ position = .ofNat current
  polled : x.IsPoll → ∃ p, x.transactions = [p] ∧ p.slot = slot ∧ p.readsStatus = true ∧
    p.saysBusy = true

/-- A poll finds the chip idle and starts the next block. -/
structure Starts (slot : Slot) (g : Geometry) (next : Nat) (x : Exchange) : Prop where
  isPoll : x.IsPoll
  told : x.reply = some (eraseResponse .inProgress next)
  started : ∃ p ts, x.transactions = p :: ts ∧ p.slot = slot ∧ p.readsStatus = true ∧
    p.saysBusy = false ∧ p.modifies = false ∧ ts.map Transaction.out = eraseOf slot g next ∧
    ∀ t ∈ ts, t.modifies = true

/-- A poll finds the chip idle after the last block. -/
structure Ends (slot : Slot) (last : Nat) (x : Exchange) : Prop where
  isPoll : x.IsPoll
  told : x.reply = some (eraseResponse .complete last)
  polled : ∃ p, x.transactions = [p] ∧ p.slot = slot ∧ p.readsStatus = true ∧ p.saysBusy = false

end Exchange

open Exchange

/-- Without a fault the two transactions of a block erase go out, both of which modify. -/
theorem modifies_eraseOf {slot : Slot} {g : Geometry} {block : Nat} {result : Except Fault Unit}
    {ts : List Transaction} (hg : Identified g) (hblock : block < g.eraseBlocks)
    (hopcode : g.eraseOpcode ∉ Transaction.readOpcodes)
    (h : Modifies slot (.blockErase g.eraseOpcode (g.blockAddress block)) result ts)
    (hfault : ∀ t ∈ ts, t.fault = none) :
    result = .ok () ∧ ts.map Transaction.out = eraseOf slot g block ∧
      ∀ t ∈ ts, t.modifies = true := by
  rw [hg.blockAddress_eq hblock] at h
  obtain ⟨hresult, t, u, rfl, ht, hu, htm, hum⟩ := h.ok hfault hopcode
  refine ⟨hresult, ?_, ?_⟩
  · simp only [List.map_cons, List.map_nil, ht, hu]
    simp [eraseOf, Instruction.clocked, Instruction.bytes, Instruction.blockErase,
      Geometry.start, Geometry.size]
  · simp [htm, hum]

/-- An exchange that is not answered about an erase and modifies nothing. -/
theorem keeps_of_quiet {slot : Slot} {current : Nat} {x : Exchange}
    (hquiet : ∀ t ∈ x.transactions, t.modifies = false)
    (hreply : ∀ status position, x.reply ≠ some (.erase status position))
    (hrequest : ∀ operation first last, x.request ≠ .erase operation first last) :
    x.Keeps slot current where
  quiet := hquiet
  told := fun status position h => absurd h (hreply status position)
  polled := fun ⟨first, last, h⟩ => absurd h (hrequest .status first last)

/-- What one request can be while blocks are being erased. -/
theorem Serves.erasing {s s' : Programmer} {r : Request} {data : List UInt8}
    {ts : List Transaction} {reply : Option Response} {slot : Slot} {g : Geometry}
    {current last : Nat} (h : Serves s r data ts reply s') (hs : s.WellFormed) (hsel : s.selected = some (slot, g))
    (hopcode : g.eraseOpcode ∉ Transaction.readOpcodes)
    (hjob : s.job = .erase current (current + 1) last)
    (hno : ∀ number bus, r ≠ .targetDevice number bus) (hfault : ∀ t ∈ ts, t.fault = none) :
    (Keeps slot current ⟨r, data, reply, ts⟩ ∧ s'.job = s.job ∧ s'.selected = s.selected) ∨
    (current < last ∧ Starts slot g (current + 1) ⟨r, data, reply, ts⟩ ∧
      s'.job = .erase (current + 1) (current + 1 + 1) last ∧ s'.selected = s.selected) ∨
    (current = last ∧ Ends slot last ⟨r, data, reply, ts⟩) := by
  have hbusy : s.job ≠ .idle := by
    rw [hjob]
    exact nofun
  have hposition : s.job.position = current := by
    rw [hjob]
    rfl
  obtain ⟨slot', g', hsel', _, hle, hblocks, _⟩ := hs.erasing _ _ _ hjob
  obtain ⟨rfl, rfl⟩ := selected_unique hsel hsel'
  -- The erase is outstanding, so whatever needs an idle programmer was refused.  Only a poll moves
  -- it on, and a poll fails only by a fault.
  cases h with
  | deviceCount | listedNone _ | verifyNothing _ | resetTarget | readRefused _ | writeRefused _ =>
    exact .inl ⟨keeps_of_quiet (by simp) nofun nofun, rfl, rfl⟩
  | listed _ _ hasks =>
    exact .inl ⟨keeps_of_quiet (fun t ht => (hasks t ht).reads) nofun nofun, rfl, rfl⟩
  | readTried _ _ hreads =>
    exact .inl ⟨keeps_of_quiet hreads.reads nofun nofun, rfl, rfl⟩
  | verifyRead _ _ hreads =>
    exact .inl ⟨keeps_of_quiet hreads.reads nofun nofun, rfl, rfl⟩
  | verifyUnread _ _ hreads =>
    exact .inl ⟨keeps_of_quiet hreads.reads nofun nofun, rfl, rfl⟩
  | targetedNone _ => exact absurd rfl (hno _ _)
  | targeted _ _ _ => exact absurd rfl (hno _ _)
  | eraseUntargeted hnone =>
    rw [hsel] at hnone
    cases hnone
  | statusUnread _ hpolls => exact absurd (hfault _ (by simp)) hpolls.fault
  | eraseOutOfRange _ _ hidle _ => exact absurd hidle hbusy
  | eraseStarted _ _ hidle _ _ _ => exact absurd hidle hbusy
  | eraseFailed _ _ hidle _ _ _ => exact absurd hidle hbusy
  | writeIncomplete _ hidle _ _ _ _ => exact absurd hidle hbusy
  | writeProgrammed _ hidle _ _ _ _ _ => exact absurd hidle hbusy
  | writeFailed _ hidle _ _ _ _ _ => exact absurd hidle hbusy
  | eraseOutstanding _ hspan hactive =>
    rw [hjob] at hactive
    cases hactive
    refine .inl ⟨⟨by simp, fun status position h => ?_, fun ⟨f, l, h⟩ => ?_⟩, rfl, rfl⟩
    · cases h
      exact ⟨rfl, rfl⟩
    · cases h
      cases hspan
  | statusBusy hsel' hpolls =>
    obtain ⟨rfl, rfl⟩ := selected_unique hsel hsel'
    obtain ⟨hslot, hreads, hsays⟩ := hpolls.ok
    refine .inl ⟨⟨by simpa using hpolls.reads, fun status position h => ?_, fun _ => ?_⟩, rfl, rfl⟩
    · cases h
      rw [hposition]
      exact ⟨rfl, rfl⟩
    · exact ⟨_, rfl, hslot, hreads, hsays⟩
  | statusDone hsel' hpolls hlast =>
    obtain ⟨rfl, rfl⟩ := selected_unique hsel hsel'
    obtain ⟨hslot, hreads, hsays⟩ := hpolls.ok
    have hfinal := hlast _ _ _ hjob
    obtain rfl : current = last := by omega
    rw [hposition]
    exact .inr (.inr ⟨rfl, ⟨_, _, rfl⟩, rfl, _, rfl, hslot, hreads, hsays⟩)
  | statusNext hsel' hpolls hjob' hnext hmodifies =>
    obtain ⟨rfl, rfl⟩ := selected_unique hsel hsel'
    obtain ⟨hslot, hreads, hsays⟩ := hpolls.ok
    rw [hjob] at hjob'
    cases hjob'
    obtain ⟨_, hout, hm⟩ := modifies_eraseOf (hs.identified _ _ hsel)
      (Nat.lt_of_le_of_lt hnext hblocks) hopcode hmodifies fun t ht => hfault t (by simp [ht])
    exact .inr (.inl ⟨hnext, ⟨⟨_, _, rfl⟩, rfl, _, _, rfl, hslot, hreads, hsays, hpolls.reads,
      hout, hm⟩, rfl, rfl⟩)
  | statusNextFailed hsel' hpolls hjob' hnext hmodifies =>
    obtain ⟨rfl, rfl⟩ := selected_unique hsel hsel'
    rw [hjob] at hjob'
    cases hjob'
    obtain ⟨hresult, _⟩ := modifies_eraseOf (hs.identified _ _ hsel)
      (Nat.lt_of_le_of_lt hnext hblocks) hopcode hmodifies fun t ht => hfault t (by simp [ht])
    cases hresult

/-! ## Any number of requests -/

/-- What exchanges can be while block `current` is being erased and the blocks up to `last` are to
follow.  After the last block was found done, nothing is said of them. -/
inductive Erasing (slot : Slot) (g : Geometry) (last : Nat) : Nat → List Exchange → Prop where
  | stop {current : Nat} : Erasing slot g last current []
  | keeps {current : Nat} {x : Exchange} {xs : List Exchange} (hx : x.Keeps slot current)
      (h : Erasing slot g last current xs) : Erasing slot g last current (x :: xs)
  | starts {current : Nat} {x : Exchange} {xs : List Exchange} (hlt : current < last)
      (hx : x.Starts slot g (current + 1)) (h : Erasing slot g last (current + 1) xs) :
      Erasing slot g last current (x :: xs)
  | ends {x : Exchange} {xs : List Exchange} (hx : x.Ends slot last) :
      Erasing slot g last last (x :: xs)

theorem Runs.erasing {s s' : Programmer} {xs : List Exchange} {slot : Slot} {g : Geometry}
    {current last : Nat} (h : Runs s xs s') (hs : Reachable s)
    (hsel : s.selected = some (slot, g)) (hopcode : g.eraseOpcode ∉ Transaction.readOpcodes)
    (hjob : s.job = .erase current (current + 1) last)
    (hno : ∀ x ∈ xs, ∀ number bus, x.request ≠ .targetDevice number bus)
    (hfault : ∀ x ∈ xs, ∀ t ∈ x.transactions, t.fault = none) :
    Erasing slot g last current xs := by
  induction h generalizing current with
  | stop s => exact .stop
  | serve r s _ ih =>
    have hserved := Reachable.served r s hs
    have hno' := fun x hx => hno x (List.mem_cons_of_mem _ hx)
    have hfault' := fun x hx => hfault x (List.mem_cons_of_mem _ hx)
    rcases (hs.serves r).erasing hs.wellFormed hsel hopcode hjob (hno _ List.mem_cons_self)
      (hfault _ List.mem_cons_self) with ⟨hx, hjob', hsel'⟩ | ⟨hlt, hx, hjob', hsel'⟩ | ⟨rfl, hx⟩
    · exact .keeps hx (ih hserved (hsel'.trans hsel) (hjob'.trans hjob) hno' hfault')
    · exact .starts hlt hx (ih hserved (hsel'.trans hsel) hjob' hno' hfault')
    · exact .ends hx

theorem Exchange.Keeps.not_completes {slot : Slot} {current : Nat} {x : Exchange}
    (h : x.Keeps slot current) : x.completes = false := by
  have htold := h.told
  rw [completes]
  split
  · next position hreply =>
    obtain ⟨hstatus, _⟩ := htold _ _ hreply
    cases hstatus
  · rfl

theorem Exchange.Starts.not_completes {slot : Slot} {g : Geometry} {next : Nat} {x : Exchange}
    (h : x.Starts slot g next) : x.completes = false := by
  rw [completes, h.told]
  rfl

theorem Exchange.Ends.completes {slot : Slot} {last : Nat} {x : Exchange}
    (h : x.Ends slot last) : x.completes = true := by
  rw [Exchange.completes, h.told]
  rfl

/-! ## What the chip is told -/

/-- The transactions of some exchanges, in order. -/
def wire (xs : List Exchange) : List Transaction := xs.flatMap Exchange.transactions

@[simp] theorem wire_cons (x : Exchange) (xs : List Exchange) :
    wire (x :: xs) = x.transactions ++ wire xs := rfl

/-- The exchanges up to the first one that completes, and that one. -/
def untilComplete : List Exchange → List Exchange
  | [] => []
  | x :: xs => if x.completes then [x] else x :: untilComplete xs

theorem Exchange.Starts.modifying_eq {slot : Slot} {g : Geometry} {next : Nat} {x : Exchange}
    (h : x.Starts slot g next) : modifying x.transactions = eraseOf slot g next := by
  obtain ⟨p, ts, hts, _, _, _, hp, hout, hm⟩ := h.started
  have hfilter : ts.filter Transaction.modifies = ts := List.filter_eq_self.mpr hm
  rw [modifying, hts, List.filter_cons_of_neg (by rw [hp]; decide), hfilter, hout]

theorem Exchange.Ends.modifying_eq {slot : Slot} {last : Nat} {x : Exchange}
    (h : x.Ends slot last) : modifying x.transactions = [] := by
  obtain ⟨p, hp, _, hreads, _⟩ := h.polled
  have hsent : p.sent = [0x05, 0xFF] := by simpa [Transaction.readsStatus] using hreads
  rw [hp]
  refine modifying_eq_nil fun t ht => ?_
  obtain rfl := List.mem_singleton.mp ht
  rw [Transaction.modifies, hsent]
  decide

/-- Up to the first completion the blocks after the current one are erased in order, and all of
them if there is a completion. -/
theorem Erasing.modifying_eq {slot : Slot} {g : Geometry} {current last : Nat}
    {xs : List Exchange} (h : Erasing slot g last current xs) (hle : current ≤ last) :
    ∃ n, current + n ≤ last ∧
      modifying (wire (untilComplete xs)) =
        (List.range' (current + 1) n).flatMap (eraseOf slot g) ∧
      (xs.any Exchange.completes = true → current + n = last) := by
  induction h with
  | stop => exact ⟨0, hle, rfl, nofun⟩
  | @keeps current x xs hx _ ih =>
    obtain ⟨n, hn, hout, hall⟩ := ih hle
    have hnot := hx.not_completes
    refine ⟨n, hn, ?_, fun hany => hall (by simpa [hnot] using hany)⟩
    rw [untilComplete, if_neg (by simp [hnot]), wire_cons, modifying_append,
      modifying_eq_nil hx.quiet, List.nil_append]
    exact hout
  | @starts current x xs hlt hx _ ih =>
    obtain ⟨n, hn, hout, hall⟩ := ih hlt
    have hnot := hx.not_completes
    refine ⟨n + 1, by omega, ?_, fun hany => ?_⟩
    · rw [untilComplete, if_neg (by simp [hnot]), wire_cons, modifying_append, hx.modifying_eq,
        hout]
      rfl
    · have hfinal := hall (by simpa [hnot] using hany)
      omega
  | @ends x xs hx =>
    refine ⟨0, Nat.le_refl _, ?_, fun _ => rfl⟩
    rw [untilComplete, if_pos hx.completes, wire_cons, modifying_append, hx.modifying_eq]
    rfl

/-- When an erase is found complete, every block has been started before. -/
theorem Erasing.at_completion {slot : Slot} {g : Geometry} {current last : Nat}
    {xs pre post : List Exchange} {x : Exchange} (h : Erasing slot g last current xs)
    (hxs : xs = pre ++ x :: post) (hpre : pre.any Exchange.completes = false)
    (hx : x.completes = true) :
    x.Ends slot last ∧ current ≤ last ∧
      modifying (wire pre) = (List.range' (current + 1) (last - current)).flatMap (eraseOf slot g) := by
  -- Only the last of an `Erasing` completes, so the split can fall nowhere else.
  induction h generalizing pre with
  | stop => simp at hxs
  | @keeps current y xs hy _ ih =>
    cases pre with
    | nil =>
      cases hxs
      rw [hy.not_completes] at hx
      cases hx
    | cons z pre =>
      cases hxs
      simp only [List.any_cons, Bool.or_eq_false_iff] at hpre
      obtain ⟨hends, hle, hout⟩ := ih rfl hpre.2
      refine ⟨hends, hle, ?_⟩
      rw [wire_cons, modifying_append, modifying_eq_nil hy.quiet, List.nil_append]
      exact hout
  | @starts current y xs hlt hy _ ih =>
    cases pre with
    | nil =>
      cases hxs
      rw [hy.not_completes] at hx
      cases hx
    | cons z pre =>
      cases hxs
      simp only [List.any_cons, Bool.or_eq_false_iff] at hpre
      obtain ⟨hends, hle, hout⟩ := ih rfl hpre.2
      refine ⟨hends, Nat.le_of_lt hlt, ?_⟩
      have hcount : last - current = (last - (current + 1)) + 1 := by omega
      rw [wire_cons, modifying_append, hy.modifying_eq, hout, hcount]
      rfl
  | @ends y xs hy =>
    cases pre with
    | nil =>
      cases hxs
      refine ⟨hy, Nat.le_refl _, ?_⟩
      rw [Nat.sub_self]
      rfl
    | cons z pre =>
      cases hxs
      simp only [List.any_cons, hy.completes] at hpre
      cases hpre

/-! ## What the host is told -/

/-- The block that the host is told of, if it is told of one. -/
def Exchange.told? (x : Exchange) : Option Nat :=
  match x.reply with
  | some (.erase _ position) => some position.val
  | _ => none

/-- The blocks that the host is told of, in order. -/
def told (xs : List Exchange) : List Nat := xs.filterMap Exchange.told?

theorem Exchange.Keeps.told?_eq {slot : Slot} {current : Nat} {x : Exchange}
    (h : x.Keeps slot current) (hcurrent : current < addressReach) :
    x.told? = none ∨ x.told? = some current := by
  have htold := h.told
  rw [told?]
  split
  · next status position hreply =>
    obtain ⟨_, rfl⟩ := htold _ _ hreply
    exact .inr (congrArg some (PageNumber.val_ofNat_of_lt hcurrent))
  · exact .inl rfl

theorem Exchange.Starts.told?_eq {slot : Slot} {g : Geometry} {next : Nat} {x : Exchange}
    (h : x.Starts slot g next) (hnext : next < addressReach) : x.told? = some next := by
  rw [told?, h.told]
  exact congrArg some (PageNumber.val_ofNat_of_lt hnext)

theorem Exchange.Ends.told?_eq {slot : Slot} {last : Nat} {x : Exchange}
    (h : x.Ends slot last) (hlast : last < addressReach) : x.told? = some last := by
  rw [told?, h.told]
  exact congrArg some (PageNumber.val_ofNat_of_lt hlast)

/-- Until the first completion the host is told of the current block and of later ones, in order. -/
theorem Erasing.told_sorted {slot : Slot} {g : Geometry} {current last : Nat}
    {xs : List Exchange} (h : Erasing slot g last current xs) (hle : current ≤ last)
    (hlast : last < addressReach) :
    (told (untilComplete xs)).Pairwise (· ≤ ·) ∧
      ∀ n ∈ told (untilComplete xs), current ≤ n ∧ n ≤ last := by
  induction h with
  | stop => exact ⟨.nil, nofun⟩
  | @keeps current x xs hx _ ih =>
    obtain ⟨hsorted, hbounds⟩ := ih hle
    rw [untilComplete, if_neg (by simp [hx.not_completes]), told, List.filterMap_cons]
    rcases hx.told?_eq (Nat.lt_of_le_of_lt hle hlast) with htold | htold
    · rw [htold]
      exact ⟨hsorted, hbounds⟩
    · rw [htold]
      refine ⟨.cons (fun n hn => (hbounds n hn).1) hsorted, fun n hn => ?_⟩
      rcases List.mem_cons.mp hn with rfl | hn
      · exact ⟨Nat.le_refl _, hle⟩
      · exact hbounds n hn
  | @starts current x xs hlt hx _ ih =>
    obtain ⟨hsorted, hbounds⟩ := ih hlt
    rw [untilComplete, if_neg (by simp [hx.not_completes]), told, List.filterMap_cons,
      hx.told?_eq (Nat.lt_of_le_of_lt hlt hlast)]
    refine ⟨.cons (fun n hn => (hbounds n hn).1) hsorted, fun n hn => ?_⟩
    rcases List.mem_cons.mp hn with rfl | hn
    · exact ⟨Nat.le_succ _, hlt⟩
    · obtain ⟨hfrom, hto⟩ := hbounds n hn
      exact ⟨Nat.le_of_succ_le hfrom, hto⟩
  | @ends x xs hx =>
    rw [untilComplete, if_pos hx.completes, told, List.filterMap_cons, hx.told?_eq hlast]
    refine ⟨.cons nofun .nil, fun n hn => ?_⟩
    obtain rfl := List.mem_singleton.mp hn
    exact ⟨Nat.le_refl _, Nat.le_refl _⟩

/-! ## How often the host must ask -/

/-- Every erase keeps the chip busy for `busy` status reads, the running one for `left` more. -/
def BusyFor (opcode : UInt8) (busy : Nat) : (left : Nat) → List Transaction → Prop
  | _, [] => True
  | left, t :: ts =>
    if t.readsStatus then t.saysBusy = decide (0 < left) ∧ BusyFor opcode busy (left - 1) ts
    else if t.sent.head? = some opcode then BusyFor opcode busy busy ts
    else BusyFor opcode busy left ts

instance decidableBusyFor (opcode : UInt8) (busy : Nat) :
    ∀ left ts, Decidable (BusyFor opcode busy left ts)
  | _, [] => inferInstanceAs (Decidable True)
  | left, t :: ts =>
    have := decidableBusyFor opcode busy (left - 1) ts
    have := decidableBusyFor opcode busy busy ts
    have := decidableBusyFor opcode busy left ts
    inferInstanceAs (Decidable
      (if t.readsStatus then t.saysBusy = decide (0 < left) ∧ BusyFor opcode busy (left - 1) ts
      else if t.sent.head? = some opcode then BusyFor opcode busy busy ts
      else BusyFor opcode busy left ts))

/-- A block erase keeps the chip busy from then on, whatever was running. -/
theorem busyFor_eraseOf {slot : Slot} {g : Geometry} {block busy left : Nat}
    {ts us : List Transaction} (hout : ts.map Transaction.out = eraseOf slot g block)
    (h : BusyFor g.eraseOpcode busy left (ts ++ us)) : BusyFor g.eraseOpcode busy busy us := by
  obtain ⟨t, ts', rfl, ht, hts'⟩ := List.map_eq_cons_iff.mp hout
  obtain ⟨u, ts'', rfl, hu, hnil⟩ := List.map_eq_cons_iff.mp hts'
  obtain rfl := List.map_eq_nil_iff.mp hnil
  have htsent : t.sent = [0x06] := congrArg Prod.snd ht
  have husent : u.sent = g.eraseOpcode :: addressBytes (block * g.eraseSize) := congrArg Prod.snd hu
  have htreads : t.readsStatus = false := by
    rw [Transaction.readsStatus, htsent]
    decide
  have hureads : u.readsStatus = false := by
    rw [Transaction.readsStatus, husent]
    refine beq_eq_false_iff_ne.mpr fun heq => ?_
    have hlength := congrArg List.length heq
    simp at hlength
  have hucons : ∀ left, BusyFor g.eraseOpcode busy left (u :: us) →
      BusyFor g.eraseOpcode busy busy us := by
    intro left hleft
    rw [BusyFor, hureads, husent] at hleft
    simpa using hleft
  rw [List.cons_append, BusyFor, htreads, if_neg (by decide)] at h
  split at h
  · exact hucons _ h
  · exact hucons _ h

/-- The poll that finds the last block done, counted from the one after which the running erase
keeps the chip busy for `left` more. -/
theorem Erasing.poll_count {slot : Slot} {g : Geometry} {current last busy left : Nat}
    {xs : List Exchange} (h : Erasing slot g last current xs)
    (hpolls : ∀ x ∈ xs, x.IsPoll) (hbusy : BusyFor g.eraseOpcode busy left (wire xs)) :
    ∀ i x, xs[i]? = some x →
      (i < left + (last - current) * (busy + 1) → x.completes = false) ∧
      (i = left + (last - current) * (busy + 1) → x.completes = true) := by
  -- `left` counts down while the same block is kept, and starts again at `busy` with the next one.
  induction h generalizing left with
  | stop => simp
  | @keeps current x xs hx _ ih =>
    obtain ⟨p, hp, _, hreads, hsays⟩ := hx.polled (hpolls x (by simp))
    rw [wire_cons, hp, List.singleton_append, BusyFor, if_pos hreads, hsays] at hbusy
    obtain ⟨hleft, hrest⟩ := hbusy
    have hpos : 0 < left := of_decide_eq_true hleft.symm
    intro i y hi
    cases i with
    | zero =>
      cases hi
      exact ⟨fun _ => hx.not_completes, fun hzero => by omega⟩
    | succ i =>
      obtain ⟨hbefore, hat⟩ := ih (fun y hy => hpolls y (by simp [hy])) hrest i y hi
      exact ⟨fun hlt => hbefore (by omega), fun heq => hat (by omega)⟩
  | @starts current x xs hlt hx _ ih =>
    obtain ⟨p, ts, hts, _, hreads, hsays, _, hout, _⟩ := hx.started
    rw [wire_cons, hts, List.cons_append, BusyFor, if_pos hreads, hsays] at hbusy
    obtain ⟨hleft, hrest⟩ := hbusy
    have hzero : left = 0 := Nat.eq_zero_of_not_pos (of_decide_eq_false hleft.symm)
    have hcount : (last - current) * (busy + 1) =
        busy + 1 + (last - (current + 1)) * (busy + 1) := by
      have hsucc : last - current = last - (current + 1) + 1 := by omega
      rw [hsucc, Nat.succ_mul, Nat.add_comm]
    intro i y hi
    cases i with
    | zero =>
      cases hi
      exact ⟨fun _ => hx.not_completes, fun heq => by omega⟩
    | succ i =>
      obtain ⟨hbefore, hat⟩ :=
        ih (fun y hy => hpolls y (by simp [hy])) (busyFor_eraseOf hout hrest) i y hi
      exact ⟨fun hlt => hbefore (by omega), fun heq => hat (by omega)⟩
  | @ends x xs hx =>
    obtain ⟨p, hp, _, hreads, hsays⟩ := hx.polled
    rw [wire_cons, hp, List.singleton_append, BusyFor, if_pos hreads, hsays] at hbusy
    have hzero : left = 0 := Nat.eq_zero_of_not_pos (of_decide_eq_false hbusy.1.symm)
    rw [hzero, Nat.sub_self, Nat.zero_mul]
    intro i y hi
    refine ⟨nofun, fun heq => ?_⟩
    subst heq
    cases hi
    exact hx.completes

/-! ## The whole erase -/

/-- A request starts the first block of an erase. -/
structure Exchange.Begins (slot : Slot) (g : Geometry) (first : Nat) (x : Exchange) : Prop where
  told : x.reply = some (eraseResponse .inProgress first)
  started : x.transactions.map Transaction.out = eraseOf slot g first
  modifies : ∀ t ∈ x.transactions, t.modifies = true

theorem Exchange.Begins.not_completes {slot : Slot} {g : Geometry} {first : Nat} {x : Exchange}
    (h : x.Begins slot g first) : x.completes = false := by
  rw [completes, h.told]
  rfl

theorem Exchange.Begins.modifying_eq {slot : Slot} {g : Geometry} {first : Nat} {x : Exchange}
    (h : x.Begins slot g first) : modifying x.transactions = eraseOf slot g first := by
  rw [modifying, List.filter_eq_self.mpr h.modifies, h.started]

theorem Exchange.Begins.told?_eq {slot : Slot} {g : Geometry} {first : Nat} {x : Exchange}
    (h : x.Begins slot g first) (hfirst : first < addressReach) : x.told? = some first := by
  rw [told?, h.told]
  exact congrArg some (PageNumber.val_ofNat_of_lt hfirst)

/-- An acceptable range erase starts its first block. -/
theorem Serves.range_begins {s s' : Programmer} {b e : PageNumber} {data : List UInt8}
    {ts : List Transaction} {reply : Option Response} {slot : Slot} {g : Geometry}
    (h : Serves s (.erase .pageRange b e) data ts reply s') (hs : s.WellFormed)
    (hsel : s.selected = some (slot, g)) (hopcode : g.eraseOpcode ∉ Transaction.readOpcodes)
    (hjob : s.job = .idle) (hle : b.val ≤ e.val) (hblocks : e.val < g.eraseBlocks)
    (hfault : ∀ t ∈ ts, t.fault = none) :
    Begins slot g b.val ⟨.erase .pageRange b e, data, reply, ts⟩ ∧
      s'.job = .erase b.val (b.val + 1) e.val ∧ s'.selected = s.selected := by
  have hg := hs.identified _ _ hsel
  have hfirst : b.val < g.eraseBlocks := Nat.lt_of_le_of_lt hle hblocks
  cases h with
  | eraseUntargeted hnone =>
    rw [hsel] at hnone
    cases hnone
  | eraseOutstanding _ _ hactive =>
    rw [hjob] at hactive
    cases hactive
  | eraseOutOfRange hsel' hspan _ hrange =>
    obtain ⟨rfl, rfl⟩ := selected_unique hsel hsel'
    cases hspan
    omega
  | eraseStarted hsel' hspan _ _ _ hmodifies =>
    obtain ⟨rfl, rfl⟩ := selected_unique hsel hsel'
    cases hspan
    obtain ⟨_, hout, hm⟩ := modifies_eraseOf hg hfirst hopcode hmodifies hfault
    exact ⟨⟨rfl, hout, hm⟩, rfl, rfl⟩
  | eraseFailed hsel' hspan _ _ _ hmodifies =>
    obtain ⟨rfl, rfl⟩ := selected_unique hsel hsel'
    cases hspan
    obtain ⟨hresult, _⟩ := modifies_eraseOf hg hfirst hopcode hmodifies hfault
    cases hresult

theorem Runs.range_erase {s s' : Programmer} {slot : Slot} {g : Geometry} {b e : PageNumber}
    {x : Exchange} {xs : List Exchange} (h : Runs s (x :: xs) s') (hs : Reachable s)
    (hsel : s.selected = some (slot, g)) (hopcode : g.eraseOpcode ∉ Transaction.readOpcodes)
    (hjob : s.job = .idle) (hle : b.val ≤ e.val) (hblocks : e.val < g.eraseBlocks)
    (hx : x.request = .erase .pageRange b e)
    (hno : ∀ y ∈ xs, ∀ number bus, y.request ≠ .targetDevice number bus)
    (hfault : ∀ y ∈ x :: xs, ∀ t ∈ y.transactions, t.fault = none) :
    x.Begins slot g b.val ∧ Erasing slot g e.val b.val xs := by
  cases h with
  | serve r s hrest =>
    cases hx
    obtain ⟨hbegins, hjob', hsel'⟩ := (hs.serves _).range_begins hs.wellFormed hsel hopcode hjob
      hle hblocks (hfault _ List.mem_cons_self)
    exact ⟨hbegins, hrest.erasing (.served _ s hs) (hsel'.trans hsel) hopcode hjob' hno
      fun y hy => hfault y (List.mem_cons_of_mem _ hy)⟩

/-- A range erase erases its range.

The request `x` for the blocks from `b` to `e` is served by a reachable programmer that has a chip
selected and nothing outstanding.  Requests `xs` of any kind follow, but for another target, and no
byte on the SPI bus fails.  Then, up to the first completion, what modifies the chip is the erase
of one block after the other from `b` on, and of all of them if there is a completion.  The host is
told of blocks of the range, in order.  The first completion answers a poll that found the chip
idle after all blocks were started.  And if the host only polls and every erase keeps the chip busy
for `busy` status reads, that poll is number `(e - b + 1) * (busy + 1)`. -/
theorem range_erase_exact {s s' : Programmer} {slot : Slot} {g : Geometry} {b e : PageNumber}
    {x : Exchange} {xs : List Exchange} (hs : Reachable s) (hsel : s.selected = some (slot, g))
    (hopcode : g.eraseOpcode ∉ Transaction.readOpcodes) (hjob : s.job = .idle)
    (hle : b.val ≤ e.val) (hblocks : e.val < g.eraseBlocks) (hruns : Runs s (x :: xs) s')
    (hx : x.request = .erase .pageRange b e)
    (hno : ∀ y ∈ xs, ∀ number bus, y.request ≠ .targetDevice number bus)
    (hfault : ∀ y ∈ x :: xs, ∀ t ∈ y.transactions, t.fault = none) :
    (∃ n, b.val + n ≤ e.val ∧
      modifying (wire (untilComplete (x :: xs))) =
        (List.range' b.val (n + 1)).flatMap (eraseOf slot g) ∧
      ((x :: xs).any Exchange.completes = true → b.val + n = e.val)) ∧
    ((told (untilComplete (x :: xs))).Pairwise (· ≤ ·) ∧
      ∀ n ∈ told (untilComplete (x :: xs)), b.val ≤ n ∧ n ≤ e.val) ∧
    (∀ pre y post, x :: xs = pre ++ y :: post → pre.any Exchange.completes = false →
      y.completes = true →
        y.IsPoll ∧ (∃ p, y.transactions = [p] ∧ p.slot = slot ∧ p.readsStatus = true ∧
          p.saysBusy = false) ∧
        modifying (wire pre) =
          (List.range' b.val (e.val - b.val + 1)).flatMap (eraseOf slot g)) ∧
    ∀ busy, (∀ y ∈ xs, y.IsPoll) → BusyFor g.eraseOpcode busy 0 (wire (x :: xs)) →
      ∀ i y, xs[i]? = some y →
        (i + 1 < (e.val - b.val + 1) * (busy + 1) → y.completes = false) ∧
        (i + 1 = (e.val - b.val + 1) * (busy + 1) → y.completes = true) := by
  obtain ⟨hbegins, herasing⟩ :=
    hruns.range_erase hs hsel hopcode hjob hle hblocks hx hno hfault
  have hnot := hbegins.not_completes
  have huntil : untilComplete (x :: xs) = x :: untilComplete xs := by
    rw [untilComplete, if_neg (by simp [hnot])]
  rw [huntil]
  refine ⟨?_, ?_, ?_, ?_⟩
  · obtain ⟨n, hn, hout, hall⟩ := herasing.modifying_eq hle
    refine ⟨n, hn, ?_, fun hany => hall (by simpa [hnot] using hany)⟩
    rw [wire_cons, modifying_append, hbegins.modifying_eq, hout]
    rfl
  · obtain ⟨hsorted, hbounds⟩ := herasing.told_sorted hle e.isLt
    rw [told, List.filterMap_cons, hbegins.told?_eq (Nat.lt_of_le_of_lt hle e.isLt)]
    refine ⟨.cons (fun n hn => (hbounds n hn).1) hsorted, fun n hn => ?_⟩
    rcases List.mem_cons.mp hn with rfl | hn
    · exact ⟨Nat.le_refl _, hle⟩
    · exact hbounds n hn
  · intro pre y post hxs hpre hy
    cases pre with
    | nil =>
      cases hxs
      rw [hnot] at hy
      cases hy
    | cons z pre =>
      cases hxs
      simp only [List.any_cons, hnot, Bool.false_or] at hpre
      obtain ⟨hends, _, hout⟩ := herasing.at_completion rfl hpre hy
      refine ⟨hends.isPoll, hends.polled, ?_⟩
      rw [wire_cons, modifying_append, hbegins.modifying_eq, hout]
      rfl
  · intro busy hpolls hbusy i y hi
    rw [wire_cons] at hbusy
    obtain ⟨hbefore, hat⟩ :=
      herasing.poll_count hpolls (busyFor_eraseOf hbegins.started hbusy) i y hi
    have hcount : (e.val - b.val + 1) * (busy + 1) =
        busy + (e.val - b.val) * (busy + 1) + 1 := by
      rw [Nat.succ_mul]
      omega
    exact ⟨fun hlt => hbefore (by omega), fun heq => hat (by omega)⟩

/-! ## On the bench -/

/-- A programmer that targets a part of 1 MiB, which is busy for two status reads after an erase. -/
def oneMegabyte : Station Bench.Rig :=
  Bench.Rig.targeting { id := [0xEF, 0x40, 0x14], size := 0x100000 }

/-- A request for blocks 1 and 2. -/
def eraseTwo : Request := .erase .pageRange (.ofNat 1) (.ofNat 2)

/-- Six polls. -/
def sixPolls : List Request := List.replicate 6 (.erase .status (.ofNat 0) (.ofNat 0))

/-- What the request comes to. -/
def erasedTwo : Exchange :=
  ⟨eraseTwo, [], replyTo eraseTwo oneMegabyte, transactionsOf eraseTwo oneMegabyte⟩

/-- What the polls after it come to. -/
def polledSix : List Exchange := (serveAll sixPolls (serve eraseTwo oneMegabyte)).1

theorem range_erase_exact_two_blocks :
    modifying (wire (untilComplete (erasedTwo :: polledSix))) =
      [(.local1, [0x06]), (.local1, [0x20, 0x00, 0x10, 0x00]),
        (.local1, [0x06]), (.local1, [0x20, 0x00, 0x20, 0x00])] ∧
    ∃ y, polledSix[5]? = some y ∧ y.completes = true := by
  have hruns : Runs oneMegabyte.1 (erasedTwo :: polledSix) _ :=
    runs_serveAll (eraseTwo :: sixPolls) oneMegabyte
  have hsel : oneMegabyte.1.selected =
      some (.local1, (Part.sectored 0x40 0x14).geometry ⟨0xEF, 0x40, 0x14⟩) := by
    decide
  have hpolls : ∀ y ∈ polledSix, y.IsPoll := by
    have hrequests : polledSix.map Exchange.request = sixPolls := rfl
    intro y hy
    have hmem : y.request ∈ sixPolls := by
      rw [← hrequests]
      exact List.mem_map.mpr ⟨y, hy, rfl⟩
    exact ⟨_, _, List.eq_of_mem_replicate hmem⟩
  have hno : ∀ y ∈ polledSix, ∀ number bus, y.request ≠ .targetDevice number bus := by
    intro y hy number bus heq
    obtain ⟨_, _, hpoll⟩ := hpolls y hy
    rw [hpoll] at heq
    cases heq
  obtain ⟨⟨n, hn, hout, hall⟩, _, _, hcount⟩ := range_erase_exact
    (.served (.targetDevice 0 0) _ (.start {})) hsel (by decide) (by decide) (by decide)
    (by decide) hruns rfl hno (by decide)
  have hone : n = 1 := by
    have hany := hall (by decide)
    have hb : (PageNumber.ofNat 1).val = 1 := rfl
    have he : (PageNumber.ofNat 2).val = 2 := rfl
    omega
  subst hone
  refine ⟨hout.trans (by decide), ?_⟩
  obtain ⟨y, hy⟩ : ∃ y, polledSix[5]? = some y := ⟨_, rfl⟩
  exact ⟨y, hy, (hcount 2 hpolls (by decide) 5 y hy).2 (by decide)⟩

end FlashProgrammer.Programmer

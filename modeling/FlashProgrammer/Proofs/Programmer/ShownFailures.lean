import FlashProgrammer.Proofs.Programmer.RangeErase
import FlashProgrammer.Proofs.Trace.ControllerActions

/-!
# How the host sees a failure

A byte on the SPI bus may fail in any transaction of a request.  An erase and a
verification then answer `invalid`, and a read halts the endpoint and sends nothing.  A
write has no answer to say it in.  It halts the endpoint if it does not want the data or
not all of it comes, but once the data is there a failure is only forgotten: the endpoint
stays as it is, nothing is outstanding, and the next poll that finds the chip idle is
answered `complete`.

`shown_failures_exact` says so of every request and tells the two ends of an accepted
write apart: if its page was started, a poll completes at that page, and if not, at 0.
-/

namespace FlashProgrammer.Flash

open Trace

/-! ## Results and faults -/

/-- Every byte of the transactions was moved. -/
def Clean (ts : List Transaction) : Prop := ∀ t ∈ ts, t.fault = none

instance (ts : List Transaction) : Decidable (Clean ts) :=
  inferInstanceAs (Decidable (∀ t ∈ ts, t.fault = none))

theorem clean_nil : Clean [] := by simp [Clean]

theorem Clean.append {ts us : List Transaction} (hts : Clean ts) (hus : Clean us) :
    Clean (ts ++ us) := by
  intro t ht
  rcases List.mem_append.mp ht with ht | ht
  · exact hts t ht
  · exact hus t ht

variable {slot : Slot}

theorem Carries.clean_of_ok {i : Instruction} {reply : List UInt8} {t : Transaction}
    (h : Carries slot i (.ok reply) t) : Clean [t] := by
  cases h
  simp [Clean]

theorem Polls.clean_of_ok {busy : Bool} {t : Transaction} (h : Polls slot (.ok busy) t) :
    Clean [t] := by
  obtain ⟨reply, hcarries, hbusy⟩ := h
  cases reply with
  | error e => cases hbusy
  | ok bs => exact hcarries.clean_of_ok

theorem Waits.clean_of_ok {n : Nat} {result : Except Fault Unit} {ts : List Transaction}
    (h : Waits slot n result ts) (hok : result = .ok ()) : Clean ts := by
  induction h with
  | spent => cases hok
  | idle hpolls => exact hpolls.clean_of_ok
  | busy hpolls _ ih => exact hpolls.clean_of_ok.append (ih hok)
  | failed _ => cases hok

/-- A page that was read was read without a fault. -/
theorem ReadsIdle.clean_of_ok {polls address length : Nat} {bs : List UInt8}
    {ts : List Transaction} (h : ReadsIdle slot polls address length (.ok bs) ts) : Clean ts := by
  cases h with
  | read hwaits hcarries => exact (hwaits.clean_of_ok rfl).append hcarries.clean_of_ok

/-- An instruction that was given went out without a fault. -/
theorem Modifies.clean_of_ok {i : Instruction} {ts : List Transaction}
    (h : Modifies slot i (.ok ()) ts) : Clean ts := by
  generalize hresult : (Except.ok () : Except Fault Unit) = result at h
  cases h with
  | kept _ => cases hresult
  | @given t u enabled reply henable hok hcarries =>
    cases enabled with
    | error e => cases hok
    | ok _ =>
      cases reply with
      | error e => cases hresult
      | ok _ => exact henable.clean_of_ok.append hcarries.clean_of_ok

/-- An instruction that was not given was stopped by a fault. -/
theorem Modifies.not_clean_of_error {i : Instruction} {e : Fault} {ts : List Transaction}
    (h : Modifies slot i (.error e) ts) : ¬Clean ts := by
  intro hclean
  obtain ⟨hok, _⟩ := h.of_fault_none hclean
  cases hok

end FlashProgrammer.Flash

namespace FlashProgrammer.Job

/-- No block is to follow what is outstanding. -/
def Spent (j : Job) : Prop := ∀ current next last, j = .erase current next last → last < next

theorem spent_idle : Spent .idle := by
  rintro _ _ _ ⟨⟩

theorem spent_write (page : Nat) : Spent (.write page) := by
  rintro _ _ _ ⟨⟩

end FlashProgrammer.Job

namespace FlashProgrammer.Programmer

open Flash Protocol Usb Trace
open Bench (Rig)

/-! ## What the host sees -/

section Seeing

variable {ω : Type} [Spi.Bus ω] [ResetLine ω] [Controller ω]

/-- The controller actions that a request is served with. -/
def actionsOf (r : Request) (s : Station ω) : List Usb.Action :=
  controllerActions (serve r (s.1, traced s.2)).2.hw.events

/-- A byte fails on the SPI bus while a request is served. -/
def Fails (r : Request) (s : Station ω) : Prop := ¬Clean (transactionsOf r s)

instance (r : Request) (s : Station ω) : Decidable (Fails r s) :=
  inferInstanceAs (Decidable (¬Clean (transactionsOf r s)))

/-- The outcome of a request that reads, writes, verifies or erases says that it failed.  Of a read
nothing is sent. -/
def Alerts (r : Request) (s : Station ω) : Prop :=
  match r with
  | .erase .. => ∃ position, replyTo r s = some (eraseResponse .invalid position)
  | .verify => replyTo r s = some (.verify .invalid)
  | .read _ => actionsOf r s = [.stall .flash .toHost]
  | .write .. => .stall .flash .toDevice ∈ actionsOf r s
  | _ => False

end Seeing

/-- A poll that finds the chip idle is answered `complete` at a block or page. -/
def CompletesAt (s : Programmer) (position : Nat) : Prop :=
  ∀ {ω : Type} [Spi.Bus ω] [ResetLine ω] [Controller ω] (later : Station ω)
    (first last : PageNumber), later.1 = s →
    (∀ t ∈ transactionsOf (.erase .status first last) later,
      t.fault = none ∧ t.saysBusy = false) →
    replyTo (.erase .status first last) later = some (eraseResponse .complete position)

/-! ## Erasing and verifying -/

theorem Serves.eraseResponse_of_fault {s s' : Programmer} {operation : EraseOperation}
    {first last : PageNumber} {data : List UInt8} {ts : List Transaction} {reply : Option Response}
    (h : Serves s (.erase operation first last) data ts reply s') (hfails : ¬Clean ts) :
    ∃ position, reply = some (eraseResponse .invalid position) := by
  cases h with
  | eraseUntargeted _ => exact absurd clean_nil hfails
  | statusUnread _ _ => exact ⟨_, rfl⟩
  | statusBusy _ hpolls => exact absurd hpolls.clean_of_ok hfails
  | statusDone _ hpolls _ => exact absurd hpolls.clean_of_ok hfails
  | statusNext _ hpolls _ _ hmodifies =>
    exact absurd (hpolls.clean_of_ok.append hmodifies.clean_of_ok) hfails
  | statusNextFailed _ _ _ _ _ => exact ⟨_, rfl⟩
  | eraseOutstanding _ _ _ => exact absurd clean_nil hfails
  | eraseOutOfRange _ _ _ _ => exact absurd clean_nil hfails
  | eraseStarted _ _ _ _ _ hmodifies => exact absurd hmodifies.clean_of_ok hfails
  | eraseFailed _ _ _ _ _ _ => exact ⟨_, rfl⟩

theorem Serves.verify_of_fault {s s' : Programmer} {data : List UInt8} {ts : List Transaction}
    {reply : Option Response} (h : Serves s .verify data ts reply s') (hfails : ¬Clean ts) :
    reply = some (.verify .invalid) := by
  cases h with
  | verifyNothing _ => exact absurd clean_nil hfails
  | verifyRead _ _ hreads => exact absurd hreads.clean_of_ok hfails
  | verifyUnread _ _ _ => rfl

theorem Serves.complete_of_idle {s s' : Programmer} {first last : PageNumber} {data : List UInt8}
    {ts : List Transaction} {reply : Option Response}
    (h : Serves s (.erase .status first last) data ts reply s') {slot : Slot} {g : Geometry}
    (hsel : s.selected = some (slot, g)) (hspent : s.job.Spent)
    (hidle : ∀ t ∈ ts, t.fault = none ∧ t.saysBusy = false) :
    reply = some (eraseResponse .complete s.job.position) := by
  cases h with
  | eraseUntargeted hnone =>
    rw [hsel] at hnone
    cases hnone
  | statusUnread _ hpolls => exact absurd (hidle _ List.mem_cons_self).1 hpolls.fault
  | statusBusy _ hpolls =>
    have hbusy := (hidle _ List.mem_cons_self).2
    rw [hpolls.ok.2.2] at hbusy
    cases hbusy
  | statusDone _ _ _ => rfl
  | statusNext _ _ hjob hnext _ => exact absurd (hspent _ _ _ hjob) (Nat.not_lt.mpr hnext)
  | statusNextFailed _ _ hjob hnext _ => exact absurd (hspent _ _ _ hjob) (Nat.not_lt.mpr hnext)
  | eraseOutstanding _ hspan _ => cases hspan
  | eraseOutOfRange _ hspan _ _ => cases hspan
  | eraseStarted _ hspan _ _ _ _ => cases hspan
  | eraseFailed _ hspan _ _ _ _ => cases hspan

/-- A poll completes at what is outstanding, unless a block of an erase is to follow. -/
theorem WellFormed.completesAt {s : Programmer} (hs : s.WellFormed) {slot : Slot} {g : Geometry}
    (hsel : s.selected = some (slot, g)) {j : Job} (hjob : s.job = j) (hspent : j.Spent) :
    CompletesAt s j.position := by
  intro ω _ _ _ later first last hlater hidle
  subst hlater hjob
  exact (serves (.erase .status first last) later hs.page_length).complete_of_idle hsel hspent
    hidle

/-! ## Data that is wanted -/

theorem takesData_iff {s : Programmer} {page count : Nat} : s.takesData page count = true ↔
    ∃ slot g, s.selected = some (slot, g) ∧ s.job = .idle ∧ 0 < count ∧ count ≤ g.pageLength ∧
      page < g.pageCount := by
  rw [takesData]
  cases hsel : s.selected with
  | none => simp
  | some selected =>
    obtain ⟨slot, g⟩ := selected
    cases s.job with
    | erase current next last => simp [Job.at?]
    | write page => simp [Job.at?]
    | idle =>
      simp only [Job.at?, Bool.not_eq_true', Bool.or_eq_false_iff, decide_eq_false_iff_not]
      constructor
      · rintro ⟨⟨hpos, hcount⟩, hpage⟩
        exact ⟨slot, g, rfl, trivial, by omega, by omega, by omega⟩
      · rintro ⟨_, _, hselected, _, hpos, hcount, hpage⟩
        cases hselected
        omega

theorem Serves.selected_of_write {s s' : Programmer} {page count : PageNumber} {data : List UInt8}
    {ts : List Transaction} {reply : Option Response}
    (h : Serves s (.write page count) data ts reply s') : s'.selected = s.selected := by
  cases h <;> rfl

/-- A byte can only fail for a write whose data was wanted and came. -/
theorem Serves.data_of_fault {s s' : Programmer} {page count : PageNumber} {data : List UInt8}
    {ts : List Transaction} {reply : Option Response}
    (h : Serves s (.write page count) data ts reply s') (hfails : ¬Clean ts) :
    s.takesData page.val count.val = true ∧ data.length = count.val := by
  cases h with
  | writeRefused _ => exact absurd clean_nil hfails
  | writeIncomplete _ _ _ _ _ _ => exact absurd clean_nil hfails
  | writeProgrammed _ _ _ _ _ _ hmodifies => exact absurd hmodifies.clean_of_ok hfails
  | writeFailed hsel hjob hpos hcount hcovered hbytes _ =>
    exact ⟨takesData_iff.mpr ⟨_, _, hsel, hjob, hpos, hcount, hcovered⟩, hbytes⟩

/-- A write whose data is wanted and comes either starts its page, by a write enable and a program
that go out whole, or fails and leaves nothing outstanding and nothing to verify. -/
theorem Serves.write_outcome {s s' : Programmer} {page count : PageNumber} {data : List UInt8}
    {ts : List Transaction} {reply : Option Response}
    (h : Serves s (.write page count) data ts reply s') {slot : Slot} {g : Geometry}
    (hsel : s.selected = some (slot, g)) (htakes : s.takesData page.val count.val = true)
    (hdata : data.length = count.val) :
    (Clean ts ∧ ts.map Transaction.out =
        [(slot, [0x06]), (slot, 0x02 :: addressBytes (g.pageAddress page.val) ++ data)] ∧
      s'.job = .write page.val) ∨
    (¬Clean ts ∧ s'.written = none ∧ s'.job = .idle) := by
  cases h with
  | writeRefused hrefused =>
    rw [htakes] at hrefused
    cases hrefused
  | writeIncomplete _ _ _ _ _ hless => exact absurd hdata (Nat.ne_of_lt hless)
  | writeProgrammed hsel' _ _ _ _ _ hmodifies =>
    obtain ⟨rfl, rfl⟩ := selected_unique hsel hsel'
    have hclean := hmodifies.clean_of_ok
    obtain ⟨_, t, u, rfl, ht, hu, _⟩ := hmodifies.ok hclean (show (0x02 : UInt8) ∉ _ by decide)
    refine .inl ⟨hclean, ?_, rfl⟩
    simp only [List.map_cons, List.map_nil, ht, hu]
    simp [Instruction.clocked, Instruction.bytes, Instruction.pageProgram]
  | writeFailed _ hjob _ _ _ _ hmodifies =>
    exact .inr ⟨hmodifies.not_clean_of_error, rfl, hjob⟩

section Wanting

variable {ω : Type} [Controller ω]

theorem dataOf_of_taken {page count : PageNumber} {s : Station ω}
    (h : s.1.takesData page.val count.val = true) :
    dataOf (.write page count) s = (s.2.gather flashEndpoint count.val count.val).1.bytes := by
  rw [dataOf, if_pos h]

/-- All the data of a write is wanted and comes. -/
def Accepts (page count : PageNumber) (s : Station ω) : Prop :=
  s.1.takesData page.val count.val = true ∧ (dataOf (.write page count) s).length = count.val

end Wanting

/-! ## Reading and writing -/

section Moving

variable {ω : Type} [Spi.Bus ω]

/-- Programming a page asks nothing of the controller. -/
theorem drives_program (slot : Slot) (g : Geometry) (page count : Nat) (s : Station (Traced ω)) :
    Drives [] s.2.hw (program slot g page count s).2.hw ∧
      (program slot g page count s).2.device = s.2.device := by
  have hdrives := drives_modify slot
    (.pageProgram (g.pageAddress page) (s.1.page.take count)) s.2.hw
  rw [program, startPageProgram]
  generalize Flash.modify slot _ s.2.hw = started at hdrives ⊢
  obtain ⟨_ | _, w⟩ := started <;> exact ⟨hdrives, rfl⟩

variable [Controller ω]

/-- A page is read without a fault, or the endpoint is halted and nothing else is done to it. -/
theorem servePage_drives (page : Nat) (s : Station (Traced ω)) :
    ∃ ts, Issues ts s.2.hw (servePage page s).2.hw ∧
      (Clean ts ∨ Drives [.stall .flash .toHost] s.2.hw (servePage page s).2.hw) := by
  have hrefuse : Issues [] s.2.hw (refuse .toHost s).2.hw :=
    issues_of_used (used_stallEndpoint flashEndpoint .toHost s.2)
  rw [servePage]
  cases s.1.selected with
  | none => exact ⟨[], hrefuse, .inl clean_nil⟩
  | some selected =>
    obtain ⟨slot, g⟩ := selected
    simp only
    split
    · obtain ⟨ts, hreads, hissues⟩ := readIdle_readsIdle slot s.1.budget.flashPolls
        (g.pageAddress page) g.pageLength s.2.hw
      have hdrives := drives_readIdle slot s.1.budget.flashPolls (g.pageAddress page) g.pageLength
        s.2.hw
      generalize readIdle slot s.1.budget.flashPolls (g.pageAddress page) g.pageLength s.2.hw =
        read at hreads hissues hdrives ⊢
      obtain ⟨_ | bytes, w⟩ := read
      · exact ⟨ts,
          hissues.quiet (issues_of_used (used_stallEndpoint flashEndpoint .toHost ⟨s.2.device, w⟩)),
          .inr (hdrives.trans (drives_refuse .toHost (s.1, ⟨s.2.device, w⟩)))⟩
      · exact ⟨ts,
          hissues.quiet (issues_of_used (talks_write flashEndpoint bytes ⟨s.2.device, w⟩).used),
          .inl hreads.clean_of_ok⟩
    · exact ⟨[], hrefuse, .inl clean_nil⟩

theorem acceptPage_of_refused {page count : Nat} {s : Station ω}
    (h : s.1.takesData page count = false) : acceptPage page count s = refuse .toDevice s := by
  rw [acceptPage]
  split
  · next slot g hsel hjob =>
    rw [takesData, hsel, hjob] at h
    rw [if_pos (by simpa only [Bool.not_eq_false'] using h)]
  · rfl

/-- The data of a write is gathered into the front of the page buffer.  If all of it came it is
programmed, and if not the endpoint is halted. -/
theorem acceptPage_of_taken {page count : Nat} {s : Station ω}
    (hpage : s.1.page.length = maxPageLength) {slot : Slot} {g : Geometry}
    (hsel : s.1.selected = some (slot, g)) (h : s.1.takesData page count = true) :
    acceptPage page count s =
      let gathered := s.2.gather flashEndpoint count count
      let bytes := gathered.1.bytes
      let filled : Station ω :=
        ({ s.1 with page := bytes ++ s.1.page.drop bytes.length }, gathered.2)
      match gathered.1.outcome with
      | .ok _ => program slot g page count filled
      | .error _ => refuse .toDevice filled := by
  obtain ⟨slot', g', hsel', hjob, hpos, hcount, hcovered⟩ := takesData_iff.mp h
  obtain ⟨rfl, rfl⟩ := selected_unique hsel hsel'
  have hwanted : (count = 0 || g'.pageLength < count || g'.pageCount ≤ page) = false := by
    simp only [Bool.or_eq_false_iff, decide_eq_false_iff_not]
    omega
  have hneed : (s.1.page.take count).length = count := length_take_page hpage g' hcount
  have hlength := gather_length flashEndpoint (Nat.le_refl count) s.2
  simp only [acceptPage, hsel, hjob, Job.at?, hwanted, Link.fill, hneed]
  generalize s.2.gather flashEndpoint count count = gathered at hlength ⊢
  obtain ⟨⟨bytes, outcome⟩, q⟩ := gathered
  have hle : bytes.length ≤ count := by
    rcases hlength with ⟨_, hall⟩ | ⟨_, hsome⟩
    · exact Nat.le_of_eq hall
    · exact Nat.le_of_lt hsome
  simp only [fill_append bytes s.1.page hle]
  rfl

/-- For a write that is accepted, data is taken from the host and nothing else is done to it. -/
theorem Accepts.drives {page count : PageNumber} {s : Station (Traced ω)}
    (hpage : s.1.page.length = maxPageLength) (h : Accepts page count s) :
    Receives s.2.hw (acceptPage page.val count.val s).2.hw ∧
      (acceptPage page.val count.val s).2.device = s.2.device := by
  obtain ⟨htakes, hdata⟩ := h
  obtain ⟨slot, g, hsel, _⟩ := takesData_iff.mp htakes
  have hlength := gather_length flashEndpoint (Nat.le_refl count.val) s.2
  have hreceives := receives_gather flashEndpoint count.val count.val s.2
  have htalks := talks_gather flashEndpoint count.val count.val s.2
  rw [dataOf_of_taken htakes] at hdata
  rw [acceptPage_of_taken hpage hsel htakes]
  generalize s.2.gather flashEndpoint count.val count.val = gathered at *
  obtain ⟨⟨bytes, outcome⟩, q⟩ := gathered
  rcases hlength with ⟨hok, _⟩ | ⟨_, hless⟩
  · cases hok
    obtain ⟨hdrives, hdevice⟩ := drives_program slot g page.val count.val
      ({ s.1 with page := bytes ++ s.1.page.drop bytes.length }, q)
    exact ⟨hreceives.trans ⟨[], hdrives, by simp⟩, hdevice.trans htalks.device_eq⟩
  · exact absurd hdata (Nat.ne_of_lt hless)

/-- A write that is not accepted halts the endpoint last. -/
theorem drives_of_not_accepts {page count : PageNumber} {s : Station (Traced ω)}
    (hpage : s.1.page.length = maxPageLength) (h : ¬Accepts page count s) :
    ∃ as, Drives (as ++ [.stall .flash .toDevice]) s.2.hw
      (acceptPage page.val count.val s).2.hw := by
  cases htakes : s.1.takesData page.val count.val with
  | false =>
    rw [acceptPage_of_refused htakes]
    exact ⟨[], drives_refuse .toDevice s⟩
  | true =>
    obtain ⟨slot, g, hsel, _⟩ := takesData_iff.mp htakes
    have hlength := gather_length flashEndpoint (Nat.le_refl count.val) s.2
    have hreceives := receives_gather flashEndpoint count.val count.val s.2
    rw [Accepts, dataOf_of_taken htakes, not_and] at h
    rw [acceptPage_of_taken hpage hsel htakes]
    generalize s.2.gather flashEndpoint count.val count.val = gathered at *
    obtain ⟨⟨bytes, outcome⟩, q⟩ := gathered
    rcases hlength with ⟨_, hall⟩ | ⟨⟨e, herror⟩, _⟩
    · exact absurd hall (h htakes)
    · cases herror
      obtain ⟨as, hdrives, _⟩ := hreceives
      exact ⟨as, hdrives.trans (drives_refuse .toDevice
        ({ s.1 with page := bytes ++ s.1.page.drop bytes.length }, q))⟩

end Moving

/-! ## Requests -/

section Requests

variable {ω : Type} [Spi.Bus ω] [ResetLine ω] [Controller ω]

theorem accepts_traced {page count : PageNumber} {s : Station ω} :
    Accepts page count (s.1, traced s.2) ↔ Accepts page count s := by
  rw [Accepts, Accepts, dataOf_traced]

/-- A write does not halt the endpoint exactly if it is accepted. -/
theorem alerts_write_iff {page count : PageNumber} {s : Station ω}
    (hpage : s.1.page.length = maxPageLength) :
    Alerts (.write page count) s ↔ ¬Accepts page count s := by
  rw [← accepts_traced]
  constructor
  · intro hstall haccepts
    obtain ⟨⟨as, hdrives, hreceives⟩, _⟩ := haccepts.drives hpage
    have hactions : actionsOf (.write page count) s = as := hdrives.controllerActions_eq
    have hmem : Usb.Action.stall .flash .toDevice ∈ actionsOf (.write page count) s := hstall
    rw [hactions] at hmem
    cases hreceives _ hmem
  · intro hrefused
    obtain ⟨as, hdrives⟩ := drives_of_not_accepts hpage hrefused
    have hactions : actionsOf (.write page count) s = as ++ [.stall .flash .toDevice] :=
      hdrives.controllerActions_eq
    show Usb.Action.stall .flash .toDevice ∈ actionsOf (.write page count) s
    rw [hactions]
    exact List.mem_append_right _ List.mem_cons_self

/-- An accepted write leaves the device as it was. -/
theorem Accepts.device_eq {page count : PageNumber} {s : Station ω}
    (hpage : s.1.page.length = maxPageLength) (h : Accepts page count s) :
    (serve (.write page count) s).2.device = s.2.device := by
  have hdevice := ((accepts_traced.mpr h).drives hpage).2
  have huntraced := serve_untraced (.write page count) (s.1, traced s.2)
  exact (congrArg (fun after => after.2.device) huntraced).trans hdevice

/-- A read of which a byte fails halts the endpoint. -/
theorem alerts_read {page : PageNumber} {s : Station ω} (h : Fails (.read page) s) :
    Alerts (.read page) s := by
  obtain ⟨ts, hissues, hclean | hdrives⟩ := servePage_drives page.val (s.1, traced s.2)
  · have hts : transactionsOf (.read page) s = ts := hissues.transactions_eq
    exact absurd (hts ▸ hclean) h
  · exact hdrives.controllerActions_eq

theorem accepts_of_fails {page count : PageNumber} {s : Station ω} (hs : Reachable s.1)
    (h : Fails (.write page count) s) : Accepts page count s :=
  (hs.serves (.write page count)).data_of_fault h

/-- What becomes of a write whose data is wanted and comes.  Either its page was started by a write
enable and a program that went out whole, and a poll completes there, or a byte failed, nothing
is outstanding, nothing can be verified, and a poll completes at 0. -/
theorem Accepts.outcome {page count : PageNumber} {s : Station ω} (hs : Reachable s.1)
    {slot : Slot} {g : Geometry} (hsel : s.1.selected = some (slot, g))
    (h : Accepts page count s) :
    (¬Fails (.write page count) s ∧
      (transactionsOf (.write page count) s).map Transaction.out =
        [(slot, [0x06]), (slot,
          0x02 :: addressBytes (g.pageAddress page.val) ++ dataOf (.write page count) s)] ∧
      CompletesAt (serve (.write page count) s).1 page.val) ∨
    (Fails (.write page count) s ∧ (serve (.write page count) s).1.written = none ∧
      CompletesAt (serve (.write page count) s).1 0) := by
  obtain ⟨htakes, hdata⟩ := h
  have hserves := hs.serves (.write page count)
  have hafter := (Reachable.served (.write page count) s hs).wellFormed
  have hsel' := hserves.selected_of_write.trans hsel
  rcases hserves.write_outcome hsel htakes hdata with
    ⟨hclean, hout, hjob⟩ | ⟨hfails, hwritten, hjob⟩
  · refine .inl ⟨not_not_intro hclean, hout, ?_⟩
    exact hafter.completesAt hsel' hjob (Job.spent_write _)
  · refine .inr ⟨hfails, hwritten, ?_⟩
    exact hafter.completesAt hsel' hjob Job.spent_idle

/-- If a byte fails on the SPI bus, the outcome of a request that erases, reads, writes or verifies
says so exactly if the request is no write.

A write that does not halt the endpoint leaves the device as it was and is not answered.  If its
write enable and its program went out whole, a poll completes at its page.  If a byte failed, a poll
completes at 0, so only the position, and only of a page that is not page 0, tells the two apart. -/
theorem shown_failures_exact {s : Station ω} (hs : Reachable s.1) {slot : Slot} {g : Geometry}
    (hsel : s.1.selected = some (slot, g)) :
    (∀ r : Request, r.opcode ∈ [Opcode.erase, .read, .write, .verify] → Fails r s →
      (Alerts r s ↔ r.opcode ≠ .write)) ∧
    ∀ page count, ¬Alerts (.write page count) s →
      (dataOf (.write page count) s).length = count.val ∧
      (serve (.write page count) s).2.device = s.2.device ∧
      replyTo (.write page count) s = none ∧
      ((¬Fails (.write page count) s ∧
          (transactionsOf (.write page count) s).map Transaction.out =
            [(slot, [0x06]), (slot,
              0x02 :: addressBytes (g.pageAddress page.val) ++ dataOf (.write page count) s)] ∧
          CompletesAt (serve (.write page count) s).1 page.val) ∨
        (Fails (.write page count) s ∧ (serve (.write page count) s).1.written = none ∧
          CompletesAt (serve (.write page count) s).1 0)) := by
  have hpage := hs.wellFormed.page_length
  refine ⟨fun r hr hfails => ?_, fun page count hquiet => ?_⟩
  · have hserves := hs.serves r
    cases r with
    | erase operation first last =>
      exact iff_of_true (hserves.eraseResponse_of_fault hfails) nofun
    | verify => exact iff_of_true (hserves.verify_of_fault hfails) nofun
    | read page => exact iff_of_true (alerts_read hfails) nofun
    | write page count =>
      refine iff_of_false (fun halerts => ?_) (fun h => h rfl)
      exact (alerts_write_iff hpage).mp halerts (accepts_of_fails hs hfails)
    | deviceCount | listDevice | targetDevice | resetTarget => simp [Request.opcode] at hr
  · have haccepts : Accepts page count s := by
      rw [alerts_write_iff hpage] at hquiet
      exact Classical.not_not.mp hquiet
    exact ⟨haccepts.2, haccepts.device_eq hpage, rfl, haccepts.outcome hs hsel⟩

end Requests

/-! ## On the bench -/

/-- A programmer with an erased part of 1 MiB, and four bytes waiting on the flash endpoint. -/
def fourBytesWaiting : Station Rig :=
  Rig.enumerated ⟨some { id := [0xEF, 0x40, 0x14], size := 0x100000 }, none, none⟩ [[1, 2, 3, 4]]

/-- The part is targeted, and the next byte on its bus will fail. -/
def aboutToFail : Station Rig :=
  let s := serve (.targetDevice 0 0) fourBytesWaiting
  (s.1, { s.2 with hw.spi.failLeft := 1 })

theorem reachable_aboutToFail : Reachable aboutToFail.1 :=
  .served (.targetDevice 0 0) fourBytesWaiting (.start {})

/-- The same fault shows in an erase and does not show in a write. -/
theorem shown_failures_exact_one_byte :
    Fails (.erase .page (.ofNat 0) (.ofNat 0)) aboutToFail ∧
    Alerts (.erase .page (.ofNat 0) (.ofNat 0)) aboutToFail ∧
    Fails (.write (.ofNat 3) (.ofNat 4)) aboutToFail ∧
    ¬Alerts (.write (.ofNat 3) (.ofNat 4)) aboutToFail ∧
    CompletesAt (serve (.write (.ofNat 3) (.ofNat 4)) aboutToFail).1 0 := by
  have herase : Fails (.erase .page (.ofNat 0) (.ofNat 0)) aboutToFail := by decide +kernel
  have hwrite : Fails (.write (.ofNat 3) (.ofNat 4)) aboutToFail := by decide +kernel
  have hsel : aboutToFail.1.selected =
      some (.local1, (Part.sectored 0x40 0x14).geometry ⟨0xEF, 0x40, 0x14⟩) := by
    decide +kernel
  obtain ⟨hshown, hwritten⟩ := shown_failures_exact reachable_aboutToFail hsel
  have hquiet : ¬Alerts (.write (.ofNat 3) (.ofNat 4)) aboutToFail := fun h =>
    (hshown _ (by decide) hwrite).mp h rfl
  refine ⟨herase, (hshown _ (by decide) herase).mpr nofun, hwrite, hquiet, ?_⟩
  obtain ⟨_, _, _, ⟨hclean, _⟩ | ⟨_, _, hcompletes⟩⟩ := hwritten _ _ hquiet
  · exact absurd hwrite hclean
  · exact hcompletes

/-- The write enable of a write fails.  The endpoint is not halted, the memory stays erased, and the
host is told that the write is complete. -/
theorem failed_write_completes :
    Reachable aboutToFail.1 ∧ aboutToFail.1.selected.isSome = true ∧
    Fails (.write (.ofNat 0) (.ofNat 4)) aboutToFail ∧
    ¬Alerts (.write (.ofNat 0) (.ofNat 4)) aboutToFail ∧
    (serveAll [.write (.ofNat 0) (.ofNat 4), .erase .status (.ofNat 0) (.ofNat 0)]
        aboutToFail).1.map Exchange.reply = [none, some (eraseResponse .complete 0)] ∧
    ((serve (.write (.ofNat 0) (.ofNat 4)) aboutToFail).2.hw.spi.chip? .local1).map
        (fun c => c.readRange 0 4) = some [0xFF, 0xFF, 0xFF, 0xFF] := by
  have haccepts : Accepts (.ofNat 0) (.ofNat 4) aboutToFail :=
    ⟨by decide +kernel, by decide +kernel⟩
  refine ⟨reachable_aboutToFail, by decide +kernel, by decide +kernel, ?_, by decide +kernel,
    by decide +kernel⟩
  rw [alerts_write_iff reachable_aboutToFail.wellFormed.page_length]
  exact not_not_intro haccepts

end FlashProgrammer.Programmer

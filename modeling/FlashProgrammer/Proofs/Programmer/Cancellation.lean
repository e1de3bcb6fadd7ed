import FlashProgrammer.Proofs.Programmer.ShownFailures
import FlashProgrammer.Proofs.Programmer.Turns
import FlashProgrammer.Proofs.Usb.BusReset

/-!
# What a bus reset cancels

A bus reset or a pulled cable ends every transfer and drops the queued work.  The programmer
is not told of it.  If an erase or a write is outstanding then, it stays so: the host that
comes back is told of it when it asks for another one, and its status requests start the
blocks that were still to be erased.

`Course s xs x` says that `x` comes after `s` in a run of the firmware in which the
requests `xs` were served.  `cancellation_exact` says for every run after a bus reset or a
pulled cable what is left over of the requests before it.
-/

namespace FlashProgrammer.Usb.Link

variable {ω : Type} [Controller ω]

/-- The next interrupt ends everything on the bus: the cable was pulled, or the bus was reset and
the device is awake. -/
def Severs (p : Link ω) : Prop :=
  p.roused.1.bus.disconnect = true ∨
    (p.roused.2.device.suspended = false ∧ p.roused.1.bus.reset = true)

/-- No work is left and the device has no configuration. -/
theorem Severs.onInterrupt {p : Link ω} (h : p.Severs) :
    p.onInterrupt.device.queue.toList = [] ∧ p.onInterrupt.device.isConfigured = false := by
  rw [onInterrupt_eq]
  cases hdisconnect : p.roused.1.bus.disconnect with
  | true => exact ⟨rfl, rfl⟩
  | false =>
    obtain ⟨hawake, hreset⟩ := h.resolve_left (by rw [hdisconnect]; decide)
    rw [hawake, serviceBus, hreset]
    exact ⟨rfl, rfl⟩

end FlashProgrammer.Usb.Link

namespace FlashProgrammer.Programmer

open Flash Protocol Usb Trace
open Bench (Rig)

/-! ## Runs of the firmware -/

theorem Runs.append {s u t : Programmer} {xs ys : List Exchange} (h : Runs s xs u)
    (h' : Runs u ys t) : Runs s (xs ++ ys) t := by
  induction h with
  | stop s => exact h'
  | serve r s _ ih => exact .serve r s (ih h')

section Running

variable {ω : Type} [Spi.Bus ω] [ResetLine ω] [Controller ω]

/-- The request that is served when the flash endpoint is, if one is. -/
def served (s : Station ω) : List Exchange :=
  match s.2.rxPending flashEndpoint with
  | (false, _) => []
  | (true, link) =>
    match link.readPacket flashEndpoint maxPacket with
    | (.error _, _) => []
    | (.ok frame, link) =>
      match Request.decode frame with
      | .ok r =>
        [⟨r, dataOf r (s.1, link), replyTo r (s.1, link), transactionsOf r (s.1, link)⟩]
      | .error _ => []

/-- A run of the firmware.  On the USB side interrupts come, the device attaches and detaches, and
the hardware does what it likes; the main loop takes work and serves the flash endpoint. -/
inductive Course (s : Station ω) : List Exchange → Station ω → Prop where
  | start : Course s [] s
  | usb {xs : List Exchange} {x : Station ω} (h : Course s xs x) (op : Operation ω) :
      Course s xs (x.1, op.run x.2)
  | service {xs : List Exchange} {x : Station ω} (h : Course s xs x) :
      Course s (xs ++ served x) (service x)

/-- Serving the flash endpoint serves one request or none. -/
theorem runs_service (s : Station ω) : Runs s.1 (served s) (service s).1 := by
  rw [served, service]
  generalize s.2.rxPending flashEndpoint = pending
  obtain ⟨_ | _, p⟩ := pending
  · exact .stop s.1
  · simp only
    generalize p.readPacket flashEndpoint maxPacket = read
    obtain ⟨_ | frame, q⟩ := read
    · exact .stop s.1
    · cases hdecoded : Request.decode frame with
      | error e =>
        simp only [hdecoded]
        exact .stop s.1
      | ok r =>
        simp only [hdecoded]
        exact .serve r (s.1, q) (.stop _)

/-- The programmer takes part in a run by the requests that are served. -/
theorem Course.runs {s x : Station ω} {xs : List Exchange} (h : Course s xs x) :
    Runs s.1 xs x.1 := by
  induction h with
  | start => exact .stop s.1
  | usb _ op ih => exact ih
  | @service xs x _ ih => exact ih.append (runs_service x)

theorem Course.usbAll {s x : Station ω} {xs : List Exchange} (h : Course s xs x)
    (ops : List (Operation ω)) : Course s xs (x.1, Operation.runAll ops x.2) := by
  induction ops generalizing x with
  | nil => exact h
  | cons op ops ih => exact ih (h.usb op)

/-- A turn of the main loop belongs to a run. -/
theorem Course.poll {s x : Station ω} {xs : List Exchange} (h : Course s xs x) :
    ∃ ys, Course s (xs ++ ys) (poll x) := by
  have hturn : TurnInvariant fun x => ∃ ys, Course s (xs ++ ys) x :=
    { takeWork := fun ⟨ys, h⟩ => ⟨ys, h.usb .takeWork⟩
      rxPending := fun ⟨ys, h⟩ => ⟨ys, h.usb (.rxPending flashEndpoint)⟩
      service := fun ⟨_, h⟩ => ⟨_, by simpa only [List.append_assoc] using h.service⟩ }
  exact hturn.poll ⟨[], by rwa [List.append_nil]⟩

end Running

/-! ## Whose work it is -/

/-- A request asks for an operation on the chip. -/
def startsOperation : Request → Bool
  | .erase .status _ _ => false
  | .erase .. => true
  | .write .. => true
  | _ => false

/-- A request for an operation is served, and a chip is modified. -/
def Exchange.Operates (x : Exchange) : Prop :=
  startsOperation x.request = true ∧ ∃ t ∈ x.transactions, t.modifies = true

/-- What modifies a chip is an operation that one of these requests asked for. -/
def OwnWork (xs : List Exchange) : Prop :=
  ∀ pre x post, xs = pre ++ x :: post → (∃ t ∈ x.transactions, t.modifies = true) →
    ∃ y ∈ pre ++ [x], y.Operates

theorem modifies_of_ok {slot : Slot} {i : Instruction} {ts : List Transaction}
    (h : Modifies slot i (.ok ()) ts) : ∃ t ∈ ts, t.modifies = true := by
  obtain ⟨_, t, u, rfl, _, hsent, _⟩ := h.of_fault_none h.clean_of_ok
  refine ⟨t, List.mem_cons_self, ?_⟩
  rw [Transaction.modifies, hsent]
  decide

theorem startsOperation_of_span {operation : EraseOperation} {first last : PageNumber}
    {blocks : Nat × Nat} (h : span? first.val last.val operation = some blocks) :
    startsOperation (.erase operation first last) = true := by
  cases operation with
  | status => cases h
  | all | page | pageRange => rfl

/-- If no block is to follow, only a request for an operation modifies a chip, and nothing else
becomes outstanding but by such a request. -/
theorem Serves.own {s s' : Programmer} {r : Request} {data : List UInt8} {ts : List Transaction}
    {reply : Option Response} (h : Serves s r data ts reply s') (hspent : s.job.Spent) :
    ((∃ t ∈ ts, t.modifies = true) → Exchange.Operates ⟨r, data, reply, ts⟩) ∧
      (Exchange.Operates ⟨r, data, reply, ts⟩ ∨ s'.job = s.job ∨ s'.job = .idle) := by
  -- Requests that only read, and then those that start something or fail to.
  have hreading : ∀ {r data reply} {ts : List Transaction}, (∀ t ∈ ts, t.modifies = false) →
      (∃ t ∈ ts, t.modifies = true) → Exchange.Operates ⟨r, data, reply, ts⟩ := by
    rintro r data reply ts hquiet ⟨t, ht, hmodifies⟩
    rw [hquiet t ht] at hmodifies
    cases hmodifies
  cases h with
  | deviceCount | listedNone _ | eraseUntargeted _ | eraseOutstanding _ _ _
    | eraseOutOfRange _ _ _ _ | readRefused _ | writeRefused _ | writeIncomplete _ _ _ _ _ _
    | verifyNothing _ | resetTarget =>
    exact ⟨hreading (by simp), .inr (.inl rfl)⟩
  | targetedNone _ => exact ⟨hreading (by simp), .inr (.inr rfl)⟩
  | listed _ _ hasks => exact ⟨hreading fun t ht => (hasks t ht).reads, .inr (.inl rfl)⟩
  | targeted _ _ hasks => exact ⟨hreading fun t ht => (hasks t ht).reads, .inr (.inr rfl)⟩
  | readTried _ _ hreads => exact ⟨hreading hreads.reads, .inr (.inl rfl)⟩
  | verifyRead _ _ hreads => exact ⟨hreading hreads.reads, .inr (.inl rfl)⟩
  | verifyUnread _ _ hreads => exact ⟨hreading hreads.reads, .inr (.inl rfl)⟩
  | statusUnread _ hpolls | statusBusy _ hpolls =>
    exact ⟨hreading (by simpa using hpolls.reads), .inr (.inl rfl)⟩
  | statusDone _ hpolls _ => exact ⟨hreading (by simpa using hpolls.reads), .inr (.inr rfl)⟩
  | statusNext _ _ hjob hnext _ => exact absurd (hspent _ _ _ hjob) (Nat.not_lt.mpr hnext)
  | statusNextFailed _ _ hjob hnext _ => exact absurd (hspent _ _ _ hjob) (Nat.not_lt.mpr hnext)
  | eraseStarted _ hspan _ _ _ hmodifies =>
    have hoperates := And.intro (startsOperation_of_span hspan) (modifies_of_ok hmodifies)
    exact ⟨fun _ => hoperates, .inl hoperates⟩
  | eraseFailed _ hspan _ _ _ _ =>
    exact ⟨fun hmodified => ⟨startsOperation_of_span hspan, hmodified⟩, .inr (.inl rfl)⟩
  | writeProgrammed _ _ _ _ _ _ hmodifies =>
    have hmodified := modifies_of_ok hmodifies
    exact ⟨fun _ => ⟨rfl, hmodified⟩, .inl ⟨rfl, hmodified⟩⟩
  | writeFailed _ _ _ _ _ _ _ => exact ⟨fun hmodified => ⟨rfl, hmodified⟩, .inr (.inl rfl)⟩

/-- A run that begins with no block to follow does its own work only, and if it begins with nothing
outstanding, then what is outstanding in the end is its own. -/
theorem Runs.own {s t : Programmer} {xs : List Exchange} (h : Runs s xs t) (hs : Reachable s)
    (hspent : s.job.Spent) :
    OwnWork xs ∧ (s.job = .idle → t.job ≠ .idle → ∃ y ∈ xs, y.Operates) := by
  induction h with
  | stop s =>
    refine ⟨fun pre x post hsplit => ?_, fun hidle hbusy => absurd hidle hbusy⟩
    exact absurd hsplit (by simp)
  | @serve ω _ _ _ xs t r s _ ih =>
    have hserves := hs.serves r
    obtain ⟨hown, hkept⟩ := hserves.own hspent
    -- A request that operates answers for all that follows it.
    by_cases hoperates : Exchange.Operates ⟨r, dataOf r s, replyTo r s, transactionsOf r s⟩
    · refine ⟨fun pre x post hsplit _ => ?_, fun _ _ => ⟨_, List.mem_cons_self, hoperates⟩⟩
      refine ⟨_, ?_, hoperates⟩
      cases pre with
      | nil =>
        cases hsplit
        exact List.mem_cons_self
      | cons y pre =>
        cases hsplit
        exact List.mem_cons_self
    · obtain ⟨hspent', hidle'⟩ : (Programmer.serve r s).1.job.Spent ∧
          (s.1.job = .idle → (Programmer.serve r s).1.job = .idle) := by
        rcases hkept.resolve_left hoperates with hsame | hidle
        · rw [hsame]
          exact ⟨hspent, id⟩
        · rw [hidle]
          exact ⟨Job.spent_idle, fun _ => rfl⟩
      obtain ⟨hrest, hlater⟩ := ih (.served r s hs) hspent'
      refine ⟨fun pre x post hsplit hmodified => ?_, fun hidle hbusy => ?_⟩
      · cases pre with
        | nil =>
          cases hsplit
          exact absurd (hown hmodified) hoperates
        | cons y pre =>
          cases hsplit
          obtain ⟨z, hz, hzoperates⟩ := hrest pre x post rfl hmodified
          exact ⟨z, List.mem_cons_of_mem _ hz, hzoperates⟩
      · obtain ⟨z, hz, hzoperates⟩ := hlater (hidle' hidle) hbusy
        exact ⟨z, List.mem_cons_of_mem _ hz, hzoperates⟩

/-! ## What is held up -/

/-- What is outstanding is on a chip. -/
theorem WellFormed.selected_of_busy {s : Programmer} (h : s.WellFormed) (hbusy : s.job ≠ .idle) :
    s.selected.isSome = true := by
  cases hjob : s.job with
  | idle => exact absurd hjob hbusy
  | erase current next last =>
    obtain ⟨slot, g, hsel, _⟩ := h.erasing _ _ _ hjob
    rw [hsel]
    rfl
  | write page =>
    obtain ⟨slot, g, hsel, _⟩ := h.writing _ hjob
    rw [hsel]
    rfl

/-- A poll finds the chip idle. -/
def Exchange.FindsIdle (x : Exchange) : Prop :=
  x.IsPoll ∧ ∃ p ts, x.transactions = p :: ts ∧ p.fault = none ∧ p.saysBusy = false

/-- The request targets a chip. -/
def Exchange.Targets (x : Exchange) : Prop := ∃ number bus, x.request = .targetDevice number bus

/-- What is outstanding stays so until a poll finds the chip idle or a chip is targeted. -/
theorem Serves.outstanding {s s' : Programmer} {r : Request} {data : List UInt8}
    {ts : List Transaction} {reply : Option Response} (h : Serves s r data ts reply s')
    (hbusy : s.job ≠ .idle) (hunpolled : ¬Exchange.FindsIdle ⟨r, data, reply, ts⟩)
    (hno : ¬Exchange.Targets ⟨r, data, reply, ts⟩) :
    s'.job = s.job := by
  have hfinds : ∀ {first last : PageNumber} {slot : Slot} {t : Transaction}
      {ts : List Transaction} {reply : Option Response} {data : List UInt8},
      Polls slot (.ok false) t →
        Exchange.FindsIdle ⟨.erase .status first last, data, reply, t :: ts⟩ :=
    fun hpolls => ⟨⟨_, _, rfl⟩, _, _, rfl, hpolls.clean_of_ok _ (by simp), hpolls.ok.2.2⟩
  cases h with
  | targetedNone _ => exact absurd ⟨_, _, rfl⟩ hno
  | targeted _ _ _ => exact absurd ⟨_, _, rfl⟩ hno
  | statusDone _ hpolls _ => exact absurd (hfinds hpolls) hunpolled
  | statusNext _ hpolls _ _ _ => exact absurd (hfinds hpolls) hunpolled
  | statusNextFailed _ hpolls _ _ _ => exact absurd (hfinds hpolls) hunpolled
  | eraseStarted _ _ hidle _ _ _ => exact absurd hidle hbusy
  | writeProgrammed _ hidle _ _ _ _ _ => exact absurd hidle hbusy
  | deviceCount | listedNone _ | listed _ _ _ | eraseUntargeted _ | statusUnread _ _
    | statusBusy _ _ | eraseOutstanding _ _ _ | eraseOutOfRange _ _ _ _
    | eraseFailed _ _ _ _ _ _ | readRefused _ | readTried _ _ _ | writeRefused _
    | writeIncomplete _ _ _ _ _ _ | writeFailed _ _ _ _ _ _ _ | verifyNothing _
    | verifyRead _ _ _ | verifyUnread _ _ _ | resetTarget => rfl

/-- While something is outstanding a request for an operation does not reach the chip, and an erase
is told of what is outstanding. -/
theorem Serves.turned_away {s s' : Programmer} {r : Request} {data : List UInt8}
    {ts : List Transaction} {reply : Option Response} (h : Serves s r data ts reply s')
    (hselected : s.selected.isSome = true) (hbusy : s.job ≠ .idle)
    (hr : startsOperation r = true) :
    ts = [] ∧ ∀ operation first last, r = .erase operation first last →
      reply = some (eraseResponse .inProgress s.job.position) := by
  cases h with
  | eraseUntargeted hnone =>
    rw [hnone] at hselected
    cases hselected
  | eraseOutstanding _ _ hactive =>
    refine ⟨rfl, fun _ _ _ _ => ?_⟩
    rw [Job.position, hactive]
    rfl
  | writeRefused _ => exact ⟨rfl, nofun⟩
  | writeIncomplete _ _ _ _ _ _ => exact ⟨rfl, nofun⟩
  | eraseOutOfRange _ _ hidle _ | eraseStarted _ _ hidle _ _ _ | eraseFailed _ _ hidle _ _ _ =>
    exact absurd hidle hbusy
  | writeProgrammed _ hidle _ _ _ _ _ | writeFailed _ hidle _ _ _ _ _ =>
    exact absurd hidle hbusy
  | deviceCount | listedNone _ | listed _ _ _ | targetedNone _ | targeted _ _ _
    | statusUnread _ _ | statusBusy _ _ | statusDone _ _ _ | statusNext _ _ _ _ _
    | statusNextFailed _ _ _ _ _ | readRefused _ | readTried _ _ _ | verifyNothing _
    | verifyRead _ _ _ | verifyUnread _ _ _ | resetTarget => cases hr

theorem Runs.outstanding {s t : Programmer} {xs : List Exchange} (h : Runs s xs t)
    (hs : Reachable s) (hbusy : s.job ≠ .idle)
    (hquiet : ∀ x ∈ xs, ¬x.FindsIdle ∧ ¬x.Targets) : t.job = s.job := by
  induction h with
  | stop s => rfl
  | serve r s _ ih =>
    obtain ⟨hunpolled, hno⟩ := hquiet _ List.mem_cons_self
    have hjob := (hs.serves r).outstanding hbusy hunpolled hno
    have hlater := ih (.served r s hs) (by rwa [hjob])
      fun x hx => hquiet x (List.mem_cons_of_mem _ hx)
    exact hlater.trans hjob

section Holding

variable {ω : Type} [Spi.Bus ω] [ResetLine ω] [Controller ω]

/-- A request is turned away without a word to the chip: an erase is told of an operation at
`position`, and a write halts the endpoint. -/
def HeldUp (position : Nat) (r : Request) (s : Station ω) : Prop :=
  transactionsOf r s = [] ∧
    match r with
    | .erase .. => replyTo r s = some (eraseResponse .inProgress position)
    | _ => Alerts r s

/-- While something is outstanding every request for an operation is held up. -/
theorem heldUp_of_outstanding {s : Station ω} (hs : Reachable s.1)
    (hselected : s.1.selected.isSome = true) (hbusy : s.1.job ≠ .idle) {r : Request}
    (hr : startsOperation r = true) : HeldUp s.1.job.position r s := by
  obtain ⟨hsilent, htold⟩ := (hs.serves r).turned_away hselected hbusy hr
  cases r with
  | erase operation first last => exact ⟨hsilent, htold operation first last rfl⟩
  | write page count =>
    refine ⟨hsilent, (alerts_write_iff hs.wellFormed.page_length).mpr fun haccepts => ?_⟩
    obtain ⟨_, _, _, hidle, _⟩ := takesData_iff.mp haccepts.1
    exact hbusy hidle
  | deviceCount | listDevice | targetDevice | read | verify | resetTarget => cases hr

/-! ## After a bus reset -/

/-- What a bus reset or a pulled cable leaves of the requests before it.

The next interrupt of `s` reports a bus reset or a pulled cable.  After it the device has no work
and is not configured, so that the main loop does nothing.  In every later run all that modifies a
chip was asked for in that run, if no block of an erase was to follow, and if nothing was outstanding,
neither is anything that was not asked for in that run.  But if something was outstanding, every
request for an operation is held up until a poll finds the chip idle or a chip is targeted.  And if
blocks of an erase were to follow, the polls that find the chip idle start them one by one. -/
theorem cancellation_exact {s : Station ω} (hs : Reachable s.1) (hsevers : s.2.Severs) :
    let after : Station ω := (s.1, s.2.onInterrupt)
    (after.2.device.queue.toList = [] ∧ poll after = after) ∧
    (s.1.job.Spent → ∀ xs x, Course after xs x → OwnWork xs) ∧
    (s.1.job = .idle → ∀ xs x, Course after xs x → x.1.job ≠ .idle → ∃ y ∈ xs, y.Operates) ∧
    (s.1.job ≠ .idle → ∀ xs x, Course after xs x → (∀ y ∈ xs, ¬y.FindsIdle ∧ ¬y.Targets) →
      ∀ r, startsOperation r = true → HeldUp s.1.job.position r x) ∧
    ∀ slot g current last, s.1.selected = some (slot, g) →
      g.eraseOpcode ∉ Transaction.readOpcodes → s.1.job = .erase current (current + 1) last →
      ∀ xs x, Course after xs x → (∀ y ∈ xs, ¬y.Targets ∧ Clean y.transactions) →
        Erasing slot g last current xs ∧
        ∃ n, current + n ≤ last ∧
          modifying (wire (untilComplete xs)) =
            (List.range' (current + 1) n).flatMap (eraseOf slot g) ∧
          (xs.any Exchange.completes = true → current + n = last) := by
  intro after
  obtain ⟨hqueue, hunconfigured⟩ := hsevers.onInterrupt
  refine ⟨⟨hqueue, if_neg (by rw [hunconfigured]; decide)⟩, fun hspent xs x hcourse => ?_,
    fun hidle xs x hcourse => ?_, fun hbusy xs x hcourse hquiet r hr => ?_,
    fun slot g current last hsel hopcode hjob xs x hcourse hclean => ?_⟩
  · exact (hcourse.runs.own hs hspent).1
  · have hspent : s.1.job.Spent := by
      rw [hidle]
      exact Job.spent_idle
    exact (hcourse.runs.own hs hspent).2 hidle
  · have hjob : x.1.job = s.1.job := hcourse.runs.outstanding hs hbusy hquiet
    have hreachable := hcourse.runs.reachable hs
    rw [← hjob] at hbusy ⊢
    exact heldUp_of_outstanding hreachable (hreachable.wellFormed.selected_of_busy hbusy) hbusy hr
  · obtain ⟨_, _, _, _, hle, _⟩ := hs.wellFormed.erasing _ _ _ hjob
    have herasing := hcourse.runs.erasing hs hsel hopcode hjob
      (fun y hy number bus hrequest => (hclean y hy).1 ⟨number, bus, hrequest⟩)
      (fun y hy => (hclean y hy).2)
    exact ⟨herasing, herasing.modifying_eq hle⟩

end Holding

/-! ## On the bench -/

/-- A programmer with a part of 1 MiB that holds zeros and erases at once. -/
def fullOfZeros : Station Rig :=
  Rig.enumerated
    ⟨some { id := [0xEF, 0x40, 0x14], size := 0x100000, cells := fun _ => 0, busyTime := 0 }, none,
      none⟩ []

/-- The erase of blocks 1 and 2 was begun with block 1, and now the bus is reset. -/
def resetWhileErasing : Station Rig :=
  let s := serve eraseTwo (serve (.targetDevice 0 0) fullOfZeros)
  (s.1, { s.2 with hw := Bench.Driven.raise { bus := { reset := true } } s.2.hw })

theorem reachable_resetWhileErasing : Reachable resetWhileErasing.1 :=
  .served eraseTwo (serve (.targetDevice 0 0) fullOfZeros)
    (.served (.targetDevice 0 0) fullOfZeros (.start {}))

/-- The device after the reset. -/
def afterReset : Station Rig := (resetWhileErasing.1, resetWhileErasing.2.onInterrupt)

/-- A request without data on endpoint 0, and its closing handshake. -/
def controlRequest (s : Setup) : List (Operation Rig) :=
  [.outside (Bench.Driven.deliver .control s.toBytes), .outside (Bench.Driven.raise { rx := 1 }),
    .interrupt, .outside (Bench.Driven.raise { tx := 1 }), .interrupt]

/-- The host configures the device again and asks how an erase stands. -/
def askedAgain : Station Rig :=
  (afterReset.1, Operation.runAll
    (controlRequest (Bench.addressSetup 6) ++ controlRequest (Bench.configurationSetup 1) ++
      [.outside (Bench.Driven.deliver .flash [0x03, 0x03, 0, 0, 0, 0, 0, 0])]) afterReset.2)

theorem course_askedAgain : Course afterReset [] askedAgain := Course.start.usbAll _

theorem course_served : Course afterReset (served askedAgain) (service askedAgain) := by
  have hcourse := course_askedAgain.service
  rwa [List.nil_append] at hcourse

/-- The host asks only how an erase stands, and no byte fails. -/
theorem served_askedAgain : ∀ y ∈ served askedAgain, ¬y.Targets ∧ Clean y.transactions := by
  have hrequests : (served askedAgain).map Exchange.request =
      [.erase .status (.ofNat 0) (.ofNat 0)] := by
    decide +kernel
  have hclean : ∀ y ∈ served askedAgain, Clean y.transactions := by decide +kernel
  intro y hy
  refine ⟨fun ⟨number, bus, htargets⟩ => ?_, hclean y hy⟩
  have hmem : y.request ∈ (served askedAgain).map Exchange.request := List.mem_map.mpr ⟨y, hy, rfl⟩
  rw [hrequests, htargets] at hmem
  simp at hmem

theorem cancellation_exact_one_block_left :
    resetWhileErasing.2.Severs ∧
    HeldUp 1 (.erase .page (.ofNat 5) (.ofNat 5)) askedAgain ∧
    Erasing .local1 ((Part.sectored 0x40 0x14).geometry ⟨0xEF, 0x40, 0x14⟩) 2 1
      (served askedAgain) := by
  have hsevers : resetWhileErasing.2.Severs := .inr (by decide +kernel)
  have hjob : resetWhileErasing.1.job = .erase 1 2 2 := by decide +kernel
  have hsel : resetWhileErasing.1.selected =
      some (.local1, (Part.sectored 0x40 0x14).geometry ⟨0xEF, 0x40, 0x14⟩) := by
    decide +kernel
  obtain ⟨_, _, _, hheld, hleft⟩ := cancellation_exact reachable_resetWhileErasing hsevers
  refine ⟨hsevers, ?_, ?_⟩
  · have hposition : resetWhileErasing.1.job.position = 1 := by
      rw [hjob]
      rfl
    rw [← hposition]
    exact hheld (by rw [hjob]; nofun) [] askedAgain course_askedAgain (by simp) _ rfl
  · exact (hleft _ _ 1 2 hsel (by decide) hjob _ _ course_served served_askedAgain).1

/-- The host that comes back only asks how an erase stands, and its question erases block 2. -/
theorem question_erases_block :
    resetWhileErasing.2.Severs ∧
    (afterReset.2.hw.spi.chip? .local1).map (fun c => c.read 0x2000) = some 0x00 ∧
    (served askedAgain).map Exchange.request = [.erase .status (.ofNat 0) (.ofNat 0)] ∧
    (served askedAgain).map Exchange.reply = [some (eraseResponse .inProgress 2)] ∧
    modifying (wire (served askedAgain)) =
      [(.local1, [0x06]), (.local1, [0x20, 0x00, 0x20, 0x00])] ∧
    ((poll askedAgain).2.hw.spi.chip? .local1).map (fun c => c.read 0x2000) = some 0xFF := by
  have hsevers : resetWhileErasing.2.Severs := .inr (by decide +kernel)
  refine ⟨hsevers, ?_⟩
  decide +kernel

end FlashProgrammer.Programmer

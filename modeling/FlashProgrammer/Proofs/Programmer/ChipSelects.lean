import FlashProgrammer.Bench.Board
import FlashProgrammer.Proofs.Programmer.Isolation
import FlashProgrammer.Proofs.Programmer.ShownFailures
import FlashProgrammer.Proofs.Programmer.Turns
import FlashProgrammer.Proofs.Spi.Frames
import FlashProgrammer.Proofs.Usb.RoutineActions

/-!
# Chip selects of a whole run

An instruction is a frame on the wires, and a request gives instructions.  So whatever fails on
the SPI block, the log of a run is made of frames, and `Framing` says what that means for the
lines: never are two of them low, and no byte moves but to one chip.

A `WatchedRun` is a run of the programmer behind watched wires, and lists the requests that were
served.  `Orderly` says what the frames of one request are: those of a read, an erase, a write and
a verification go to the target, those of listing and targeting to the slot they name, and nothing
follows a write enable that failed.  Which transactions a request comes to is known from `Serves`,
and `mark` is what a frame and its transaction have in common.
-/

namespace FlashProgrammer.Trace

/-- The chip of a transaction, and whether a byte failed. -/
def Transaction.mark (t : Transaction) : Slot × Bool := (t.slot, t.fault.isSome)

end FlashProgrammer.Trace

namespace FlashProgrammer.Spi

/-- The chip of a frame, and whether a byte failed. -/
def Frame.mark (f : Frame) : Slot × Bool := (f.slot, f.failed.isSome)

/-- A frame on which something was tried began with the opcode of its instruction. -/
theorem Frame.Carries.opcode_eq {f : Frame} {i j : Flash.Instruction} (hi : f.Carries i)
    (hj : f.Carries j) (hfailed : f.failed ≠ none) : i.opcode = j.opcode := by
  obtain ⟨out, hout⟩ := Option.ne_none_iff_exists'.mp hfailed
  obtain ⟨b, bs, htried⟩ : ∃ b bs, f.tried = b :: bs := by
    rw [Frame.tried, hout]
    cases f.moved with
    | nil => exact ⟨out, [], rfl⟩
    | cons m moved => exact ⟨_, _, rfl⟩
  have hhead : ∀ {i : Flash.Instruction}, f.Carries i → b = i.opcode := by
    intro i h
    have hprefix := h.tried_prefix
    rw [htried] at hprefix
    exact (List.cons_prefix_cons.mp hprefix).1
  rw [← hhead hi, ← hhead hj]

variable {ω : Type}

/-- Between two moments the wires carried these frames, and no chip is selected after them. -/
structure FramedBy (frames : List Frame) (w w' : Wired (Watched ω)) : Prop where
  selected : w'.selected = none
  log_eq : w'.wires.log = w.wires.log ++ frames.flatMap Frame.events
  carries : ∀ f ∈ frames, ∃ i, f.Carries i

theorem framedBy_refl {w : Wired (Watched ω)} (hw : w.selected = none) : FramedBy [] w w :=
  ⟨hw, by simp, by simp⟩

theorem FramedBy.trans {fs gs : List Frame} {u v w : Wired (Watched ω)} (huv : FramedBy fs u v)
    (hvw : FramedBy gs v w) : FramedBy (fs ++ gs) u w where
  selected := hvw.selected
  log_eq := by rw [hvw.log_eq, huv.log_eq, List.flatMap_append, List.append_assoc]
  carries := by
    intro f hf
    rcases List.mem_append.mp hf with hf | hf
    · exact huv.carries f hf
    · exact hvw.carries f hf

/-- What is asked of the USB controller is not seen on the wires. -/
theorem framedBy_of_used [Wires ω] [Usb.Controller ω] {w w' : Wired (Watched ω)}
    (hw : w.selected = none) (h : Usb.Used w w') : FramedBy [] w w' := by
  induction h with
  | refl => exact framedBy_refl hw
  | step _ a ih => exact ⟨ih.selected, ih.log_eq, ih.carries⟩

theorem framedBy_execute [Wires ω] (hlines : SteadyLines ω) {w : Wired (Watched ω)}
    (hw : w.selected = none) (slot : Slot) (i : Flash.Instruction) :
    ∃ f : Frame, f.slot = slot ∧ f.Carries i ∧
      (f.failed = none ↔ (Flash.execute slot i w).1.isOk = true) ∧
      FramedBy [f] w (Flash.execute slot i w).2 := by
  obtain ⟨f, hslot, hcarries, hfailed, hselected, hlog⟩ := Flash.execute_frame hlines hw slot i
  exact ⟨f, hslot, hcarries, hfailed, hselected, by simpa using hlog, by simpa using ⟨i, hcarries⟩⟩

end FlashProgrammer.Spi

namespace FlashProgrammer.Flash

open Trace

theorem Carries.fault_eq_none {slot : Slot} {i : Instruction}
    {result : Except Fault (List UInt8)} {t : Transaction} (h : Carries slot i result t) :
    t.fault = none ↔ result.isOk = true := by
  cases h <;> simp [Except.isOk, Except.toBool]

theorem Clean.dropLast_cons {t : Transaction} {ts : List Transaction} (ht : Clean [t])
    (hts : Clean ts.dropLast) : Clean (t :: ts).dropLast := by
  cases ts with
  | nil => exact clean_nil
  | cons u us => exact ht.append hts

theorem Waits.clean_dropLast {slot : Slot} {n : Nat} {result : Except Fault Unit}
    {ts : List Transaction} (h : Waits slot n result ts) : Clean ts.dropLast := by
  induction h with
  | spent | idle _ | failed _ => exact clean_nil
  | busy hpolls _ ih => exact hpolls.clean_of_ok.dropLast_cons ih

theorem ReadsIdle.clean_dropLast {slot : Slot} {polls address length : Nat}
    {result : Except Fault (List UInt8)} {ts : List Transaction}
    (h : ReadsIdle slot polls address length result ts) : Clean ts.dropLast := by
  cases h with
  | read hwaits _ =>
    rw [List.dropLast_concat]
    exact hwaits.clean_of_ok rfl
  | kept hwaits => exact hwaits.clean_dropLast

theorem Modifies.clean_dropLast {slot : Slot} {i : Instruction} {result : Except Fault Unit}
    {ts : List Transaction} (h : Modifies slot i result ts) : Clean ts.dropLast := by
  cases h with
  | kept _ => exact clean_nil
  | @given t u enabled reply henable hok _ =>
    refine Clean.dropLast_cons ?_ clean_nil
    simpa [Clean] using henable.fault_eq_none.mpr hok

end FlashProgrammer.Flash

namespace FlashProgrammer.Programmer

open Flash Protocol Usb Trace Spi

/-! ## The transactions of a request -/

/-- A request that aims at the target stops where a byte fails. -/
theorem Serves.clean_dropLast {s s' : Programmer} {r : Request} {data : List UInt8}
    {ts : List Transaction} {reply : Option Response} (h : Serves s r data ts reply s')
    (haims : Aims r) : Clean ts.dropLast := by
  cases h with
  | deviceCount | listedNone _ | listed _ _ _ | targetedNone _ | targeted _ _ _ | resetTarget =>
    exact haims.elim
  | statusNext _ hpolls _ _ hmodifies | statusNextFailed _ hpolls _ _ hmodifies =>
    exact hpolls.clean_of_ok.dropLast_cons hmodifies.clean_dropLast
  | eraseStarted _ _ _ _ _ hmodifies | eraseFailed _ _ _ _ _ hmodifies
  | writeProgrammed _ _ _ _ _ _ hmodifies | writeFailed _ _ _ _ _ _ hmodifies =>
    exact hmodifies.clean_dropLast
  | readTried _ _ hreads | verifyRead _ _ hreads | verifyUnread _ _ hreads =>
    exact hreads.clean_dropLast
  | _ => exact clean_nil

/-! ## The frames of a request -/

/-- A request, and the chip that was targeted when it came. -/
structure Visit where
  request : Request
  target : Option Slot

/-- The request names a slot. -/
def Visit.Names (v : Visit) (number bus : UInt8) : Prop :=
  v.request = .listDevice number bus ∨ v.request = .targetDevice number bus

/-- The frames of a request go to the chip that it addresses, and nothing follows a write enable
that failed. -/
structure Orderly (v : Visit) (frames : List Frame) : Prop where
  aimed : Aims v.request → ∀ f ∈ frames, v.target = some f.slot
  named : ∀ number bus, v.Names number bus → ∀ f ∈ frames, Slot.find? number bus = some f.slot
  /-- No other request addresses a chip. -/
  none : ¬Aims v.request → (∀ number bus, ¬v.Names number bus) → frames = []
  stopped : ∀ before f after, frames = before ++ f :: after → f.Carries .writeEnable →
    f.failed ≠ Option.none → after = []

theorem orderly_nil (v : Visit) : Orderly v [] where
  aimed := by simp
  named := by simp
  none := fun _ _ => rfl
  stopped := fun before f after h => by simp at h

/-- A request that addresses no chip is no transaction. -/
theorem Serves.transactions_eq_nil {s s' : Programmer} {r : Request} {data : List UInt8}
    {ts : List Transaction} {reply : Option Response} (h : Serves s r data ts reply s')
    (haims : ¬Aims r) (hnames : ∀ number bus, ¬(Visit.mk r s.target).Names number bus) :
    ts = [] := by
  cases h with
  | deviceCount | resetTarget => rfl
  | listedNone _ | listed _ _ _ => exact absurd (.inl rfl) (hnames _ _)
  | targetedNone _ | targeted _ _ _ => exact absurd (.inr rfl) (hnames _ _)
  | _ => exact absurd trivial haims

/-- The frames of a request that names no slot are known from its transactions. -/
theorem Serves.orderly {s s' : Programmer} {r : Request} {data : List UInt8}
    {ts : List Transaction} {reply : Option Response} (h : Serves s r data ts reply s')
    (hnames : ∀ number bus, ¬(Visit.mk r s.target).Names number bus) {frames : List Frame}
    (hmarks : frames.map Frame.mark = ts.map Transaction.mark) :
    Orderly ⟨r, s.target⟩ frames := by
  by_cases haims : Aims r
  · refine ⟨fun _ f hf => ?_, fun number bus hnamed => absurd hnamed (hnames number bus),
      fun hnot => absurd haims hnot, fun before f after hframes _ hfailed => ?_⟩
    · have hmark : f.mark ∈ ts.map Transaction.mark := hmarks ▸ List.mem_map_of_mem hf
      obtain ⟨t, ht, hmark⟩ := List.mem_map.mp hmark
      rw [← show t.slot = f.slot from congrArg Prod.fst hmark]
      exact h.selects_target haims t ht
    · -- A frame that is not the last one did not fail, because its transaction did not.
      refine Classical.byContradiction fun hafter => hfailed ?_
      have hlast : f ∈ frames.dropLast := by
        rw [hframes, List.dropLast_append_of_ne_nil (by simp), List.dropLast_cons_of_ne_nil hafter]
        simp
      have hmark : f.mark ∈ ts.dropLast.map Transaction.mark := by
        rw [List.map_dropLast, ← hmarks, ← List.map_dropLast]
        exact List.mem_map_of_mem hlast
      obtain ⟨t, ht, hmark⟩ := List.mem_map.mp hmark
      have hfault : t.fault.isSome = f.failed.isSome := congrArg Prod.snd hmark
      rw [h.clean_dropLast haims t ht] at hfault
      exact Option.isSome_eq_false_iff.mp hfault.symm |> Option.isNone_iff_eq_none.mp
  · rw [h.transactions_eq_nil haims hnames] at hmarks
    rw [List.map_eq_nil_iff.mp hmarks]
    exact orderly_nil _

/-! ## Serving on watched wires -/

section Serving

variable {ω : Type} [Wires ω] [Controller ω] [ResetLine ω]

omit [Controller ω] [ResetLine ω] in
/-- Instructions of a kind are frames of that kind. -/
theorem framedBy_of_gives (hlines : SteadyLines ω) {kind : Slot → Instruction → Prop}
    {w w' : Wired (Watched ω)} (hw : w.selected = none) (h : Gives kind w w') :
    ∃ frames, FramedBy frames w w' ∧ ∀ f ∈ frames, ∃ i, kind f.slot i ∧ f.Carries i := by
  induction h with
  | refl => exact ⟨[], framedBy_refl hw, by simp⟩
  | @give _ _ slot i hkind ih =>
    obtain ⟨fs, hfs, hkinds⟩ := ih
    obtain ⟨f, rfl, hcarries, _, hf⟩ := framedBy_execute hlines hfs.selected slot i
    refine ⟨fs ++ [f], hfs.trans hf, fun g hg => ?_⟩
    rcases List.mem_append.mp hg with hg | hg
    · exact hkinds g hg
    · rw [List.mem_singleton.mp hg]
      exact ⟨i, hkind, hcarries⟩

omit [Controller ω] [ResetLine ω] in
/-- Identifying a chip is orderly. -/
theorem framedBy_identify (hlines : SteadyLines ω) {w : Wired (Watched ω)}
    (hw : w.selected = none) {number bus : UInt8} {slot : Slot}
    (hslot : Slot.find? number bus = some slot) :
    ∃ frames, FramedBy frames w (identify slot w).2 ∧
      ∀ v : Visit, v.Names number bus → Orderly v frames := by
  obtain ⟨frames, hframed, hkinds⟩ := framedBy_of_gives hlines hw (gives_identify slot w)
  refine ⟨frames, hframed, fun v hnamed => ⟨fun haims => ?_, fun number' bus' hnamed' f hf => ?_,
    fun _ hnames => absurd hnamed (hnames number bus),
    fun before f after hframes hcarries hfailed => ?_⟩⟩
  · rcases hnamed with hr | hr <;>
      · rw [hr] at haims
        cases haims
  · obtain ⟨_, ⟨hf, _⟩, _⟩ := hkinds f hf
    have hsame : number = number' ∧ bus = bus' := by
      rcases hnamed with hr | hr <;> rcases hnamed' with hr' | hr' <;> rw [hr] at hr' <;> cases hr'
      all_goals exact ⟨rfl, rfl⟩
    rw [← hsame.1, ← hsame.2, hslot, hf]
  · -- A write enable has another opcode.
    obtain ⟨i, ⟨_, hi⟩, hcarries'⟩ := hkinds f (by rw [hframes]; simp)
    have hopcode := hcarries.opcode_eq hcarries' hfailed
    rcases hi with rfl | ⟨_, _, rfl⟩
    · exact absurd hopcode (by decide)
    · exact absurd hopcode (show (0x06 : UInt8) ≠ 0x5A by decide)

/-- On traced hardware the frames are those of the transactions. -/
theorem framedBy_of_does (hlines : SteadyLines ω) {w w' : Traced (Wired (Watched ω))}
    (hw : w.hw.selected = none) (h : Does w w') :
    ∃ frames ts, FramedBy frames w.hw w'.hw ∧ Issues ts w w' ∧
      frames.map Frame.mark = ts.map Transaction.mark := by
  induction h with
  | refl => exact ⟨[], [], framedBy_refl hw, issues_refl w, rfl⟩
  | @use v _ a ih =>
    obtain ⟨fs, ts, hframed, hissues, hmarks⟩ := ih
    have hused := framedBy_of_used hframed.selected (used_perform a v.hw)
    refine ⟨fs ++ [], ts, hframed.trans hused, hissues.quiet (issues_of_used (used_perform a v)), ?_⟩
    rw [List.append_nil, hmarks]
  | @drive v _ level ih =>
    obtain ⟨fs, ts, hframed, hissues, hmarks⟩ := ih
    have hquiet : Issues [] v (ResetLine.drive level v).2 :=
      ⟨[.line level (ResetLine.drive level v.hw).1], rfl, fun _ => rfl⟩
    exact ⟨fs, ts, ⟨hframed.selected, hframed.log_eq, hframed.carries⟩, hissues.quiet hquiet, hmarks⟩
  | @execute v _ slot i ih =>
    obtain ⟨fs, ts, hframed, hissues, hmarks⟩ := ih
    obtain ⟨t, hcarries, hissued⟩ := execute_carries slot i v
    obtain ⟨f, hslot, _, hfailed, hf⟩ := framedBy_execute hlines hframed.selected slot i
    have hview : execute slot i v.hw = ((execute slot i v).1, (execute slot i v).2.hw) :=
      execute_view isView_hw slot i v
    rw [hview] at hf hfailed
    have hmark : f.mark = t.mark := by
      have hfault : f.failed = none ↔ t.fault = none := hfailed.trans hcarries.fault_eq_none.symm
      have hsome : f.failed.isSome = t.fault.isSome := by
        rw [Bool.eq_iff_iff, Option.isSome_iff_ne_none, Option.isSome_iff_ne_none, Ne, Ne, hfault]
      rw [Frame.mark, Transaction.mark, hslot, hcarries.slot_eq, hsome]
    refine ⟨fs ++ [f], ts ++ [t], hframed.trans hf, hissues.trans hissued, ?_⟩
    rw [List.map_append, List.map_append, hmarks]
    exact congrArg (_ ++ [·]) hmark

/-- What is done for a request that names no slot is orderly. -/
theorem orderly_of_does (hlines : SteadyLines ω) {w : Wired (Watched ω)} (hw : w.selected = none)
    {w' : Traced (Wired (Watched ω))} (hdoes : Does (.fresh w) w') {s s' : Programmer}
    {r : Request} {data : List UInt8} {ts : List Transaction} {reply : Option Response}
    (hissues : Issues ts (.fresh w) w') (hserves : Serves s r data ts reply s')
    (hnames : ∀ number bus, ¬(Visit.mk r s.target).Names number bus) :
    ∃ frames, FramedBy frames w w'.hw ∧ Orderly ⟨r, s.target⟩ frames := by
  obtain ⟨frames, us, hframed, hissued, hmarks⟩ := framedBy_of_does hlines hw hdoes
  have hsame : us = ts := hissued.transactions_eq.symm.trans hissues.transactions_eq
  rw [hsame] at hmarks
  exact ⟨frames, hframed, hserves.orderly hnames hmarks⟩

/-- Answering a request is orderly. -/
theorem answer_orderly (hlines : SteadyLines ω) (r : Request) (s : Programmer)
    {w : Wired (Watched ω)} (hw : w.selected = none) :
    ∃ frames, FramedBy frames w (s.answer r w).2.2 ∧ Orderly ⟨r, s.target⟩ frames := by
  have hanswer := answer_hw r s (Traced.fresh w)
  have hother : (∀ number bus, ¬(Visit.mk r s.target).Names number bus) →
      (∀ page, r ≠ .read page) → (∀ page count, r ≠ .write page count) →
      ∃ frames, FramedBy frames w (s.answer r w).2.2 ∧ Orderly ⟨r, s.target⟩ frames := by
    intro hnames hread hwrite
    obtain ⟨ts, hserves, hissues⟩ := answer_serves r s (Traced.fresh w) hread hwrite
    have hframed := orderly_of_does hlines hw (does_answer r s (Traced.fresh w)) hissues hserves hnames
    rwa [show (s.answer r (Traced.fresh w)).2.2.hw = (s.answer r w).2.2 from
      (congrArg (fun a => a.2.2) hanswer).symm] at hframed
  have hnamed : ∀ number bus, (Visit.mk r s.target).Names number bus →
      (∀ slot, Slot.find? number bus = some slot → (s.answer r w).2.2 = (identify slot w).2) →
      (Slot.find? number bus = none → (s.answer r w).2.2 = w) →
      ∃ frames, FramedBy frames w (s.answer r w).2.2 ∧ Orderly ⟨r, s.target⟩ frames := by
    intro number bus hnames hsome hnone
    cases hslot : Slot.find? number bus with
    | none =>
      rw [hnone hslot]
      exact ⟨[], framedBy_refl hw, orderly_nil _⟩
    | some slot =>
      obtain ⟨frames, hframed, horderly⟩ := framedBy_identify hlines hw hslot
      rw [hsome slot hslot]
      exact ⟨frames, hframed, horderly _ hnames⟩
  cases r with
  | listDevice number bus =>
    refine hnamed number bus (.inl rfl) (fun slot hslot => ?_) fun hslot => ?_ <;>
      simp only [answer, listDevice, hslot]
  | targetDevice number bus =>
    refine hnamed number bus (.inr rfl) (fun slot hslot => ?_) fun hslot => ?_ <;>
      simp only [answer, targetDevice, hslot]
  | read | write => exact ⟨[], framedBy_refl hw, orderly_nil _⟩
  | deviceCount | erase | verify | resetTarget =>
    refine hother (fun number bus hnames => ?_) (fun _ h => by cases h) fun _ _ h => by cases h
    rcases hnames with h | h <;> cases h

/-- Serving a request is orderly. -/
theorem serve_orderly (hlines : SteadyLines ω) (r : Request) {s : Station (Wired (Watched ω))}
    (hs : Reachable s.1) (hw : s.2.hw.selected = none) :
    ∃ frames, FramedBy frames s.2.hw (serve r s).2.hw ∧ Orderly ⟨r, s.1.target⟩ frames := by
  have hpage : (∀ number bus, ¬(Visit.mk r s.1.target).Names number bus) →
      ∃ frames, FramedBy frames s.2.hw (serve r s).2.hw ∧ Orderly ⟨r, s.1.target⟩ frames := by
    intro hnames
    obtain ⟨ts, hserves, hissues⟩ := serve_serves r (s.1, traced s.2) hs.wellFormed.page_length
    have hframed := orderly_of_does hlines hw (does_serve r (s.1, traced s.2)) hissues hserves hnames
    rwa [show (serve r (s.1, traced s.2)).2.hw.hw = (serve r s).2.hw from
      (congrArg (fun x => x.2.hw) (serve_untraced r (s.1, traced s.2))).symm] at hframed
  have hrespond : ∃ frames, FramedBy frames s.2.hw (respond r s).2.hw ∧
      Orderly ⟨r, s.1.target⟩ frames := by
    obtain ⟨frames, hframed, horderly⟩ := answer_orderly hlines r s.1 hw
    rw [respond]
    generalize s.1.answer r s.2.hw = answered at hframed ⊢
    obtain ⟨_ | response, s', w⟩ := answered
    · exact ⟨frames, hframed, horderly⟩
    · have hsent := framedBy_of_used hframed.selected
        (talks_write flashEndpoint response.encode { s.2 with hw := w }).used
      have hboth := hframed.trans hsent
      rw [List.append_nil] at hboth
      exact ⟨frames, hboth, horderly⟩
  cases r with
  | read | write =>
    refine hpage fun number bus hnames => ?_
    rcases hnames with h | h <;> cases h
  | _ => exact hrespond

/-! ## Runs -/

/-- A run of the programmer behind watched wires, with the requests that were served.  The device
is used, requests are served from the endpoint or handed to the programmer, and what is behind the
wires changes as it likes. -/
inductive WatchedRun : List Visit → Station (Wired (Watched ω)) → Prop where
  | start (budget : WaitBudget) (d : Device) (w : ω) :
      WatchedRun [] ({ budget }, ⟨d, .ofWires (.fresh w)⟩)
  | usb {vs : List Visit} {x : Station (Wired (Watched ω))} (h : WatchedRun vs x)
      (op : Operation (Wired (Watched ω))) (hop : ∀ f, op ≠ .outside f) :
      WatchedRun vs (x.1, op.run x.2)
  | outside {vs : List Visit} {x : Station (Wired (Watched ω))} (h : WatchedRun vs x) (f : ω → ω) :
      WatchedRun vs (x.1, { x.2 with hw.wires.hw := f x.2.hw.wires.hw })
  | serve {vs : List Visit} {x : Station (Wired (Watched ω))} (h : WatchedRun vs x) (r : Request) :
      WatchedRun (vs ++ [⟨r, x.1.target⟩]) (Programmer.serve r x)
  | answer {vs : List Visit} {x : Station (Wired (Watched ω))} (h : WatchedRun vs x) (r : Request) :
      WatchedRun (vs ++ [⟨r, x.1.target⟩])
        ((x.1.answer r x.2.hw).2.1, { x.2 with hw := (x.1.answer r x.2.hw).2.2 })

section Runs

variable {vs : List Visit} {x : Station (Wired (Watched ω))}

theorem serviceInvariant_watched (vs : List Visit) :
    ServiceInvariant fun x : Station (Wired (Watched ω)) => ∃ us, WatchedRun (vs ++ us) x where
  rxPending := fun ⟨us, h⟩ => ⟨us, h.usb (.rxPending flashEndpoint) fun _ h => by cases h⟩
  readPacket := fun ⟨us, h⟩ =>
    ⟨us, h.usb (.readPacket flashEndpoint maxPacket) fun _ h => by cases h⟩
  serve := fun r ⟨us, h⟩ => ⟨_, by simpa only [List.append_assoc] using h.serve r⟩
  refuse := fun ⟨us, h⟩ => ⟨us, h.usb (.stallEndpoint flashEndpoint .toHost) fun _ h => by cases h⟩

/-- A turn of the main loop belongs to a session. -/
theorem WatchedRun.poll (h : WatchedRun vs x) : ∃ us, WatchedRun (vs ++ us) (poll x) := by
  have hturn : TurnInvariant fun x : Station (Wired (Watched ω)) => ∃ us, WatchedRun (vs ++ us) x :=
    (serviceInvariant_watched vs).turn fun ⟨us, h⟩ => ⟨us, h.usb .takeWork fun _ h => by cases h⟩
  exact hturn.poll ⟨[], by rwa [List.append_nil]⟩

theorem WatchedRun.reachable (h : WatchedRun vs x) : Reachable x.1 := by
  induction h with
  | start budget d w => exact .start budget
  | usb _ _ _ ih | outside _ _ ih => exact ih
  | @serve _ x _ r ih => exact .served r x ih
  | answer _ r ih => exact ih.answer r

/-- A request of a run with its frames. -/
abbrev Part := Visit × List Frame

/-- The log of a run is made of the frames of its requests. -/
theorem WatchedRun.parts (hlines : SteadyLines ω) (h : WatchedRun vs x) :
    x.2.hw.selected = none ∧ ∃ parts : List Part, parts.map Prod.fst = vs ∧
      x.2.hw.wires.log = opening ++ (parts.flatMap Prod.snd).flatMap Frame.events ∧
      ∀ part ∈ parts, Orderly part.1 part.2 ∧ ∀ f ∈ part.2, ∃ i, f.Carries i := by
  -- What is served next adds its frames.
  have hstep : ∀ {vs : List Visit} {w w' : Wired (Watched ω)} {parts : List Part} {v : Visit}
      {frames : List Frame}, parts.map Prod.fst = vs →
      w.wires.log = opening ++ (parts.flatMap Prod.snd).flatMap Frame.events →
      (∀ part ∈ parts, Orderly part.1 part.2 ∧ ∀ f ∈ part.2, ∃ i, f.Carries i) →
      FramedBy frames w w' → Orderly v frames →
      w'.selected = none ∧ ∃ parts : List Part, parts.map Prod.fst = vs ++ [v] ∧
        w'.wires.log = opening ++ (parts.flatMap Prod.snd).flatMap Frame.events ∧
        ∀ part ∈ parts, Orderly part.1 part.2 ∧ ∀ f ∈ part.2, ∃ i, f.Carries i := by
    intro vs w w' parts v frames hvs hlog hparts hframed horderly
    refine ⟨hframed.selected, parts ++ [(v, frames)], by simp [hvs], ?_, fun part hpart => ?_⟩
    · rw [hframed.log_eq, hlog]
      simp
    · rcases List.mem_append.mp hpart with hpart | hpart
      · exact hparts part hpart
      · rw [List.mem_singleton.mp hpart]
        exact ⟨horderly, hframed.carries⟩
  induction h with
  | start budget d w =>
    exact ⟨rfl, [], rfl, by simpa using log_ofWires hlines w, by simp⟩
  | @usb vs x _ op hop ih =>
    obtain ⟨hnone, parts, hvs, hlog, hparts⟩ := ih
    have hframed := framedBy_of_used hnone (Operation.used_run hop x.2)
    exact ⟨hframed.selected, parts, hvs, by simpa [hlog] using hframed.log_eq, hparts⟩
  | outside _ f ih => exact ih
  | @serve vs x h r ih =>
    obtain ⟨hnone, parts, hvs, hlog, hparts⟩ := ih
    obtain ⟨frames, hframed, horderly⟩ := serve_orderly hlines r h.reachable hnone
    exact hstep hvs hlog hparts hframed horderly
  | @answer vs x _ r ih =>
    obtain ⟨hnone, parts, hvs, hlog, hparts⟩ := ih
    obtain ⟨frames, hframed, horderly⟩ := answer_orderly hlines r x.1 hnone
    exact hstep hvs hlog hparts hframed horderly

/-- On lines that never fail, whatever fails on the SPI block, chips are only ever selected one at a
time and for one instruction.

What was asked of the wires is cut into frames, one for each instruction, and into the frames of each
request.  At every moment at most one line is low, and while the bytes of a frame move it is the one
of its chip and no other, which is the chip that the request addresses.  Nothing follows a write
enable that failed.  In the end, and so after a turn of the main loop and after a request that was
handed to the programmer, all lines are high. -/
theorem WatchedRun.chip_selects (hlines : SteadyLines ω) (h : WatchedRun vs x) :
    (∃ parts : List Part, parts.map Prod.fst = vs ∧
      Framing x.2.hw.wires.log (parts.flatMap Prod.snd) ∧
      ∀ part ∈ parts, Orderly part.1 part.2) ∧
    Released (Programmer.poll x).2.hw.wires.log ∧
    ∀ r, Released (x.1.answer r x.2.hw).2.2.wires.log := by
  have hframing : ∀ {vs : List Visit} {x : Station (Wired (Watched ω))}, WatchedRun vs x →
      ∃ parts : List Part, parts.map Prod.fst = vs ∧
        Framing x.2.hw.wires.log (parts.flatMap Prod.snd) ∧
        ∀ part ∈ parts, Orderly part.1 part.2 := by
    intro vs x h
    obtain ⟨_, parts, hvs, hlog, hparts⟩ := h.parts hlines
    refine ⟨parts, hvs, framing_of_frames hlog fun f hf => ?_, fun part hpart => (hparts part hpart).1⟩
    obtain ⟨part, hpart, hf⟩ := List.mem_flatMap.mp hf
    exact (hparts part hpart).2 f hf
  refine ⟨hframing h, ?_, fun r => ?_⟩
  · obtain ⟨us, hpolled⟩ := h.poll
    obtain ⟨_, _, hreleased, _⟩ := hframing hpolled
    exact hreleased.released
  · obtain ⟨_, _, hreleased, _⟩ := hframing (h.answer r)
    exact hreleased.released

end Runs

end Serving

/-! ## On the bench -/

/-- The lines of the board never fail. -/
theorem steadyLines_board : SteadyLines Bench.Board := fun _ _ _ => rfl

/-- A board with one part of 1 MiB in the first slot. -/
def watchedBoard : Station (Wired (Watched Bench.Board)) :=
  let chip : Bench.NorFlash := { id := [0xEF, 0x40, 0x14], size := 0x100000, cells := fun _ => 0 }
  let board : Bench.Board :=
    { usb := Rp2040.Adapter.ofMemory (Rp2040.Memory.filled 0)
      bus := { chips := ⟨some chip, none, none⟩ } }
  ({}, ⟨{}, .ofWires (.fresh board)⟩)

/-- The next byte on the SPI block of the board fails. -/
def failNextByte (b : Bench.Board) : Bench.Board := { b with bus.failLeft := 1 }

/-- The part is targeted, and the next byte fails. -/
def failingBoard : Station (Wired (Watched Bench.Board)) :=
  let s := serve (.targetDevice 0 0) watchedBoard
  (s.1, { s.2 with hw.wires.hw := failNextByte s.2.hw.wires.hw })

/-- The board after an erase whose first byte fails. -/
def failedErase : Station (Wired (Watched Bench.Board)) :=
  serve (.erase .all (.ofNat 0) (.ofNat 0)) failingBoard

/-- The write enable of the erase fails, the chip is released, and nothing follows. -/
theorem chip_selects_failed_erase :
    SteadyLines Bench.Board ∧
    (failedErase.2.hw.wires.log.map WireEvent.action).drop 10 =
      [.drive .local1 .low, .exchange 0x06, .flush, .drive .local1 .high] ∧
    Released failedErase.2.hw.wires.log := by
  have hstart : WatchedRun [] watchedBoard := .start {} {} _
  have hfailing : WatchedRun _ failingBoard := (hstart.serve (.targetDevice 0 0)).outside failNextByte
  have hrun : WatchedRun _ failedErase := hfailing.serve (.erase .all (.ofNat 0) (.ofNat 0))
  obtain ⟨⟨_, _, hframing, _⟩, _⟩ := hrun.chip_selects steadyLines_board
  exact ⟨steadyLines_board, by decide +kernel, hframing.released⟩

end FlashProgrammer.Programmer

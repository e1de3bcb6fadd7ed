import FlashProgrammer.Bench.Rig
import FlashProgrammer.Proofs.Bench.ChipAnswers
import FlashProgrammer.Proofs.Programmer.Doing
import FlashProgrammer.Proofs.Programmer.Serving

/-!
# What the chips hear

Chips on a bench hear exactly what is said on the bus.  `Shows f` is all that is asked
of hardware: `f` shows its chips, a byte that succeeds reaches the selected one, and a
byte that fails reaches none.  It may fail whenever it likes.

`Plays chips ts chips'` says that the transactions `ts` bring the chips from one state
to another, and that what came in is what the chips answered.  `Shows.serve` says so of
the transactions of every request, so what a request does to the memory of a chip can
be read off its transactions.
-/

namespace FlashProgrammer.Bench

open Flash

/-! ## One chip -/

/-- A transaction with some bytes. -/
def Transaction.ofBytes (bs : List UInt8) : Transaction := bs.foldl Transaction.push .empty

@[simp] theorem Transaction.toList_ofBytes (bs : List UInt8) : (ofBytes bs).toList = bs := by
  have key : ∀ (bs : List UInt8) (t : Transaction),
      (bs.foldl Transaction.push t).toList = t.toList ++ bs := by
    intro bs
    induction bs with
    | nil => simp
    | cons b bs ih => simp [ih]
  simpa [ofBytes] using key bs .empty

namespace NorFlash

/-- A chip sees nothing of a transaction but its bytes. -/
theorem respond_ofBytes (c : NorFlash) (t : Transaction) :
    c.respond t = c.respond (.ofBytes t.toList) := by
  have hlength : t.length = (Transaction.ofBytes t.toList).length := by
    rw [← t.length_toList, ← Transaction.length_toList, Transaction.toList_ofBytes]
  have hhead : t.head = (Transaction.ofBytes t.toList).head := by
    rw [← t.take_toList, ← Transaction.take_toList, Transaction.toList_ofBytes]
  simp only [respond, hlength, hhead]

/-- A chip after more bytes of a transaction, with its answers. -/
def hear (c : NorFlash) (before : List UInt8) : List UInt8 → List UInt8 × NorFlash
  | [] => ([], c)
  | b :: bs =>
    let (answer, c) := c.respond (.ofBytes (before ++ [b]))
    let (answers, c) := c.hear (before ++ [b]) bs
    (answer :: answers, c)

/-- What a chip answers to the bytes of a transaction. -/
def answers (c : NorFlash) (sent : List UInt8) : List UInt8 := (c.hear [] sent).1

/-- A chip after a whole transaction. -/
def told (c : NorFlash) (sent : List UInt8) : NorFlash := (c.hear [] sent).2.finish sent

theorem head_ofBytes (opcode : UInt8) (rest : List UInt8) :
    (Transaction.ofBytes (opcode :: rest)).head.head? = some opcode := by
  rw [← Transaction.take_toList, Transaction.toList_ofBytes]
  rfl

/-- Until its transaction ends, only reading the status changes a chip. -/
theorem hear_snd {opcode : UInt8} (hopcode : opcode ≠ 0x05) (c : NorFlash)
    (before bs : List UInt8) : (c.hear (opcode :: before) bs).2 = c := by
  induction bs generalizing before with
  | nil => rfl
  | cons b bs ih =>
    have hquiet : (c.respond (.ofBytes (opcode :: before ++ [b]))).2 = c :=
      respond_snd (by simpa [head_ofBytes] using hopcode)
    show ((c.respond _).2.hear (opcode :: (before ++ [b])) bs).2 = c
    rw [hquiet]
    exact ih (before ++ [b])

theorem respond_first (c : NorFlash) (b : UInt8) : c.respond (.ofBytes [b]) = (0xFF, c) := by
  have hlength : (Transaction.ofBytes [b]).length = 1 := by
    rw [← Transaction.length_toList, Transaction.toList_ofBytes]
    rfl
  simp [respond, hlength]

/-- Bytes past the status change nothing. -/
theorem hear_status (c : NorFlash) (b b' : UInt8) (before bs : List UInt8) :
    (c.hear (0x05 :: b :: b' :: before) bs).2 = c ∧
      (c.hear [0x05, b] bs).2 = c := by
  have hlater : ∀ (tail : List UInt8), 2 ≤ tail.length →
      (c.respond (.ofBytes (0x05 :: tail))).2 = c := by
    intro tail htail
    have hlength : (Transaction.ofBytes (0x05 :: tail)).length - 1 = tail.length := by
      rw [← Transaction.length_toList, Transaction.toList_ofBytes]
      rfl
    have hzero : tail.length ≠ 0 := by omega
    have hone : tail.length ≠ 1 := by omega
    simp [respond, hlength, head_ofBytes, hzero, hone]
  have key : ∀ (bs tail : List UInt8), 1 ≤ tail.length → (c.hear (0x05 :: tail) bs).2 = c := by
    intro bs
    induction bs with
    | nil => exact fun _ _ => rfl
    | cons b bs ih =>
      intro tail htail
      have hquiet := hlater (tail ++ [b]) (by simpa using htail)
      show ((c.respond (.ofBytes (0x05 :: (tail ++ [b])))).2.hear (0x05 :: (tail ++ [b])) bs).2 = c
      rw [hquiet]
      exact ih (tail ++ [b]) (by simp)
  exact ⟨key bs _ (by simp), key bs _ (by simp)⟩

/-- What a whole transaction does to a chip.  Reading the status brings its work on by one, and
everything else takes effect at the end. -/
theorem told_eq (c : NorFlash) (sent : List UInt8) :
    c.told sent =
      if sent.head? = some 0x05 then
        if 2 ≤ sent.length then { c with busy := c.busy - 1 } else c
      else c.finish sent := by
  cases sent with
  | nil => rfl
  | cons opcode rest =>
    rw [told]
    have hfirst : (c.hear [] (opcode :: rest)).2 = (c.hear [opcode] rest).2 := by
      show ((c.respond (.ofBytes [opcode])).2.hear [opcode] rest).2 = _
      rw [respond_first]
    rw [hfirst]
    simp only [List.head?_cons, Option.some.injEq]
    by_cases hstatus : opcode = 0x05
    · subst hstatus
      rw [if_pos rfl, finish_read _ rest (by decide)]
      cases rest with
      | nil => rfl
      | cons b rest =>
        rw [if_pos (by simp)]
        show ((c.respond (.ofBytes [0x05, b])).2.hear [0x05, b] rest).2 = _
        rw [respond_status (Transaction.toList_ofBytes _)]
        exact (hear_status _ b b [] rest).2
    · rw [if_neg hstatus, hear_snd hstatus]

/-- A status read is answered with the status. -/
theorem answers_status (c : NorFlash) (b : UInt8) : c.answers [0x05, b] = [0xFF, c.status] := by
  rw [answers, hear, List.nil_append, respond_first]
  simp only
  rw [hear, List.singleton_append, respond_status (Transaction.toList_ofBytes _)]
  rfl

end NorFlash

/-! ## Chips on a bus -/

/-- The chips of a bench. -/
abbrev Chips := PerSlot (Option NorFlash)

/-- Chips that listen: the selected slot, and what it was sent since. -/
structure Listening where
  chips : Chips
  selected : Option Slot
  sent : List UInt8

namespace Listening

/-- A byte that reaches the selected chip. -/
def deliver (out : UInt8) (x : Listening) : UInt8 × Listening :=
  match x.selected with
  | none => (0xFF, x)
  | some slot =>
    match x.chips.get slot with
    | none => (0xFF, { x with sent := x.sent ++ [out] })
    | some c =>
      let (answer, c) := c.respond (.ofBytes (x.sent ++ [out]))
      (answer, { x with chips := x.chips.set slot (some c), sent := x.sent ++ [out] })

/-- The end of the transaction. -/
def release (x : Listening) : Listening :=
  match x.selected with
  | none => x
  | some slot => ⟨x.chips.set slot ((x.chips.get slot).map fun c => c.finish x.sent), none, []⟩

/-- Bytes that reach the selected chip, with the answers. -/
def deliverAll : List UInt8 → Listening → List UInt8 × Listening
  | [], x => ([], x)
  | b :: bs, x =>
    let (answer, x) := x.deliver b
    let (answers, x) := deliverAll bs x
    (answer :: answers, x)

theorem deliverAll_append (bs bs' : List UInt8) (x : Listening) :
    deliverAll (bs ++ bs') x =
      ((deliverAll bs x).1 ++ (deliverAll bs' (deliverAll bs x).2).1,
        (deliverAll bs' (deliverAll bs x).2).2) := by
  induction bs generalizing x with
  | nil => rfl
  | cons b bs ih => simp only [List.cons_append, deliverAll, ih]

/-- Nothing but the selected chip hears the bytes. -/
theorem deliverAll_of_selected {slot : Slot} (bs : List UInt8) (x : Listening)
    (hselected : x.selected = some slot) :
    (deliverAll bs x).2.selected = some slot ∧
    (∀ slot', slot' ≠ slot → (deliverAll bs x).2.chips.get slot' = x.chips.get slot') ∧
    (deliverAll bs x).2.sent = x.sent ++ bs ∧
    (∀ c, x.chips.get slot = some c →
      (deliverAll bs x).1 = (c.hear x.sent bs).1 ∧
      (deliverAll bs x).2.chips.get slot = some (c.hear x.sent bs).2) ∧
    (x.chips.get slot = none → (deliverAll bs x).2.chips.get slot = none) := by
  induction bs generalizing x with
  | nil =>
    refine ⟨hselected, fun _ _ => rfl, (List.append_nil _).symm, ?_, id⟩
    exact fun c hc => ⟨rfl, hc⟩
  | cons b bs ih =>
    cases hchip : x.chips.get slot with
    | none =>
      have hdelivered : x.deliver b = (0xFF, { x with sent := x.sent ++ [b] }) := by
        simp only [deliver, hselected, hchip]
      obtain ⟨hsel, hother, hsent, _, hnone⟩ := ih { x with sent := x.sent ++ [b] } hselected
      rw [deliverAll, hdelivered]
      refine ⟨hsel, hother, ?_, nofun, fun _ => hnone hchip⟩
      simpa using hsent
    | some c =>
      have hdelivered : x.deliver b = ((c.respond (.ofBytes (x.sent ++ [b]))).1,
          { x with
            chips := x.chips.set slot (some (c.respond (.ofBytes (x.sent ++ [b]))).2)
            sent := x.sent ++ [b] }) := by
        simp only [deliver, hselected, hchip]
      obtain ⟨hsel, hother, hsent, hheard, _⟩ :=
        ih (x.deliver b).2 (by rw [hdelivered]; exact hselected)
      rw [hdelivered] at hsel hother hsent hheard
      rw [deliverAll, hdelivered]
      refine ⟨hsel, ?_, by simpa using hsent, ?_, nofun⟩
      · intro slot' hne
        rw [hother slot' hne, PerSlot.get_set, if_neg (Ne.symm hne)]
      · intro c' hc'
        cases hc'
        obtain ⟨hanswers, hafter⟩ := hheard _ (by rw [PerSlot.get_set, if_pos rfl])
        exact ⟨congrArg (_ :: ·) hanswers, hafter⟩

end Listening

/-- The chips of a bus, as they listen. -/
def FlashBus.listening (b : FlashBus) : Listening := ⟨b.chips, b.selected, b.current.toList⟩

theorem FlashBus.listening_deliver (out : UInt8) (b : FlashBus) :
    b.listening.deliver out = ((b.deliver out).1, (b.deliver out).2.listening) := by
  have hsent : (b.current.push out).toList = b.current.toList ++ [out] :=
    Transaction.toList_push ..
  cases hselected : b.selected with
  | none => simp only [deliver, Listening.deliver, listening, hselected]
  | some slot =>
    cases hchip : b.chips.get slot with
    | none => simp only [deliver, Listening.deliver, listening, hselected, chip?, hchip, hsent]
    | some c =>
      have hrespond := NorFlash.respond_ofBytes c (b.current.push out)
      rw [hsent] at hrespond
      simp only [deliver, Listening.deliver, listening, hselected, chip?, hchip, hsent, hrespond,
        setChip]

/-! ## Hardware with chips -/

open Trace

variable {ω : Type} [Spi.Bus ω] [ResetLine ω] [Usb.Controller ω]

/-- Hardware shows its chips.  What succeeds on its bus reaches the selected chip, what fails
reaches none, and nothing else touches them. -/
structure Shows (f : ω → Listening) : Prop where
  select : ∀ slot w, f (Spi.select slot w) = ⟨(f w).chips, some slot, []⟩
  release : ∀ w, f (Spi.deselect w) = (f w).release
  delivered : ∀ out w b w', Spi.exchange out w = (.ok b, w') → (f w).deliver out = (b, f w')
  lost : ∀ out w e w', Spi.exchange out w = (.error e, w') → f w' = f w
  used : ∀ a w, f (Usb.Controller.perform a w).2 = f w
  driven : ∀ level w, f (ResetLine.drive level w).2 = f w

theorem shows_listening {κ ρ : Type} [Usb.Controller κ] [ResetLine ρ] :
    Shows fun w : Hardware κ FlashBus ρ => w.spi.listening where
  select _ _ := rfl
  release w := by
    show (w.spi.deselect).listening = w.spi.listening.release
    rw [FlashBus.deselect, FlashBus.open?, Listening.release]
    show _ = match w.spi.selected with | none => _ | some slot => _
    cases w.spi.selected <;> rfl
  delivered out w b w' h := by
    have hmoved : w.spi.exchange out = (.ok b, w'.spi) := by
      have hb : (w.spi.exchange out).1 = .ok b := congrArg Prod.fst h
      have hw : (w.spi.exchange out).2 = w'.spi := congrArg (fun r => r.2.spi) h
      rw [← hb, ← hw]
    show w.spi.listening.deliver out = (b, w'.spi.listening)
    rw [FlashBus.exchange] at hmoved
    simp only at hmoved
    split at hmoved
    · cases hmoved
    · have hcounted := FlashBus.listening_deliver out
        { w.spi with transfers := w.spi.transfers + 1, okLeft := w.spi.okLeft - 1 }
      obtain ⟨hb, hw⟩ := Prod.mk.inj hmoved
      rw [← hw, ← Except.ok.inj hb]
      exact hcounted
  lost out w e w' h := by
    have hmoved : w.spi.exchange out = (.error e, w'.spi) := by
      have he : (w.spi.exchange out).1 = .error e := congrArg Prod.fst h
      have hw : (w.spi.exchange out).2 = w'.spi := congrArg (fun r => r.2.spi) h
      rw [← he, ← hw]
    show w'.spi.listening = w.spi.listening
    rw [FlashBus.exchange] at hmoved
    simp only at hmoved
    split at hmoved
    · rw [← (Prod.mk.inj hmoved).2]
      rfl
    · cases hmoved
  used _ _ := rfl
  driven _ _ := rfl

/-- Bytes went out, and the selected chip heard and answered them. -/
def Heard (f : ω → Listening) (fault : Option Fault) (w w' : Traced ω) : Prop :=
  ∃ out into, Moves out into fault w w' ∧ (f w.hw).deliverAll out = (into, f w'.hw)

section Hearing

variable {f : ω → Listening}

/-- The chips hear the bytes that go out, and what comes in are their answers. -/
theorem Shows.tracks (hf : Shows f) :
    Spi.Tracks fun moves (w w' : Traced ω) => Adds (moves.map moveEvent) w w' ∧
      (f w.hw).deliverAll (Spi.movedOut moves) = (Spi.movedIn moves, f w'.hw) where
  nil w := ⟨adds_refl w, rfl⟩
  exchange out w := by
    refine ⟨tracks_adds.exchange out w, ?_⟩
    have hview := exchange_view isView_hw out w
    generalize Spi.exchange out w = moved at hview ⊢
    obtain ⟨e | b, w'⟩ := moved
    · exact congrArg (([], ·)) (hf.lost out w.hw e w'.hw hview).symm
    · show (f w.hw).deliverAll [out] = ([b], f w'.hw)
      rw [Listening.deliverAll, hf.delivered out w.hw b w'.hw hview]
      rfl
  append := by
    rintro moves moves' u v w ⟨hadds, hheard⟩ ⟨hadds', hheard'⟩
    refine ⟨tracks_adds.append hadds hadds', ?_⟩
    rw [Spi.movedOut_append, Spi.movedIn_append, Listening.deliverAll_append, hheard, hheard']

theorem Shows.clock (hf : Shows f) (i : Instruction) (w : Traced ω) :
    ∃ fault, Heard f fault w (Flash.clock i w).2 := by
  obtain ⟨_, _, _, _, hadds, hheard⟩ := tracks_clock hf.tracks i w
  exact ⟨_, _, _, moves_of_adds hadds, hheard⟩

end Hearing

/-! ## Transactions -/

/-- What the chips answer to a transaction, and the chips after it. -/
def hear (chips : Chips) (t : Trace.Transaction) : List UInt8 × Chips :=
  let (answers, x) := Listening.deliverAll t.sent ⟨chips, some t.slot, []⟩
  (answers, x.release.chips)

/-- The chip of a transaction is told it, and the others do not hear it. -/
theorem get_hear (chips : Chips) (t : Trace.Transaction) (slot : Slot) :
    (hear chips t).2.get slot =
      (chips.get slot).map fun c => if slot = t.slot then c.told t.sent else c := by
  obtain ⟨hselected, hother, hsent, hheard, hnone⟩ := Listening.deliverAll_of_selected t.sent
    ⟨chips, some t.slot, []⟩ rfl
  show (Listening.deliverAll t.sent ⟨chips, some t.slot, []⟩).2.release.chips.get slot = _
  rw [Listening.release, hselected]
  simp only [PerSlot.get_set, hsent]
  by_cases hslot : slot = t.slot
  · subst hslot
    rw [if_pos rfl]
    cases hchip : chips.get t.slot with
    | none =>
      rw [hnone hchip]
      rfl
    | some c =>
      rw [(hheard c hchip).2, Option.map_some, Option.map_some, if_pos rfl]
      rfl
  · rw [if_neg (Ne.symm hslot), hother slot hslot]
    simp only [if_neg hslot, Option.map_id']

/-- The chip of a transaction answers it. -/
theorem hear_answers {chips : Chips} {t : Trace.Transaction} {c : NorFlash}
    (h : chips.get t.slot = some c) : (hear chips t).1 = c.answers t.sent := by
  obtain ⟨_, _, _, hheard, _⟩ := Listening.deliverAll_of_selected t.sent
    ⟨chips, some t.slot, []⟩ rfl
  exact (hheard c h).1

/-- Transactions bring the chips from one state to another, and what came in is what they
answered. -/
inductive Plays : Chips → List Trace.Transaction → Chips → Prop where
  | stop (chips : Chips) : Plays chips [] chips
  | hear {chips chips' : Chips} {t : Trace.Transaction} {ts : List Trace.Transaction}
      (hreceived : t.received = (hear chips t).1) (h : Plays (hear chips t).2 ts chips') :
      Plays chips (t :: ts) chips'

theorem Plays.append {chips chips' chips'' : Chips} {ts us : List Trace.Transaction}
    (h : Plays chips ts chips') (h' : Plays chips' us chips'') :
    Plays chips (ts ++ us) chips'' := by
  induction h with
  | stop chips => exact h'
  | hear hreceived _ ih => exact .hear hreceived (ih h')

theorem Plays.eq_foldl {chips chips' : Chips} {ts : List Trace.Transaction}
    (h : Plays chips ts chips') :
    chips' = ts.foldl (fun chips t => (Bench.hear chips t).2) chips := by
  induction h with
  | stop chips => rfl
  | hear _ _ ih => exact ih

section Serving

variable {f : ω → Listening}

/-- An instruction is one transaction that the chips hear. -/
theorem Shows.execute (hf : Shows f) (slot : Slot) (i : Instruction) (w : Traced ω) :
    ∃ t, Issues [t] w (execute slot i w).2 ∧
      Plays (f w.hw).chips [t] (f (execute slot i w).2.hw).chips := by
  obtain ⟨fault, out, into, hmoves, hheard⟩ := hf.clock i (Spi.select slot w)
  refine ⟨⟨slot, out, into, fault⟩, issues_of_moves hmoves, ?_⟩
  rw [show (Spi.select slot w).hw = Spi.select slot w.hw from rfl, hf.select] at hheard
  have hafter : f (Flash.execute slot i w).2.hw =
      (f (Flash.clock i (Spi.select slot w)).2.hw).release :=
    hf.release _
  rw [hafter]
  have hhear : hear (f w.hw).chips ⟨slot, out, into, fault⟩ =
      (into, (f (Flash.clock i (Spi.select slot w)).2.hw).release.chips) := by
    rw [hear, hheard]
  have hplays : Plays (f w.hw).chips [⟨slot, out, into, fault⟩]
      (hear (f w.hw).chips ⟨slot, out, into, fault⟩).2 :=
    .hear (by rw [hhear]) (.stop _)
  rwa [hhear] at hplays

theorem Shows.does (hf : Shows f) {w w' : Traced ω} (h : Programmer.Does w w') :
    ∃ ts, Issues ts w w' ∧ Plays (f w.hw).chips ts (f w'.hw).chips := by
  induction h with
  | refl => exact ⟨[], issues_refl w, .stop _⟩
  | @use v _ a ih =>
    obtain ⟨ts, hissues, hplays⟩ := ih
    refine ⟨ts, hissues.quiet (issues_of_used (Usb.used_perform a v)), ?_⟩
    rw [show (Usb.Controller.perform a v).2.hw = (Usb.Controller.perform a v.hw).2 from rfl,
      hf.used]
    exact hplays
  | @drive v _ level ih =>
    obtain ⟨ts, hissues, hplays⟩ := ih
    refine ⟨ts, hissues.quiet ⟨[.line level (ResetLine.drive level v.hw).1], rfl, fun _ => rfl⟩, ?_⟩
    rw [show (ResetLine.drive level v).2.hw = (ResetLine.drive level v.hw).2 from rfl, hf.driven]
    exact hplays
  | @execute v _ slot i ih =>
    obtain ⟨ts, hissues, hplays⟩ := ih
    obtain ⟨t, hissue, hplay⟩ := hf.execute slot i v
    exact ⟨ts ++ [t], hissues.trans hissue, hplays.append hplay⟩

open Protocol in
/-- The chips hear the transactions of a request. -/
theorem Shows.serve (hf : Shows f) (r : Request) (s : Programmer.Station ω) :
    Plays (f s.2.hw).chips (Programmer.transactionsOf r s)
      (f (Programmer.serve r s).2.hw).chips := by
  obtain ⟨ts, hissues, hplays⟩ := hf.does (Programmer.does_serve r (s.1, traced s.2))
  have huntraced : (Programmer.serve r (s.1, traced s.2)).2.hw.hw = (Programmer.serve r s).2.hw :=
    congrArg (fun s => s.2.hw) (serve_untraced r (s.1, traced s.2)).symm
  rw [huntraced] at hplays
  rw [Programmer.transactionsOf, hissues.transactions_eq]
  exact hplays

end Serving

end FlashProgrammer.Bench

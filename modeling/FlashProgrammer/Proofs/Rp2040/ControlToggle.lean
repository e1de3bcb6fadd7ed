import FlashProgrammer.Proofs.Rp2040.SharedBuffers
import FlashProgrammer.Proofs.Usb.ClearedHalts

/-!
# The alternation on endpoint 0

The data packets of a transfer alternate between DATA0 and DATA1, so the host notices a lost one.  A
control transfer starts at DATA1 in both directions.

`turns` lists what a run does to the alternation of endpoint 0 in one direction.  `InTurn restarts`
says that each buffer that was armed holds the packet that was due, where `restarts` tells whether
the alternation starts again at DATA0 when the host clears the halt of endpoint 0.  It ought to go
on: the handshake of the request that clears the halt is itself the first packet after a SETUP
packet, and DATA1 is due then.  `control_toggle_exact` says of all runs that the adapter does start
it again, and that the buffers are right exactly if none is armed after it did so in the wrong
place.
-/

namespace FlashProgrammer.Rp2040

open Usb Programmer

/-! ## Turns -/

/-- Something that concerns the alternation of endpoint 0 in one direction. -/
inductive Turn where
  /-- A SETUP packet begins a control transfer. -/
  | setup
  /-- The endpoint is configured, which a bus reset does.  No packet is due before the next SETUP.
  -/
  | reset
  /-- The halt of the endpoint is cleared. -/
  | cleared
  /-- A buffer is handed over that holds DATA1 if `second`, and else DATA0. -/
  | armed (second : Bool)
deriving DecidableEq, Repr

namespace Turn

/-- The packet that is due afterwards, if any is. -/
def next (restarts : Bool) (due : Option Bool) : Turn → Option Bool
  | setup => some true
  | reset => none
  | cleared => if restarts then due.map fun _ => false else due
  | armed _ => due.map fun second => !second

/-- A buffer that is armed holds the packet that is due. -/
def Fits (due : Option Bool) : Turn → Prop
  | armed second => due = none ∨ due = some second
  | _ => True

instance (due : Option Bool) : (t : Turn) → Decidable (t.Fits due)
  | armed second => inferInstanceAs (Decidable (due = none ∨ due = some second))
  | setup | reset | cleared => inferInstanceAs (Decidable True)

end Turn

/-- Each buffer that is armed holds the packet that is due then. -/
def InTurn (restarts : Bool) : Option Bool → List Turn → Prop
  | _, [] => True
  | due, t :: ts => t.Fits due ∧ InTurn restarts (t.next restarts due) ts

instance decidableInTurn (restarts : Bool) :
    (due : Option Bool) → (ts : List Turn) → Decidable (InTurn restarts due ts)
  | _, [] => inferInstanceAs (Decidable True)
  | due, t :: ts =>
    have := decidableInTurn restarts (t.next restarts due) ts
    inferInstanceAs (Decidable (t.Fits due ∧ InTurn restarts (t.next restarts due) ts))

/-- The packet that is due in the end. -/
def dueAfter (restarts : Bool) (due : Option Bool) (ts : List Turn) : Option Bool :=
  ts.foldl (Turn.next restarts) due

theorem inTurn_append {restarts : Bool} {due : Option Bool} {ts us : List Turn} :
    InTurn restarts due (ts ++ us) ↔
      InTurn restarts due ts ∧ InTurn restarts (dueAfter restarts due ts) us := by
  induction ts generalizing due with
  | nil => simp [InTurn, dueAfter]
  | cons t ts ih => simp [InTurn, dueAfter, ih, and_assoc]

/-- A buffer is armed before the next SETUP packet and the next reset. -/
def ArmsNext : List Turn → Prop
  | .armed _ :: _ => True
  | .cleared :: ts => ArmsNext ts
  | .setup :: _ | .reset :: _ | [] => False

/-- The halt is cleared while DATA1 is due, and a buffer is armed then. -/
def Disturbed (due : Option Bool) (ts : List Turn) : Prop :=
  ∃ before after, ts = before ++ .cleared :: after ∧ dueAfter true due before = some true ∧
    ArmsNext after

theorem not_disturbed_nil (due : Option Bool) : ¬Disturbed due [] := by
  rintro ⟨before, after, hsplit, _⟩
  cases before <;> cases hsplit

theorem disturbed_cons {due : Option Bool} {t : Turn} {ts : List Turn} :
    Disturbed due (t :: ts) ↔
      (t = .cleared ∧ due = some true ∧ ArmsNext ts) ∨ Disturbed (t.next true due) ts := by
  constructor
  · rintro ⟨_ | ⟨t', before⟩, after, hsplit, hdue, harms⟩
    · cases hsplit
      exact .inl ⟨rfl, hdue, harms⟩
    · cases hsplit
      exact .inr ⟨before, after, rfl, hdue, harms⟩
  · rintro (⟨rfl, hdue, harms⟩ | ⟨before, after, rfl, hdue, harms⟩)
    · exact ⟨[], ts, rfl, hdue, harms⟩
    · exact ⟨t :: before, after, rfl, hdue, harms⟩

/-- If the alternation starts again at each clear, then it went on as it should have exactly if it
was not disturbed. -/
theorem inTurn_iff_not_disturbed {due : Option Bool} {ts : List Turn} (h : InTurn true due ts) :
    (InTurn false due ts ↔ ¬Disturbed due ts) ∧
      -- After a clear that found DATA1 due, the two alternations are apart until the next SETUP.
      (due = some false →
        (InTurn false (some true) ts ↔ ¬ArmsNext ts ∧ ¬Disturbed (some false) ts)) := by
  induction ts generalizing due with
  | nil => exact ⟨by simp [InTurn, not_disturbed_nil],
      fun _ => by simp [InTurn, ArmsNext, not_disturbed_nil]⟩
  | cons t ts ih =>
    obtain ⟨hfits, hrest⟩ := h
    obtain ⟨ihsame, ihapart⟩ := ih hrest
    cases t with
    | setup | reset =>
      simp only [Turn.next] at ihsame
      exact ⟨by simp [InTurn, Turn.Fits, Turn.next, disturbed_cons, ihsame],
        fun _ => by simp [InTurn, Turn.Fits, Turn.next, disturbed_cons, ArmsNext, ihsame]⟩
    | armed second =>
      simp only [Turn.next] at ihsame
      refine ⟨?_, fun hdue => ?_⟩
      · simp [InTurn, Turn.next, disturbed_cons, ihsame, hfits]
      · subst hdue
        obtain rfl : second = false := by simpa [Turn.Fits, eq_comm] using hfits
        simp [InTurn, Turn.Fits, ArmsNext]
    | cleared =>
      refine ⟨?_, fun hdue => ?_⟩
      · cases due with
        | none =>
          simp only [Turn.next, if_true, Option.map_none] at ihsame
          simp [InTurn, Turn.Fits, Turn.next, disturbed_cons, ihsame]
        | some second =>
          cases second with
          | false =>
            simp only [Turn.next, if_true, Option.map_some] at ihsame
            simp [InTurn, Turn.Fits, Turn.next, disturbed_cons, ihsame]
          | true =>
            have happart := ihapart rfl
            simp [InTurn, Turn.Fits, Turn.next, disturbed_cons, happart]
      · subst hdue
        have happart := ihapart rfl
        simp [InTurn, Turn.Fits, Turn.next, disturbed_cons, ArmsNext, happart]

/-! ## What the adapter arms -/

/-- The halt that was cleared when something happened. -/
def Happening.clear? : Happening → Option (Endpoint × Direction)
  | moved _ _ => none
  | asked _ a => a.clear?

/-- What something that happened means for the alternation of endpoint 0. -/
def Happening.turn? (dir : Direction) : Happening → Option Turn
  | moved _ _ => none
  | asked x a =>
    if Adapter.findsSetup a x then some .setup
    else if Adapter.handedOver? a = some (.control, dir) then
      some (.armed (BufferControl.toggle ((tell a x).memory.bufferControl .control dir)))
    else if a.clear? = some (.control, dir) then some .cleared
    else if Adapter.restarted? a = some (.control, dir) then some .reset
    else none

/-- What happened to the alternation of endpoint 0 in a direction, oldest first. -/
def turns (dir : Direction) (history : List Happening) : List Turn :=
  history.filterMap (Happening.turn? dir)

namespace Adapter

theorem eq_interrupts_of_findsSetup {a : Action} {x : Adapter} (h : findsSetup a x = true) :
    a = .interrupts := by
  cases a with
  | interrupts => rfl
  | _ => cases h

/-- Endpoint 0 is not handed a buffer when its alternation starts again. -/
theorem restarted?_of_handed {a : Action} {dir : Direction}
    (h : handedOver? a = some (.control, dir)) : restarted? a = none := by
  cases a with
  | configure ep d | clearStall ep d =>
    cases d with
    | toHost => cases h
    | toDevice =>
      rw [handedOver?] at h
      split at h
      · cases h
      · next hcontrol => exact absurd (congrArg Prod.fst (Option.some.inj h)) hcontrol
  | _ => rfl

theorem restarted?_of_clear? {a : Action} {e : Endpoint × Direction} (h : a.clear? = some e) :
    restarted? a = some e := by
  cases a with
  | clearStall => exact h
  | _ => cases h

theorem handedOver?_of_clear? {a : Action} {dir : Direction}
    (h : a.clear? = some (.control, dir)) : handedOver? a ≠ some (.control, dir) := fun hhanded => by
  have hrestarted := restarted?_of_clear? h
  rw [restarted?_of_handed hhanded] at hrestarted
  cases hrestarted

/-- The packet that is due is the one that the adapter would put into the next buffer. -/
def Tracks (due : Option Bool) (dir : Direction) (x : Adapter) : Prop :=
  ∀ second, due = some second → x.toggle.get .control dir = second

variable {due : Option Bool} {dir : Direction} {x : Adapter}

/-- The alternation of endpoint 0 after an action that finds no SETUP packet. -/
theorem toggle_tell_control {a : Action} (h : findsSetup a x = false) (dir : Direction) :
    (tell a x).toggle.get .control dir =
      if handedOver? a = some (.control, dir) then !x.toggle.get .control dir
      else if restarted? a = some (.control, dir) then false
      else x.toggle.get .control dir := by
  rw [toggle_tell, due, h]
  by_cases hhanded : handedOver? a = some (.control, dir)
  · simp [hhanded, restarted?_of_handed hhanded]
  · simp [hhanded]

/-- A buffer of endpoint 0 that is handed over holds the packet that the adapter has in turn. -/
theorem toggle_bufferControl {a : Action} (h : handedOver? a = some (.control, dir)) :
    BufferControl.toggle ((tell a x).memory.bufferControl .control dir) =
      x.toggle.get .control dir := by
  have hfinds : findsSetup a x = false := by
    by_cases hfinds : findsSetup a x = true
    · obtain rfl := eq_interrupts_of_findsSetup hfinds
      cases h
    · exact Bool.eq_false_iff.mpr hfinds
  rw [bufferControl_of_handed h, toggle_armedWord, due, hfinds, restarted?_of_handed h]
  simp

/-- If an action arms a buffer then that holds what is due, and the adapter goes on with what is due
next. -/
theorem tracks_tell (h : Tracks due dir x) (a : Action) :
    InTurn true due ((Happening.asked x a).turn? dir).toList ∧
      Tracks (dueAfter true due ((Happening.asked x a).turn? dir).toList) dir (tell a x) := by
  by_cases hfinds : findsSetup a x = true
  · obtain rfl := eq_interrupts_of_findsSetup hfinds
    have hdue : (tell .interrupts x).toggle.get .control dir = true := by
      rw [toggle_tell, Adapter.due, hfinds]
      simp [handedOver?]
    rw [Happening.turn?, if_pos hfinds]
    exact ⟨⟨trivial, trivial⟩, fun second hsecond => hdue.trans (Option.some.inj hsecond)⟩
  · have htoggle := toggle_tell_control (Bool.eq_false_iff.mpr hfinds) dir
    rw [Happening.turn?, if_neg hfinds]
    split
    · next hhanded =>
      rw [if_pos hhanded] at htoggle
      rw [toggle_bufferControl hhanded]
      cases due with
      | none => exact ⟨⟨.inl rfl, trivial⟩, fun _ hnext => by cases hnext⟩
      | some second =>
        obtain rfl := h second rfl
        exact ⟨⟨.inr rfl, trivial⟩, fun _ hnext => htoggle.trans (Option.some.inj hnext)⟩
    · next hhanded =>
      rw [if_neg hhanded] at htoggle
      split
      · next hclear =>
        rw [if_pos (restarted?_of_clear? hclear)] at htoggle
        refine ⟨⟨trivial, trivial⟩, fun second hnext => ?_⟩
        cases due with
        | none => cases hnext
        | some _ => exact htoggle.trans (Option.some.inj hnext)
      · split
        · exact ⟨⟨trivial, trivial⟩, fun _ hnext => by cases hnext⟩
        · next hrestarted =>
          rw [if_neg hrestarted] at htoggle
          exact ⟨trivial, fun second hdue => htoggle.trans (h second hdue)⟩

end Adapter

/-! ## Runs -/

/-- What a history shows of actions alone. -/
theorem Contended.filterMap_history {α : Type} (c : Contended) (a : Action)
    (shown : Happening → Option α) (hmoved : ∀ before after, shown (.moved before after) = none) :
    (Controller.perform a c).2.history.filterMap shown =
      c.history.filterMap shown ++ (shown (.asked c.moved a)).toList := by
  rw [Contended.perform_eq, List.filterMap_append, List.filterMap_cons_none (hmoved ..)]
  cases hasked : shown (.asked c.moved a) with
  | none => rw [List.filterMap_cons_none hasked]; rfl
  | some b => rw [List.filterMap_cons_some hasked]; rfl

/-- Whatever is asked of the adapter, each buffer of endpoint 0 that is armed is the one that is due
if the alternation starts again at each clear. -/
theorem inTurn_follows {m m' : Mode} {c c' : Contended} (h : Follows m c m' c') (dir : Direction)
    (hstart : InTurn true none (turns dir c.history))
    (htracks : Adapter.Tracks (dueAfter true none (turns dir c.history)) dir c.adapter) :
    InTurn true none (turns dir c'.history) ∧
      Adapter.Tracks (dueAfter true none (turns dir c'.history)) dir c'.adapter := by
  induction h with
  | refl => exact ⟨hstart, htracks⟩
  | @step _ _ c' _ a _ ih =>
    obtain ⟨hbefore, htracks'⟩ := ih
    obtain ⟨hasked, hafter⟩ := Adapter.tracks_tell (x := c'.moved) htracks' a
    rw [turns, c'.filterMap_history a (Happening.turn? dir) fun _ _ => rfl, ← turns]
    refine ⟨inTurn_append.mpr ⟨hbefore, hasked⟩, ?_⟩
    rw [dueAfter, List.foldl_append]
    exact hafter

/-- The history of a contended adapter shows which halts were cleared. -/
theorem showsClears_history {β ρ : Type} : ShowsClears fun w : Hardware Contended β ρ =>
    w.usb.history.filterMap Happening.clear? :=
  fun a w => w.usb.filterMap_history a Happening.clear? fun _ _ => rfl

theorem turn?_eq_cleared {dir : Direction} {e : Happening} :
    e.turn? dir = some .cleared ↔ e.clear? = some (.control, dir) := by
  cases e with
  | moved => exact ⟨(fun h => by cases h), fun h => by cases h⟩
  | asked x a =>
    rw [Happening.turn?, Happening.clear?]
    constructor
    · intro hturn
      split at hturn
      · cases hturn
      · split at hturn
        · cases hturn
        · split at hturn
          · assumption
          · split at hturn <;> cases hturn
    · intro hclear
      have hfinds : ¬Adapter.findsSetup a x = true := fun hfinds => by
        obtain rfl := Adapter.eq_interrupts_of_findsSetup hfinds
        cases hclear
      rw [if_neg hfinds, if_neg (Adapter.handedOver?_of_clear? hclear), if_pos hclear]

theorem count_cleared (dir : Direction) (history : List Happening) :
    (turns dir history).count .cleared =
      (history.filterMap Happening.clear?).count (.control, dir) := by
  rw [turns, List.count_filterMap, List.count_filterMap]
  refine List.countP_congr fun e _ => ?_
  rw [beq_iff_eq, beq_iff_eq, turn?_eq_cleared]

variable {β ρ : Type} [Spi.Bus β] [ResetLine ρ]

omit [Spi.Bus β] [ResetLine ρ] in
/-- A run clears the halts that the host asks for. -/
theorem clears_of_drives {k : Contended} {events : List TransferEvent}
    {p : Link (Hardware Contended β ρ)} (h : Drives k events p) :
    p.hw.usb.history.filterMap Happening.clear? =
      k.history.filterMap Happening.clear? ++ events.filterMap TransferEvent.clear? := by
  induction h with
  | start => exact (List.append_nil _).symm
  | @usb events p _ op hop ih =>
    refine (showsClears_history.run hop p).trans ?_
    rw [List.filterMap_append, ← List.append_assoc, ← ih]
  | aside _ _ _ ih => exact ih

/-- In every run each buffer of endpoint 0 that is armed holds the packet that is due if the
alternation starts again at DATA0 at each clear of the halt, and the host asked for each clear.  So
the buffers are what they ought to be exactly if no clear disturbs them. -/
theorem control_toggle_exact {m : Memory} {moves : List (Memory → Memory)}
    {events : List TransferEvent} {s : Station (Hardware Contended β ρ)}
    (h : Operates (Contended.start m moves) events s) (dir : Direction) :
    InTurn true none (turns dir s.2.hw.usb.history) ∧
      (turns dir s.2.hw.usb.history).count .cleared =
        (events.filterMap TransferEvent.clear?).count (.control, dir) ∧
      (InTurn false none (turns dir s.2.hw.usb.history) ↔
        ¬Disturbed none (turns dir s.2.hw.usb.history)) := by
  obtain ⟨m', _, hfollows⟩ := h.keeps .rest rfl
  have hturns := (inTurn_follows hfollows dir trivial nofun).1
  refine ⟨hturns, ?_, (inTurn_iff_not_disturbed hturns).1⟩
  rw [count_cleared, clears_of_drives h.drives]
  rfl

/-! ## On the bench -/

section Bench

open Bench

/-- A request with a data stage of 80 bytes, of which the first 64 come after the seven actions that
take the request. -/
def dataStageMoves : List (Memory → Memory) :=
  [fun m => causes 16 (setupToken [0x00, 0x07, 0x00, 0x03, 0x00, 0x00, 0x50, 0x00] m), id, id, id, id,
    id, id, fun m => causes 4 (outToken .control (.replicate 64 0) m).2]

/-- The first packet of the data stage was taken. -/
def dataStageBegun : Station (Hardware Contended FlashBus PinRecord) :=
  interrupted 3 (awaitingHandshake dataStageMoves)

theorem control_toggle_exact_data_stage :
    turns .toDevice dataStageBegun.2.hw.usb.history = [.setup, .armed true, .armed false] ∧
      ¬Disturbed none (turns .toDevice dataStageBegun.2.hw.usb.history) := by
  obtain ⟨events, h⟩ := operates_interrupted (operates_awaitingHandshake dataStageMoves) 3
  rw [← dataStageBegun] at h
  exact ⟨by decide +kernel, (control_toggle_exact h .toDevice).2.2.mp (by decide +kernel)⟩

/-- The host clears the halt of endpoint 0 in the direction to the host. -/
def clearControlHalt : List (Memory → Memory) :=
  [fun m => causes 16 (setupToken [0x02, 0x01, 0x00, 0x00, 0x80, 0x00, 0x00, 0x00] m)]

/-- The request was taken. -/
def controlHaltCleared : Station (Hardware Contended FlashBus PinRecord) :=
  interrupted 2 (awaitingHandshake clearControlHalt)

/-- The handshake of a request that clears the halt of endpoint 0 is DATA0, and ought to be DATA1.
-/
theorem handshake_armed_as_data0 :
    (∃ events, Operates (Contended.start (.filled 0) (handshakeThen clearControlHalt)) events
        controlHaltCleared) ∧
      turns .toHost controlHaltCleared.2.hw.usb.history = [.setup, .cleared, .armed false] ∧
      ¬InTurn false none (turns .toHost controlHaltCleared.2.hw.usb.history) := by
  have hrun := operates_interrupted (operates_awaitingHandshake clearControlHalt) 2
  rw [← controlHaltCleared] at hrun
  exact ⟨hrun, by decide +kernel, by decide +kernel⟩

end Bench

end FlashProgrammer.Rp2040

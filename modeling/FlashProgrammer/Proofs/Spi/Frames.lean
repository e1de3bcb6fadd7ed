import FlashProgrammer.Proofs.Flash.Clocking
import FlashProgrammer.Spi.Wiring

/-!
# Frames on the wires

What the chips hear is decided by their chip-select lines, so a statement about frames is a
statement about lines.  `Watched` is hardware that remembers all that its lines and its SPI block
were asked, with the answers, and `levelAfter` reads off the level that a line was left at.

A `Frame` is one instruction on the wires: a line goes low, bytes move until all have moved or
one fails, and after a flush the line goes high.  `execute_frame` says that an instruction is one
such frame, however the block fails.  So a log is made of frames, and what a log of frames does to
the lines is said once, in `Framing`.
-/

namespace FlashProgrammer.Spi

/-! ## Watching the wires -/

/-- An action on the lines and the block, and the answer to it. -/
structure WireEvent where
  action : WireAction
  reply : action.Reply

/-- Hardware with all that its lines and its block were asked, oldest first. -/
structure Watched (ω : Type) where
  hw : ω
  log : List WireEvent

namespace Watched

variable {ω : Type}

/-- Hardware of which nothing is remembered yet. -/
def fresh (w : ω) : Watched ω := ⟨w, []⟩

instance [Wires ω] : Wires (Watched ω) where
  perform a w :=
    let (reply, hw) := Wires.perform a w.hw
    (reply, ⟨hw, w.log ++ [⟨a, reply⟩]⟩)

theorem perform_eq [Wires ω] (w : Watched ω) (a : WireAction) :
    Wires.perform a w = ((Wires.perform a w.hw).1,
      ⟨(Wires.perform a w.hw).2, w.log ++ [⟨a, (Wires.perform a w.hw).1⟩]⟩) := rfl

instance [Usb.Controller ω] : Usb.Controller (Watched ω) where
  perform a w :=
    let (reply, hw) := Usb.Controller.perform a w.hw
    (reply, { w with hw })

instance [ResetLine ω] : ResetLine (Watched ω) where
  drive level w :=
    let (driven, hw) := ResetLine.drive level w.hw
    (driven, { w with hw })

end Watched

/-- The lines of the hardware never fail. -/
def SteadyLines (ω : Type) [Wires ω] : Prop :=
  ∀ slot level (w : ω), (Wires.perform (.drive slot level) w).1 = true

/-! ## The levels of the lines -/

/-- The level that an event leaves a line at, if it drives that line. -/
def WireEvent.drives (slot : Slot) : WireEvent → Option Level
  | ⟨.drive s level, true⟩ => if s = slot then some level else none
  | _ => none

/-- The level that the line of a slot was left at, if it was ever driven. -/
def levelAfter (es : List WireEvent) (slot : Slot) : Option Level :=
  (es.filterMap (WireEvent.drives slot)).getLast?

/-- At most one line is low. -/
def AtMostOneLow (es : List WireEvent) : Prop :=
  ∀ a b, levelAfter es a = some .low → levelAfter es b = some .low → a = b

/-- The line of one slot is low, and the others are high. -/
def OnlyLow (slot : Slot) (es : List WireEvent) : Prop :=
  ∀ s, levelAfter es s = some (if s = slot then .low else .high)

/-- All lines are high. -/
def Released (es : List WireEvent) : Prop := ∀ s, levelAfter es s = some .high

theorem levelAfter_append (es fs : List WireEvent) (slot : Slot) :
    levelAfter (es ++ fs) slot = (levelAfter fs slot).or (levelAfter es slot) := by
  rw [levelAfter, List.filterMap_append, List.getLast?_append]
  rfl

/-- What drives no line leaves all of them. -/
theorem levelAfter_idle {fs : List WireEvent} {slot : Slot}
    (h : ∀ e ∈ fs, e.drives slot = none) (es : List WireEvent) :
    levelAfter (es ++ fs) slot = levelAfter es slot := by
  have hnone : fs.filterMap (WireEvent.drives slot) = [] := List.filterMap_eq_nil_iff.mpr h
  rw [levelAfter_append, levelAfter, hnone]
  rfl

/-- A line that was driven is at that level, and the others are where they were. -/
theorem levelAfter_drive (es : List WireEvent) (slot s : Slot) (level : Level) :
    levelAfter (es ++ [⟨.drive slot level, true⟩]) s =
      if slot = s then some level else levelAfter es s := by
  rw [levelAfter_append]
  by_cases hslot : slot = s
  · simp [levelAfter, WireEvent.drives, hslot]
  · simp [levelAfter, WireEvent.drives, hslot]

theorem OnlyLow.atMostOneLow {slot : Slot} {es : List WireEvent} (h : OnlyLow slot es) :
    AtMostOneLow es := by
  have hslot : ∀ s, levelAfter es s = some .low → s = slot := by
    intro s hs
    have hlevel := h s
    rw [hs] at hlevel
    split at hlevel
    · assumption
    · cases hlevel
  intro a b ha hb
  rw [hslot a ha, hslot b hb]

theorem Released.atMostOneLow {es : List WireEvent} (h : Released es) : AtMostOneLow es := by
  intro a b ha
  rw [h a] at ha
  cases ha

/-! ## Frames -/

/-- A byte that was to move, on the wires. -/
def WireEvent.ofMove (m : Move) : WireEvent := ⟨.exchange m.1, m.2.toOption⟩

/-- Bytes that moved, and one that may have failed after them. -/
def exchangeEvents (moved : List (UInt8 × UInt8)) (failed : Option UInt8) : List WireEvent :=
  moved.map (fun m => ⟨.exchange m.1, some m.2⟩) ++
    failed.toList.map fun out => ⟨.exchange out, none⟩

/-- One instruction on the wires. -/
structure Frame where
  slot : Slot
  /-- The bytes that went out, each with the byte that came in for it. -/
  moved : List (UInt8 × UInt8)
  /-- The byte that failed after them, if one did. -/
  failed : Option UInt8
  /-- Whether the block could be flushed in the end. -/
  flushed : Bool
deriving DecidableEq, Repr

namespace Frame

/-- The line goes low. -/
def lowering (f : Frame) : WireEvent := ⟨.drive f.slot .low, true⟩

/-- Bytes move, and then one may fail. -/
def exchanges (f : Frame) : List WireEvent := exchangeEvents f.moved f.failed

/-- The block is flushed, and the line goes high. -/
def ending (f : Frame) : List WireEvent := [⟨.flush, f.flushed⟩, ⟨.drive f.slot .high, true⟩]

def events (f : Frame) : List WireEvent := f.lowering :: (f.exchanges ++ f.ending)

/-- The bytes that were to go out. -/
def tried (f : Frame) : List UInt8 := f.moved.map Prod.fst ++ f.failed.toList

/-- The frame is that of an instruction, of which all went out unless a byte failed. -/
structure Carries (f : Frame) (i : Flash.Instruction) : Prop where
  tried_prefix : f.tried <+: i.clocked
  tried_eq : f.failed = none → f.tried = i.clocked

theorem drives_exchanges {f : Frame} {e : WireEvent} (h : e ∈ f.exchanges) (slot : Slot) :
    e.drives slot = none := by
  rcases List.mem_append.mp h with h | h
  · obtain ⟨m, _, rfl⟩ := List.mem_map.mp h
    rfl
  · obtain ⟨out, _, rfl⟩ := List.mem_map.mp h
    rfl

/-- While the bytes of a frame move, only its line is low. -/
theorem onlyLow {es xs : List WireEvent} (h : Released es) (f : Frame)
    (hxs : ∀ e ∈ xs, ∀ slot, e.drives slot = none) : OnlyLow f.slot (es ++ f.lowering :: xs) := by
  intro s
  rw [List.append_cons, levelAfter_idle fun e he => hxs e he s, lowering, levelAfter_drive, h s]
  by_cases hslot : f.slot = s
  · rw [if_pos hslot, if_pos hslot.symm]
  · rw [if_neg hslot, if_neg (Ne.symm hslot)]

/-- After a frame all lines are high again. -/
theorem released {es : List WireEvent} (h : Released es) (f : Frame) :
    Released (es ++ f.events) := by
  intro s
  have hbytes : ∀ e ∈ f.exchanges ++ [⟨.flush, f.flushed⟩], ∀ slot, e.drives slot = none := by
    intro e he slot
    rcases List.mem_append.mp he with he | he
    · exact drives_exchanges he slot
    · rw [List.mem_singleton.mp he]
      rfl
  have hbefore := onlyLow h f hbytes s
  have hsplit : es ++ f.events =
      es ++ f.lowering :: (f.exchanges ++ [⟨.flush, f.flushed⟩]) ++
        [⟨.drive f.slot .high, true⟩] := by
    simp [events, ending]
  rw [hsplit, levelAfter_drive, hbefore]
  by_cases hslot : f.slot = s
  · rw [if_pos hslot]
  · rw [if_neg hslot, if_neg (Ne.symm hslot)]

/-- At every moment of a frame at most one line is low. -/
theorem atMostOneLow {es p : List WireEvent} (h : Released es) (f : Frame)
    (hp : p <+: f.events) : AtMostOneLow (es ++ p) := by
  rcases p with _ | ⟨e, p⟩
  · rw [List.append_nil]
    exact h.atMostOneLow
  · obtain ⟨rfl, hrest⟩ := List.cons_prefix_cons.mp hp
    by_cases hwhole : p = f.exchanges ++ f.ending
    · rw [hwhole]
      exact (f.released h).atMostOneLow
    · -- A part of a frame stops before its last event, and only that one raises the line.
      have hidle : p <+: f.exchanges ++ [⟨.flush, f.flushed⟩] := by
        have hlast : f.exchanges ++ f.ending =
            f.exchanges ++ [⟨.flush, f.flushed⟩] ++ [⟨.drive f.slot .high, true⟩] := by
          simp [ending]
        rw [hlast] at hrest hwhole
        exact (List.prefix_concat_iff.mp hrest).resolve_left hwhole
      refine (onlyLow h f fun e he slot => ?_).atMostOneLow
      rcases List.mem_append.mp (hidle.subset he) with he | he
      · exact drives_exchanges he slot
      · rw [List.mem_singleton.mp he]
        rfl

end Frame

/-! ## Logs of frames -/

/-- What is asked of the lines at first: all of them go high. -/
def opening : List WireEvent := Slot.all.map fun slot => ⟨.drive slot .high, true⟩

theorem released_opening : Released opening := by
  intro s
  cases s <;> rfl

theorem released_frames (frames : List Frame) :
    Released (opening ++ frames.flatMap Frame.events) := by
  suffices ∀ es, Released es → Released (es ++ frames.flatMap Frame.events) from
    this opening released_opening
  induction frames with
  | nil =>
    intro es h
    rw [List.flatMap_nil, List.append_nil]
    exact h
  | cons f frames ih =>
    intro es h
    rw [List.flatMap_cons, ← List.append_assoc]
    exact ih _ (f.released h)

/-- A prefix of two parts ends in the first one or in the second one. -/
theorem prefix_append_cases {α : Type} {p as bs : List α} (h : p <+: as ++ bs) :
    p <+: as ∨ ∃ q, p = as ++ q ∧ q <+: bs := by
  rcases List.prefix_or_prefix_of_prefix h (List.prefix_append as bs) with hp | ⟨q, rfl⟩
  · exact .inl hp
  · exact .inr ⟨q, rfl, (List.prefix_append_right_inj as).mp h⟩

/-- Frames keep at most one line low, if that was so before them. -/
theorem atMostOneLow_append_frames (frames : List Frame) {es p : List WireEvent}
    (hreleased : Released es) (hes : ∀ q, q <+: es → AtMostOneLow q)
    (hp : p <+: es ++ frames.flatMap Frame.events) : AtMostOneLow p := by
  induction frames generalizing es with
  | nil =>
    rw [List.flatMap_nil, List.append_nil] at hp
    exact hes p hp
  | cons f frames ih =>
    rw [List.flatMap_cons, ← List.append_assoc] at hp
    refine ih (f.released hreleased) (fun q hq => ?_) hp
    rcases prefix_append_cases hq with hq | ⟨r, rfl, hr⟩
    · exact hes q hq
    · exact f.atMostOneLow hreleased hr

/-- The opening drives no line low. -/
theorem atMostOneLow_opening {p : List WireEvent} (h : p <+: opening) : AtMostOneLow p := by
  intro a b ha
  obtain ⟨e, he, hdrives⟩ := List.mem_filterMap.mp (List.mem_of_getLast? ha)
  obtain ⟨slot, _, rfl⟩ := List.mem_map.mp (h.subset he)
  simp only [WireEvent.drives] at hdrives
  split at hdrives <;> cases hdrives

/-- A log of frames: what was asked of the wires, cut into frames, and what it does to the lines. -/
structure Framing (es : List WireEvent) (frames : List Frame) : Prop where
  events_eq : es = opening ++ frames.flatMap Frame.events
  /-- Each frame is that of one instruction. -/
  carries : ∀ f ∈ frames, ∃ i, f.Carries i
  /-- At every moment at most one line is low. -/
  atMostOneLow : ∀ p, p <+: es → AtMostOneLow p
  /-- While the bytes of a frame move, its line and no other is low. -/
  onlyLow : ∀ before f after, frames = before ++ f :: after → ∀ xs, xs <+: f.exchanges →
    OnlyLow f.slot (opening ++ before.flatMap Frame.events ++ f.lowering :: xs)
  /-- In the end all lines are high. -/
  released : Released es

theorem framing_of_frames {es : List WireEvent} {frames : List Frame}
    (hes : es = opening ++ frames.flatMap Frame.events)
    (hcarries : ∀ f ∈ frames, ∃ i, f.Carries i) : Framing es frames where
  events_eq := hes
  carries := hcarries
  atMostOneLow := fun _ hp =>
    atMostOneLow_append_frames frames released_opening (fun _ => atMostOneLow_opening) (hes ▸ hp)
  onlyLow := fun before f _ _ _ hxs => Frame.onlyLow (released_frames before) f fun _ he =>
    Frame.drives_exchanges (hxs.subset he)
  released := hes ▸ released_frames frames

/-! ## Instructions -/

variable {ω : Type} [Wires ω]

theorem log_drive (hlines : SteadyLines ω) (slot : Slot) (level : Level) (w : Wired (Watched ω)) :
    (w.tell (.drive slot level)).wires.log = w.wires.log ++ [⟨.drive slot level, true⟩] := by
  rw [← hlines slot level w.wires.hw]
  rfl

/-- Taking the wires over drives every line high. -/
theorem log_ofWires (hlines : SteadyLines ω) (w : ω) :
    (Wired.ofWires (Watched.fresh w)).wires.log = opening := by
  show ((((Wired.mk none (Watched.fresh w)).tell (.drive .local1 .high)).tell
    (.drive .local2 .high)).tell (.drive .external .high)).wires.log = _
  rw [log_drive hlines, log_drive hlines, log_drive hlines]
  rfl

/-- Bytes moved and one may have failed after them, while the selection stayed as it was. -/
def Exchanged (moved : List (UInt8 × UInt8)) (failed : Option UInt8)
    (w w' : Wired (Watched ω)) : Prop :=
  w'.selected = w.selected ∧ w'.wires.log = w.wires.log ++ exchangeEvents moved failed

/-- Bytes were to go out, and did so or were stopped by one that failed. -/
inductive Tries (bs : List UInt8) (w w' : Wired (Watched ω)) : (ok : Bool) → Prop where
  | moved (bytes : List (UInt8 × UInt8)) (h : Exchanged bytes none w w')
      (hbs : bytes.map Prod.fst = bs) : Tries bs w w' true
  | failed (bytes : List (UInt8 × UInt8)) {out : UInt8} (h : Exchanged bytes (some out) w w')
      (hbs : bytes.map Prod.fst ++ [out] <+: bs) : Tries bs w w' false

/-- The wires keep the bytes that are to move, and the selection stays. -/
theorem tracks_log : Tracks fun moves (w w' : Wired (Watched ω)) =>
    w'.selected = w.selected ∧ w'.wires.log = w.wires.log ++ moves.map WireEvent.ofMove where
  nil w := ⟨rfl, (List.append_nil _).symm⟩
  exchange out w := by
    show (w.exchange out).2.selected = w.selected ∧ (w.exchange out).2.wires.log =
      w.wires.log ++ [WireEvent.ofMove (out, (w.exchange out).1)]
    rw [Wired.exchange, w.wires.perform_eq]
    generalize Wires.perform (.exchange out) w.wires.hw = answered
    obtain ⟨_ | b, hw⟩ := answered <;> exact ⟨rfl, rfl⟩
  append := by
    rintro moves moves' u v w ⟨hselected, hlog⟩ ⟨hselected', hlog'⟩
    refine ⟨hselected'.trans hselected, ?_⟩
    rw [hlog', hlog, List.map_append, List.append_assoc]

end FlashProgrammer.Spi

namespace FlashProgrammer.Flash

open Spi

variable {ω : Type} [Wires ω]

theorem tries_clock (i : Instruction) (w : Wired (Watched ω)) :
    Tries i.clocked w (clock i w).2 (clock i w).1.isOk := by
  obtain ⟨_, _, htried, hresult, hselected, hlog⟩ := tracks_clock tracks_log i w
  rw [hresult]
  cases htried with
  | moved pairs hpairs =>
    refine .moved pairs ⟨hselected, ?_⟩ hpairs
    simpa [exchangeEvents, WireEvent.ofMove, Move.done, Except.toOption, Function.comp_def] using hlog
  | failed pairs hpairs =>
    refine .failed pairs ⟨hselected, ?_⟩ hpairs
    simpa [exchangeEvents, WireEvent.ofMove, Move.done, Except.toOption, Function.comp_def] using hlog

/-- An instruction is one frame for the chip it is meant for, however it fails. -/
theorem execute_frame (hlines : SteadyLines ω) {w : Wired (Watched ω)} (hw : w.selected = none)
    (slot : Slot) (i : Instruction) :
    ∃ f : Frame, f.slot = slot ∧ f.Carries i ∧
      (f.failed = none ↔ (execute slot i w).1.isOk = true) ∧
      (execute slot i w).2.selected = none ∧
      (execute slot i w).2.wires.log = w.wires.log ++ f.events := by
  have hlow : (Spi.select slot w).wires.log = w.wires.log ++ [⟨.drive slot .low, true⟩] := by
    show (w.deselect.tell (.drive slot .low)).wires.log = _
    rw [log_drive hlines, Wired.deselect, hw]
  have hhigh : ∀ v : Wired (Watched ω), v.selected = some slot →
      (Spi.deselect v).selected = none ∧ ∃ flushed, (Spi.deselect v).wires.log =
        v.wires.log ++ [⟨.flush, flushed⟩, ⟨.drive slot .high, true⟩] := by
    intro v hv
    have hdeselect : Spi.deselect v =
        { (v.tell .flush).tell (.drive slot .high) with selected := none } := by
      show v.deselect = _
      rw [Wired.deselect, hv]
    refine ⟨by rw [hdeselect], (Wires.perform .flush v.wires.hw).1, ?_⟩
    rw [hdeselect]
    show ((v.tell .flush).tell (.drive slot .high)).wires.log = _
    rw [log_drive hlines]
    show (v.wires.log ++ [_]) ++ [_] = _
    rw [List.append_assoc]
    rfl
  have hclock := tries_clock i (Spi.select slot w)
  rw [execute]
  generalize clock i (Spi.select slot w) = clocked at hclock ⊢
  obtain ⟨reply, v⟩ := clocked
  simp only at hclock ⊢
  have hended : ∀ moved failed, Exchanged moved failed (Spi.select slot w) v →
      ∃ flushed, (Spi.deselect v).selected = none ∧
        (Spi.deselect v).wires.log = w.wires.log ++ (Frame.mk slot moved failed flushed).events := by
    intro moved failed hexchanged
    obtain ⟨hnone, flushed, hlog⟩ := hhigh v hexchanged.1
    refine ⟨flushed, hnone, ?_⟩
    rw [hlog, hexchanged.2, hlow]
    simp [Frame.events, Frame.lowering, Frame.exchanges, Frame.ending]
  generalize reply.isOk = ok at hclock ⊢
  cases hclock with
  | @moved moved hexchanged hbs =>
    obtain ⟨flushed, hnone, hlog⟩ := hended moved none hexchanged
    have htried : (Frame.mk slot moved none flushed).tried = i.clocked := by
      simpa [Frame.tried] using hbs
    exact ⟨_, rfl, ⟨htried ▸ List.prefix_refl _, fun _ => htried⟩, by simp, hnone, hlog⟩
  | @failed moved out hexchanged hbs =>
    obtain ⟨flushed, hnone, hlog⟩ := hended moved (some out) hexchanged
    have hcarries : (Frame.mk slot moved (some out) flushed).Carries i :=
      ⟨hbs, fun h => by cases h⟩
    exact ⟨_, rfl, hcarries, by simp, hnone, hlog⟩

end FlashProgrammer.Flash

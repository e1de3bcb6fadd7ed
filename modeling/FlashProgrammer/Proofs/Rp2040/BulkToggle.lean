import FlashProgrammer.Proofs.Rp2040.BufferOwnership

/-!
# The alternation on bulk endpoints

A bulk endpoint starts at DATA0 when it is configured or its halt is cleared, and a packet that was
under way before is dropped, or should be.  `dialogue?` is what was handed to the controller and
what the controller exchanged since then.  `InOrder pending` says that this is in order, if the
controller had the packet `pending` at the start.

The adapter writes the word of a buffer for the device anew, so the controller has none of the old
packets.  It leaves the word of a buffer for the host as it is, and the controller still sends what
was handed over before.  `bulk_toggle_exact` says of all runs that what follows is in order, and
that all of it is exactly if no packet was left over.
-/

namespace FlashProgrammer.Rp2040

open Usb Programmer

/-! ## Dialogues -/

/-- The packet that the controller has, which is DATA1 if `true` and else DATA0. -/
def BufferControl.pending? (w : Word) : Option Bool :=
  if available w then some (toggle w) else none

/-- A packet passes between the firmware and the host. -/
inductive Passage where
  /-- A buffer is handed to the controller. -/
  | armed (second : Bool)
  /-- The controller exchanges the packet with the host. -/
  | exchanged (second : Bool)
deriving DecidableEq, Repr

/-- How far the alternation has come. -/
structure Standing where
  /-- The packet that the controller has. -/
  pending : Option Bool
  /-- The packet that is handed over next. -/
  next : Bool
deriving DecidableEq, Repr

/-- A packet passes, if it is the one whose turn it is. -/
def Standing.pass (s : Standing) : Passage → Option Standing
  | .armed second =>
    if s.pending = none ∧ second = s.next then some ⟨some second, !second⟩ else none
  | .exchanged second => if s.pending = some second then some ⟨none, s.next⟩ else none

/-- Packets pass in order, of which the first to be handed over is DATA0. -/
def InOrder (pending : Option Bool) (passages : List Passage) : Prop :=
  (passages.foldlM Standing.pass ⟨pending, false⟩).isSome = true

instance (pending : Option Bool) (passages : List Passage) : Decidable (InOrder pending passages) :=
  inferInstanceAs (Decidable (_ = true))

/-- With a packet left over, nothing that passes is in order. -/
theorem inOrder_none_iff {second : Bool} {passages : List Passage}
    (h : InOrder (some second) passages) : InOrder none passages ↔ passages = [] := by
  refine ⟨fun hnone => ?_, fun hempty => ?_⟩
  · cases passages with
    | nil => rfl
    | cons passage rest =>
      cases passage with
      | armed => cases h
      | exchanged => cases hnone
  · subst hempty
    rfl

/-- What passed since an endpoint was configured or its halt was cleared. -/
structure Dialogue where
  /-- The packet that the controller had just before. -/
  pending : Option Bool
  passages : List Passage
deriving DecidableEq, Repr

/-- The packet that the controller is left with. -/
def Dialogue.leftOver (d : Dialogue) : Direction → Option Bool
  | .toDevice => none
  | .toHost => d.pending

/-- The packet that passes when something happens. -/
def Happening.passage? (ep : Endpoint) (dir : Direction) : Happening → Option Passage
  | moved before after =>
    let w := before.bufferControl ep dir
    if BufferControl.available w ∧ ¬BufferControl.available (after.bufferControl ep dir) then
      some (.exchanged (BufferControl.toggle w))
    else none
  | asked x a =>
    if Adapter.handedOver? a = some (ep, dir) then
      some (.armed (BufferControl.toggle ((tell a x).memory.bufferControl ep dir)))
    else none

/-- The dialogue once something has happened. -/
def Happening.extend (ep : Endpoint) (dir : Direction) (d? : Option Dialogue) (e : Happening) :
    Option Dialogue :=
  let go := d?.map fun d => { d with passages := d.passages ++ (e.passage? ep dir).toList }
  match e with
  | moved _ _ => go
  | asked x a =>
    if Adapter.restarted? a = some (ep, dir) then
      some ⟨BufferControl.pending? (x.memory.bufferControl ep dir), (e.passage? ep dir).toList⟩
    else go

/-- The dialogue since the endpoint was last configured or its halt cleared, if ever. -/
def dialogue? (ep : Endpoint) (dir : Direction) (history : List Happening) : Option Dialogue :=
  history.foldl (Happening.extend ep dir) none

/-! ## Steps -/

namespace Adapter

/-- How far the alternation has come in the buffer and in the adapter. -/
def standing (x : Adapter) (ep : Endpoint) (dir : Direction) : Standing :=
  ⟨BufferControl.pending? (x.memory.bufferControl ep dir), x.toggle.get ep dir⟩

variable {ep : Endpoint} {dir : Direction} {x : Adapter} {a : Action}

/-- A lawful move exchanges at most the packet that the controller has. -/
theorem pass_moved {memory : Memory} (hep : ep ≠ .control)
    (hlawful : Completes x.memory memory) :
    ((Happening.moved x.memory memory).passage? ep dir).toList.foldlM Standing.pass
      (x.standing ep dir) = some ({ x with memory }.standing ep dir) := by
  rcases hlawful.bulk ep dir hep with hsame | hgiven
  · simp [Happening.passage?, standing, hsame]
  · simp [Happening.passage?, standing, Standing.pass, BufferControl.pending?, hgiven.owned,
      hgiven.released]

theorem due_of_ne_control (hep : ep ≠ .control) :
    due a x ep dir = if restarted? a = some (ep, dir) then false else x.toggle.get ep dir := by
  rw [due, if_neg fun h => hep h.2]

/-- The word and the alternation that go with a buffer that is handed over. -/
theorem standing_of_handed (hhanded : handedOver? a = some (ep, dir)) :
    (tell a x).standing ep dir = ⟨some (due a x ep dir), !due a x ep dir⟩ := by
  rw [standing, toggle_tell, if_pos hhanded, bufferControl_of_handed hhanded, BufferControl.pending?,
    available_armedWord, toggle_armedWord, if_pos rfl]

theorem standing_of_not_handed (hhanded : handedOver? a ≠ some (ep, dir)) :
    (tell a x).standing ep dir =
      ⟨BufferControl.pending? (x.memory.bufferControl ep dir), due a x ep dir⟩ := by
  have hsame := sameButHalt_of_not_handed hhanded x
  rw [standing, toggle_tell, if_neg hhanded, BufferControl.pending?, hsame.available_eq,
    hsame.toggle_eq, ← BufferControl.pending?]

theorem passage?_of_handed (hhanded : handedOver? a = some (ep, dir)) :
    (Happening.asked x a).passage? ep dir = some (.armed (due a x ep dir)) := by
  rw [Happening.passage?, if_pos hhanded, bufferControl_of_handed hhanded, toggle_armedWord]

/-- Unless its alternation starts again, a buffer is handed over only if the controller does not
have it. -/
theorem released_of_handed (hep : ep ≠ .control) (hproper : x.Proper a)
    (hhanded : handedOver? a = some (ep, dir)) (hrestarted : restarted? a ≠ some (ep, dir)) :
    BufferControl.available (x.memory.bufferControl ep dir) = false := by
  cases a with
  | rxDone e dataEnd =>
    obtain ⟨rfl, rfl⟩ := Prod.mk.inj (Option.some.inj hhanded)
    rw [if_neg fun h => hep h.1]
    exact (hproper hep).2
  | txReady e last =>
    obtain ⟨rfl, rfl⟩ := Prod.mk.inj (Option.some.inj hhanded)
    exact hproper hep
  | configure e d | clearStall e d =>
    cases d with
    | toHost => cases hhanded
    | toDevice =>
      rw [handedOver?] at hhanded
      split at hhanded
      · cases hhanded
      · exact absurd hhanded hrestarted
  | _ => cases hhanded

/-- What a proper action hands over is next in turn. -/
theorem pass_tell (hep : ep ≠ .control) (hproper : x.Proper a)
    (hrestarted : restarted? a ≠ some (ep, dir)) :
    ((Happening.asked x a).passage? ep dir).toList.foldlM Standing.pass (x.standing ep dir) =
      some ((tell a x).standing ep dir) := by
  have hdue : due a x ep dir = x.toggle.get ep dir := by
    rw [due_of_ne_control hep, if_neg hrestarted]
  by_cases hhanded : handedOver? a = some (ep, dir)
  · have hreleased := released_of_handed hep hproper hhanded hrestarted
    rw [passage?_of_handed hhanded, standing_of_handed hhanded, hdue]
    simp [standing, Standing.pass, BufferControl.pending?, hreleased]
  · rw [standing_of_not_handed hhanded, hdue, Happening.passage?, if_neg hhanded]
    rfl

/-- An endpoint starts with DATA0, and a packet for the host may be left over. -/
theorem pass_restarted (hep : ep ≠ .control) (hrestarted : restarted? a = some (ep, dir))
    (passages : List Passage) :
    ((Happening.asked x a).passage? ep dir).toList.foldlM Standing.pass
      ⟨Dialogue.leftOver ⟨BufferControl.pending? (x.memory.bufferControl ep dir), passages⟩ dir,
        false⟩ = some ((tell a x).standing ep dir) := by
  have hdue : due a x ep dir = false := by rw [due_of_ne_control hep, if_pos hrestarted]
  cases dir with
  | toDevice =>
    have hhanded : handedOver? a = some (ep, .toDevice) := by
      cases a with
      | configure e d | clearStall e d =>
        obtain ⟨rfl, rfl⟩ := Prod.mk.inj (Option.some.inj hrestarted)
        rw [handedOver?, if_neg hep]
      | _ => cases hrestarted
    rw [passage?_of_handed hhanded, standing_of_handed hhanded, hdue]
    rfl
  | toHost =>
    have hhanded : handedOver? a ≠ some (ep, .toHost) := by
      cases a with
      | configure e d | clearStall e d =>
        obtain ⟨rfl, rfl⟩ := Prod.mk.inj (Option.some.inj hrestarted)
        exact fun hhanded => by cases hhanded
      | _ => cases hrestarted
    rw [standing_of_not_handed hhanded, hdue, Happening.passage?, if_neg hhanded]
    rfl

end Adapter

/-! ## Runs -/

/-- The dialogue so far leads to where the alternation stands. -/
def Agrees (ep : Endpoint) (dir : Direction) (d? : Option Dialogue) (x : Adapter) : Prop :=
  ∀ d, d? = some d → d.passages.foldlM Standing.pass ⟨d.leftOver dir, false⟩ =
    some (x.standing ep dir)

section Agrees

variable {ep : Endpoint} {dir : Direction} {d? : Option Dialogue} {x : Adapter}

/-- The dialogue goes on. -/
theorem agrees_append {y : Adapter} {passages : List Passage} (h : Agrees ep dir d? x)
    (hpass : passages.foldlM Standing.pass (x.standing ep dir) = some (y.standing ep dir)) :
    Agrees ep dir (d?.map fun d => { d with passages := d.passages ++ passages }) y := by
  intro d' hd'
  cases d? with
  | none => cases hd'
  | some d =>
    cases hd'
    have hbefore := h d rfl
    simp only [List.foldlM_append]
    exact (congrArg (· >>= _) hbefore).trans hpass

theorem agrees_moved (h : Agrees ep dir d? x) (hep : ep ≠ .control) {memory : Memory}
    (hlawful : Completes x.memory memory) :
    Agrees ep dir ((Happening.moved x.memory memory).extend ep dir d?) { x with memory } :=
  agrees_append h (Adapter.pass_moved hep hlawful)

theorem agrees_asked (h : Agrees ep dir d? x) (hep : ep ≠ .control) {a : Action}
    (hproper : x.Proper a) :
    Agrees ep dir ((Happening.asked x a).extend ep dir d?) (tell a x) := by
  simp only [Happening.extend]
  split
  · next hrestarted =>
    intro d hd
    cases hd
    exact Adapter.pass_restarted hep hrestarted _
  · next hrestarted => exact agrees_append h (Adapter.pass_tell hep hproper hrestarted)

/-- While the moves are lawful and the actions proper, the dialogue leads to where the alternation
stands. -/
theorem agrees_follows {m m' : Mode} {c c' : Contended} (h : Follows m c m' c') (hep : ep ≠ .control)
    (hlawful : ∀ e ∈ c'.history, e.Lawful) (hproper : ∀ e ∈ c'.history, e.Proper)
    (hagrees : Agrees ep dir (dialogue? ep dir c.history) c.adapter) :
    Agrees ep dir (dialogue? ep dir c'.history) c'.adapter := by
  induction h with
  | refl => exact hagrees
  | @step _ _ c' _ a _ ih =>
    rw [Contended.perform_eq] at hlawful hproper ⊢
    simp only [List.mem_append] at hlawful hproper
    have hbefore := ih (fun e he => hlawful e (.inl he)) fun e he => hproper e (.inl he)
    have hmove : Completes c'.adapter.memory c'.moved.memory :=
      hlawful (.moved _ _) (.inr List.mem_cons_self)
    have hasked : c'.moved.Proper a :=
      hproper (.asked _ _) (.inr (List.mem_cons_of_mem _ List.mem_cons_self))
    rw [dialogue?, List.foldl_append]
    exact agrees_asked (agrees_moved hbefore hep hmove) hep hasked

end Agrees

variable {β ρ : Type} [Spi.Bus β] [ResetLine ρ]

/-- Whatever the controller completes meanwhile, what passes at a bulk endpoint since it was
configured or its halt was cleared is in order, but for a packet that was left over for the host.
If one was, then it is exchanged first. -/
theorem bulk_toggle_exact {m : Memory} {moves : List (Memory → Memory)}
    {events : List TransferEvent} {s : Station (Hardware Contended β ρ)}
    (h : Operates (Contended.start m moves) events s)
    (hlawful : ∀ e ∈ s.2.hw.usb.history, e.Lawful) {ep : Endpoint} (hep : ep ≠ .control)
    {dir : Direction} {d : Dialogue} (hd : dialogue? ep dir s.2.hw.usb.history = some d) :
    InOrder (d.leftOver dir) d.passages ∧
      (InOrder none d.passages ↔ dir = .toDevice ∨ d.pending = none ∨ d.passages = []) := by
  obtain ⟨m', _, hfollows⟩ := h.keeps .rest rfl
  have hproper :=
    (fits_follows hfollows (Adapter.fits_ofMemory m) (fun _ h => by cases h) hlawful).2
  have hagrees : d.passages.foldlM Standing.pass ⟨d.leftOver dir, false⟩ =
      some (s.2.hw.usb.adapter.standing ep dir) :=
    agrees_follows hfollows hep hlawful hproper nofun d hd
  have horder : InOrder (d.leftOver dir) d.passages := by rw [InOrder, hagrees]; rfl
  refine ⟨horder, ?_⟩
  cases dir with
  | toDevice => simpa [Dialogue.leftOver] using horder
  | toHost =>
    simp only [Dialogue.leftOver] at horder
    cases hpending : d.pending with
    | none => simpa [hpending] using horder
    | some second =>
      rw [hpending] at horder
      simpa using inOrder_none_iff horder

/-! ## On the bench -/

section Bench

open Bench

theorem bulk_toggle_exact_request :
    (∀ e ∈ requestServed.2.hw.usb.history, e.Lawful) ∧
      dialogue? .flash .toDevice requestServed.2.hw.usb.history =
        some ⟨none, [.armed false, .exchanged false, .armed true]⟩ ∧
      InOrder none [.armed false, .exchanged false, .armed true] := by
  have hlawful : ∀ e ∈ requestServed.2.hw.usb.history, e.Lawful := by decide +kernel
  have hdialogue : dialogue? .flash .toDevice requestServed.2.hw.usb.history =
      some ⟨none, [.armed false, .exchanged false, .armed true]⟩ := by decide +kernel
  obtain ⟨events, hrun⟩ := operates_requestServed
  exact ⟨hlawful, hdialogue, (bulk_toggle_exact hrun hlawful (by decide) hdialogue).1⟩

/-- A request comes in, and is answered with ten actions.  Then the host clears the halt of the
endpoint in the direction to the host, which takes eight actions, and only then it asks for data. -/
def lateInMoves : List (Memory → Memory) :=
  requestMoves ++ .replicate 9 id ++
    [fun m => causes 16 (setupToken [0x02, 0x01, 0x00, 0x00, 0x81, 0x00, 0x00, 0x00] m)] ++
    .replicate 7 id ++ [fun m => causes 4 (inToken .flash m).2]

/-- The host has what it asked for. -/
def responseCollected : Station (Hardware Contended FlashBus PinRecord) :=
  interrupted 2 (poll (interrupted 1 (awaitingHandshake lateInMoves)))

/-- A response from before a halt was cleared is exchanged after that. -/
theorem stale_response_exchanged :
    (∃ events, Operates (Contended.start (.filled 0) (handshakeThen lateInMoves)) events
        responseCollected) ∧
      (∀ e ∈ responseCollected.2.hw.usb.history, e.Lawful) ∧
      dialogue? .flash .toHost responseCollected.2.hw.usb.history =
        some ⟨some false, [.exchanged false]⟩ ∧
      ¬InOrder none [.exchanged false] := by
  obtain ⟨events, hconfigured⟩ :=
    operates_interrupted (operates_awaitingHandshake lateInMoves) 1
  have hrun := operates_interrupted hconfigured.poll 2
  rw [← responseCollected] at hrun
  exact ⟨hrun, by decide +kernel, by decide +kernel, by decide⟩

end Bench

end FlashProgrammer.Rp2040

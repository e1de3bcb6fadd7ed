import FlashProgrammer.Proofs.Usb.RoutineActions

/-!
# The halts that are cleared

The controller is told to clear a halt only when the host asks for it.  `ShowsClears view` says that
`view` lists the halts that were cleared on some hardware.  What an operation adds to the list is
what the SETUP packets that it acted on name (`ShowsClears.run`), one for one and in order.
-/

namespace FlashProgrammer.Usb

/-- The halt that an action clears. -/
def Action.clear? : Action → Option (Endpoint × Direction)
  | clearStall ep dir => some (ep, dir)
  | _ => none

/-- The halt that a SETUP packet clears, if it is an accepted CLEAR_FEATURE. -/
def Setup.clear? (s : Setup) : Option (Endpoint × Direction) :=
  s.haltCommand?.bind fun c => if c.halts then none else some (c.endpoint, c.direction)

/-- The halt that is cleared when something happens to the control transfers. -/
def TransferEvent.clear? : TransferEvent → Option (Endpoint × Direction)
  | began s _ => s.clear?
  | _ => none

theorem HaltCommand.clear?_action (c : HaltCommand) :
    c.action.clear? = if c.halts then none else some (c.endpoint, c.direction) := by
  obtain ⟨ep, dir, halts⟩ := c
  cases halts <;> rfl

theorem Action.clear?_of_routine {a : Action} (ha : a.routine = true) : a.clear? = none := by
  cases a with
  | clearStall => cases ha
  | _ => rfl

variable {ω : Type} [Controller ω]

/-- A view of the hardware lists the halts that were cleared, oldest first. -/
def ShowsClears (view : ω → List (Endpoint × Direction)) : Prop :=
  ∀ a w, view (Controller.perform a w).2 = view w ++ a.clear?.toList

namespace ShowsClears

variable {view : ω → List (Endpoint × Direction)}

theorem perform (h : ShowsClears view) {a : Action} (ha : a.clear? = none) (w : ω) :
    view (Controller.perform a w).2 = view w := by
  rw [h, ha]
  exact List.append_nil _

theorem asks (h : ShowsClears view) {as : List Action} {w w' : ω} (hasks : Asks w as w') :
    view w' = view w ++ as.filterMap Action.clear? := by
  induction hasks with
  | refl => exact (List.append_nil _).symm
  | routine _ ha ih => rw [h.perform (Action.clear?_of_routine ha), ih]
  | asked _ a ih =>
    rw [h, ih, List.filterMap_append, List.append_assoc]
    cases hclear : a.clear? with
    | none => simp [hclear]
    | some e => simp [hclear]

theorem attends (h : ShowsClears view) {w w' : ω} (hattends : Attends w w') :
    view w' = view w := by
  induction hattends with
  | refl => rfl
  | @step w' _ a ha ih =>
    refine (h.perform ?_ w').trans ih
    cases a <;> first | rfl | cases ha

/-! ## Operations -/

/-- Serving endpoint 0 clears the halt that its SETUP packet names. -/
theorem serviceControl (h : ShowsClears view) (p : Link ω) :
    view p.serviceControl.hw = view p.hw ++ p.controlEvents.filterMap TransferEvent.clear? := by
  have hcaught : p.caughtEvents.filterMap TransferEvent.clear? = [] := by
    rcases p.caughtUp_cases with ⟨hevents, _⟩ | ⟨hevents, _⟩ | ⟨hevents, _⟩ <;>
      · rw [hevents]
        rfl
  rw [h.asks p.asks_serviceControl, Link.controlEvents, List.filterMap_append, hcaught,
    List.nil_append, Link.controlAsks, Link.takenEvents]
  congr 1
  cases p.takenSetup? with
  | none => rfl
  | some taken =>
    simp only [Option.bind_some, List.filterMap_cons, List.filterMap_nil, TransferEvent.clear?,
      Setup.clear?]
    cases taken.1.haltCommand? with
    | none => rfl
    | some c =>
      simp only [Option.map_some, Option.toList_some, List.filterMap_cons, List.filterMap_nil,
        Option.bind_some, c.clear?_action]

theorem onInterrupt (h : ShowsClears view) (p : Link ω) :
    view p.onInterrupt.hw = view p.hw ++ p.interruptEvents.filterMap TransferEvent.clear? := by
  rcases p.attends_onInterrupt with ⟨hattends, hevents⟩ | ⟨q, hattends, hserved, hevents⟩
  · rw [h.attends hattends]
    rcases hevents with hevents | hevents <;>
      · rw [hevents]
        exact (List.append_nil _).symm
  · rw [hserved, hevents, h.serviceControl, h.attends hattends]

/-- An operation clears the halts that the host asked for. -/
theorem run (h : ShowsClears view) {op : Operation ω} (hop : ∀ f, op ≠ .outside f) (p : Link ω) :
    view (op.run p).hw = view p.hw ++ (op.events p).filterMap TransferEvent.clear? := by
  cases op with
  | attach =>
    exact ((h.perform (a := .enableEvents _) rfl _).trans (h.perform (a := .connect) rfl p.hw)).trans
      (List.append_nil _).symm
  | detach =>
    exact ((h.perform (a := .enableEvents _) rfl _).trans
      (h.perform (a := .disconnect) rfl p.hw)).trans (List.append_nil _).symm
  | interrupt => exact h.onInterrupt p
  | takeWork => exact (List.append_nil _).symm
  | rxPending | readPacket | fill | write => exact h.asks (Operation.asks_bulk (by trivial) p)
  | stallEndpoint ep dir =>
    show view (p.stallEndpoint ep dir).hw = _
    rw [Link.stallEndpoint]
    split
    · exact (List.append_nil _).symm
    · next e _ => exact (h.perform (a := .stall e dir) rfl p.hw).trans (List.append_nil _).symm
  | outside f => exact absurd rfl (hop f)

end ShowsClears

end FlashProgrammer.Usb

import FlashProgrammer.Bench.FifoController
import FlashProgrammer.Proofs.Usb.AwaitingHandshake
import FlashProgrammer.Proofs.Usb.QueuedWork
import FlashProgrammer.Proofs.Usb.RoutineActions

/-!
# The halts of the endpoints

A halt is kept twice: the controller answers the host with a stall, and the device has a flag that
GET_STATUS reports and that keeps the main loop off the endpoint.

`haltHistory` is what bears on halts in a run.  Some of its events are commands to the controller.
A command changes both sides alike, and there are events at which the device takes its flags back
without a command.  `recorded` and `obeyed` are the two sides after one event, and
`halts_history` and `halted_history` say that a run leaves each side as its history does.
-/

namespace FlashProgrammer.Usb

/-! ## Events -/

/-- What bears on the halts of a device. -/
inductive HaltEvent where
  /-- The main loop halts an endpoint. -/
  | halted (ep : Endpoint) (dir : Direction)
  /-- Something happens to the control transfers. -/
  | transfer (e : TransferEvent)
deriving DecidableEq, Repr

/-- A halt after a command. -/
def HaltCommand.after (ep : Endpoint) (dir : Direction) (halted : Bool) (c : HaltCommand) : Bool :=
  if c.endpoint = ep ∧ c.direction = dir then c.halts else halted

namespace HaltEvent

/-- The halt that the controller is told to set or clear. -/
def command? : HaltEvent → Option HaltCommand
  | halted ep dir => some ⟨ep, dir, true⟩
  | transfer (.began s _) => s.haltCommand?
  | transfer _ => none

/-- The device takes the flags of an endpoint back and does not tell the controller. -/
def forgets (offered : UInt8) (ep : Endpoint) : HaltEvent → Bool
  | transfer .reset => true
  | transfer (.began s addressed) => ep = .flash && (s.choice? offered addressed).any (· != 0)
  | _ => false

/-- The halt of the controller after an event. -/
def obeyed (ep : Endpoint) (dir : Direction) (halted : Bool) (e : HaltEvent) : Bool :=
  e.command?.elim halted (HaltCommand.after ep dir halted)

/-- The flag of the device after an event. -/
def recorded (offered : UInt8) (ep : Endpoint) (dir : Direction) (flag : Bool) (e : HaltEvent) :
    Bool :=
  !e.forgets offered ep && e.obeyed ep dir flag

/-- A SETUP packet that neither names a halt nor chooses a configuration changes no flag. -/
theorem recorded_of_quiet {s : Setup} {offered : UInt8} {addressed : Bool}
    (hcommand : s.haltCommand? = none) (hchoice : s.choice? offered addressed = none)
    (ep : Endpoint) (dir : Direction) (flag : Bool) :
    recorded offered ep dir flag (.transfer (.began s addressed)) = flag := by
  simp [recorded, obeyed, forgets, command?, hcommand, hchoice]

/-- No command takes flags back as well. -/
theorem forgets_of_command? {ep : Endpoint} {e : HaltEvent} {c : HaltCommand}
    (h : e.command? = some c) (offered : UInt8) : e.forgets offered ep = false := by
  cases e with
  | halted => rfl
  | transfer e =>
    cases e with
    | reset | cut | completed => cases h
    | began s addressed =>
      have hnone : s.choice? offered addressed = none := by
        refine Setup.choice?_of_not fun hset => ?_
        have hother : s.haltCommand? = none := Setup.haltCommand?_of_not (by simp [hset.2.2])
        cases hother.symm.trans h
      simp [forgets, hnone]

end HaltEvent

/-- The flags that a device keeps. -/
def Device.halts (d : Device) : Endpoint → Direction → Bool :=
  fun ep dir => (d.endpoints.get ep dir).stalled

namespace Link

variable {ω : Type} [Controller ω]

/-! ## Flags -/

omit [Controller ω] in
/-- A record that is written without its flag leaves the flags alone. -/
theorem halts_setStatus {f : EndpointStatus → EndpointStatus}
    (h : ∀ s, (f s).stalled = s.stalled) (ep : Endpoint) (dir : Direction) (p : Link ω) :
    (p.setStatus ep dir f).device.halts = p.device.halts := by
  funext ep' dir'
  simp only [Device.halts, setStatus, PerDirection.get_modify]
  split
  · next hsame =>
    obtain ⟨rfl, rfl⟩ := hsame
    exact h _
  · rfl

omit [Controller ω] in
theorem halts_abortControl (p : Link ω) : p.abortControl.device.halts = p.device.halts := by
  have hfinish : ∀ s : EndpointStatus, s.finish.stalled = s.stalled := fun _ => rfl
  exact (halts_setStatus hfinish .control .toHost (p.setStatus .control .toDevice .finish)).trans
    (halts_setStatus hfinish .control .toDevice p)

theorem halts_stallControl (p : Link ω) : p.stallControl.device.halts = p.device.halts :=
  halts_abortControl (p.tell (.stall .control .toHost))

theorem halts_continueIn (p : Link ω) : p.continueIn.device.halts = p.device.halts := by
  rw [continueIn_eq]
  split
  · rfl
  · rw [sendNext, Device.advanced]
    split
    · refine halts_setStatus ?_ .control .toHost p
      exact fun _ => rfl
    · refine halts_setStatus ?_ .control .toHost p
      exact fun _ => rfl

theorem halts_dataOutComplete (p : Link ω) : p.dataOutComplete.device.halts = p.device.halts := by
  have hcounted : (p.setStatus .control .toDevice fun s =>
      { s with count := 0 }).device.halts = p.device.halts := by
    refine halts_setStatus ?_ .control .toDevice p
    exact fun _ => rfl
  rw [dataOutComplete]
  simp only
  split
  · rw [halts_stallControl, hcounted]
  · exact hcounted

theorem halts_continueOut (p : Link ω) : p.continueOut.device.halts = p.device.halts := by
  have hcounted : (p.ask (.rxReady .control)).2.counted.2.device = p.device := rfl
  rw [continueOut_eq]
  split
  · generalize (p.ask (.rxReady .control)).2.counted = counted at hcounted ⊢
    obtain ⟨n, q⟩ := counted
    have hreceived : (q.receiveNext n).device.halts = p.device.halts := by
      rw [← hcounted]
      refine halts_setStatus ?_ .control .toDevice q
      exact fun _ => rfl
    simp only
    split
    · rw [halts_dataOutComplete, hreceived]
    · exact hreceived
  · rfl

/-! ### Requests -/

/-- A halt that is set or cleared is recorded as the command says. -/
theorem halts_obey (c : HaltCommand) (p : Link ω) (ep : Endpoint) (dir : Direction) :
    (p.obey c).device.halts ep dir = c.after ep dir (p.device.halts ep dir) := by
  have hwritten : ∀ f : EndpointStatus → EndpointStatus, (∀ s, (f s).stalled = c.halts) →
      (p.setStatus c.endpoint c.direction f).device.halts ep dir =
        c.after ep dir (p.device.halts ep dir) := by
    intro f hf
    simp only [Device.halts, setStatus, PerDirection.get_modify, HaltCommand.after]
    split
    · exact hf _
    · rfl
  rw [obey]
  cases hhalts : c.halts with
  | true => exact hwritten (fun s => { s.finish with stalled := true }) fun _ => hhalts.symm
  | false => exact hwritten (fun s => { s with stalled := false }) fun _ => hhalts.symm

omit [Controller ω] in
/-- Choosing a configuration takes the flags of the flash endpoint back. -/
theorem halts_setConfiguration {s : Setup} (hkind : s.kind = .standard)
    (hrequest : StandardRequest.ofByte? s.request = some .setConfiguration)
    (hrecipient : s.recipient = .device) (p : Link ω) (ep : Endpoint) (dir : Direction) :
    (p.setConfiguration s.value).2.device.halts ep dir =
      HaltEvent.recorded p.device.descriptors.configurationValue ep dir (p.device.halts ep dir)
        (.transfer (.began s true)) := by
  have hnone : s.haltCommand? = none := Setup.haltCommand?_of_not (by simp [hrecipient])
  have hchoice : s.choice? p.device.descriptors.configurationValue true =
      if s.value = 0 then some 0
      else if s.value.toNat = p.device.descriptors.configurationValue.toNat then
        some p.device.descriptors.configurationValue
      else none := if_pos ⟨hkind, hrequest, hrecipient, rfl⟩
  simp only [HaltEvent.recorded, HaltEvent.obeyed, HaltEvent.forgets, HaltEvent.command?, hnone,
    hchoice, setConfiguration, Option.elim_none]
  by_cases hzero : s.value = 0
  · simp [hzero, Device.halts]
  · rw [if_neg hzero, if_neg hzero]
    by_cases hoffered : s.value.toNat = p.device.descriptors.configurationValue.toNat
    · have hchosen : p.device.descriptors.configurationValue ≠ 0 := by
        intro hnothing
        rw [hnothing] at hoffered
        exact hzero (UInt16.toNat_inj.mp hoffered)
      rw [if_pos hoffered, if_pos hoffered]
      by_cases hflash : ep = .flash
      · subst hflash
        cases dir <;> simp [Device.halts, setStatus, PerDirection.get_modify, hchosen]
      · simp [Device.halts, setStatus, PerDirection.get_modify, hflash, Ne.symm hflash]
    · rw [if_neg hoffered, if_neg hoffered]
      simp

/-- A request changes the flags as its SETUP packet says. -/
theorem halts_standardRequest {s : Setup} (hkind : s.kind = .standard) (p : Link ω)
    (ep : Endpoint) (dir : Direction) :
    (p.standardRequest s).2.device.halts ep dir =
      HaltEvent.recorded p.device.descriptors.configurationValue ep dir (p.device.halts ep dir)
        (.transfer (.began s (decide (Lifecycle.addressed ≤ p.device.lifecycle)))) := by
  rcases standardRequest_cases hkind p with ⟨c, hcommand, hobeyed⟩ |
      ⟨hrequest, hrecipient, haddressed, hchosen⟩ | ⟨hcommand, hchoice, _, hsame⟩
  · have hevent : HaltEvent.command? (.transfer (.began s
        (decide (Lifecycle.addressed ≤ p.device.lifecycle)))) = some c := hcommand
    rw [hobeyed, halts_obey, HaltEvent.recorded, HaltEvent.forgets_of_command? hevent,
      HaltEvent.obeyed, hevent]
    rfl
  · rw [hchosen, decide_eq_true haddressed]
    exact halts_setConfiguration hkind hrequest hrecipient p ep dir
  · rw [HaltEvent.recorded_of_quiet hcommand (hchoice _)]
    exact congrArg (fun t => (PerDirection.get t ep dir).stalled) hsame

theorem halts_carryOut (s : Setup) (reply : ControlReply) (p : Link ω) :
    (p.carryOut s reply).device.halts = p.device.halts := by
  cases reply with
  | noData => rfl
  | stall => exact halts_stallControl (p.tell (.rxDone .control true))
  | data payload =>
    rw [carryOut_data]
    split
    · rfl
    · rw [halts_continueIn]
      refine halts_setStatus ?_ .control .toHost (p.tell (.rxDone .control false))
      exact fun _ => rfl
  | receive =>
    rw [carryOut_receive]
    split
    · exact halts_dataOutComplete (p.tell (.rxDone .control true))
    · refine halts_setStatus ?_ .control .toDevice (p.tell (.rxDone .control false))
      exact fun _ => rfl

/-- Acting on a SETUP packet changes the flags as it says. -/
theorem halts_handleSetup (s : Setup) (p : Link ω) (ep : Endpoint) (dir : Direction) :
    (p.handleSetup s).device.halts ep dir =
      HaltEvent.recorded p.device.descriptors.configurationValue ep dir (p.device.halts ep dir)
        (.transfer (.began s (decide (Lifecycle.addressed ≤ p.device.lifecycle)))) := by
  rw [handleSetup]
  by_cases hkind : s.kind = .standard
  · have hanswered := halts_standardRequest hkind { p with device.setup := some s } ep dir
    simp only [hkind, halts_carryOut]
    exact hanswered
  · have hcommand : s.haltCommand? = none := Setup.haltCommand?_of_not fun h => hkind h.1
    have hchoice : ∀ offered addressed, s.choice? offered addressed = none :=
      fun _ _ => Setup.choice?_of_not fun h => hkind h.1
    rw [HaltEvent.recorded_of_quiet hcommand (hchoice _ _)]
    have hrefused := congrFun (congrFun
      (halts_carryOut s .stall ({ p with device.setup := some s } : Link ω)) ep) dir
    cases hk : s.kind with
    | standard => exact absurd hk hkind
    | deviceClass | vendor | reserved => exact hrefused

/-! ### Endpoint 0 -/

theorem halts_completeStatus (p : Link ω) : p.completeStatus.device.halts = p.device.halts := by
  have hone : ∀ e (q : Link ω), (armEndpoint q e).device.halts = q.device.halts := by
    intro e q
    rw [armEndpoint]
    split
    · refine halts_setStatus ?_ e.1 e.2 q
      exact fun _ => rfl
    · rfl
  have harm : ∀ q : Link ω,
      (bulkEndpoints.foldl armEndpoint q).device.halts = q.device.halts :=
    armEndpoints_same (f := fun q => q.device.halts) hone bulkEndpoints
  have haddress : p.takeAddress.settleConfiguration.device.halts = p.device.halts := by
    rw [settleConfiguration, takeAddress]
    cases p.device.pendingAddress <;> (simp only; split <;> rfl)
  have hdone : ∀ q : Link ω,
      { q.device with stage := .idle, setup := none }.halts = q.device.halts := fun _ => rfl
  rw [completeStatus]
  simp only [hdone, harm, haddress]

theorem halts_caughtUp (p : Link ω) : p.caughtUp.device.halts = p.device.halts := by
  rcases p.caughtUp_cases with ⟨_, hcaught⟩ | ⟨_, _, hcaught⟩ | ⟨_, _, hcaught⟩
  · rw [hcaught]
    exact halts_abortControl (p.ask .controlEvents).2
  · rw [hcaught]
    exact halts_completeStatus (p.ask .controlEvents).2
  · rw [hcaught]
    rfl

omit [Controller ω] in
theorem halts_notes (works : List Work) (p : Link ω) :
    (works.foldl note p).device.halts = p.device.halts := by
  obtain ⟨current, queue, hnoted⟩ := exists_notes works p
  rw [hnoted]
  rfl

/-- What was latched about endpoint 0 is no event of a halt. -/
theorem foldl_caughtEvents {f : Bool → HaltEvent → Bool}
    (hcut : ∀ x, f x (.transfer .cut) = x) (hcompleted : ∀ x, f x (.transfer .completed) = x)
    (p : Link ω) (x : Bool) : (p.caughtEvents.map .transfer).foldl f x = x := by
  rcases p.caughtUp_cases with ⟨hevents, _⟩ | ⟨hevents, _⟩ | ⟨hevents, _⟩
  · rw [hevents]
    exact hcut x
  · rw [hevents]
    exact hcompleted x
  · rw [hevents]
    rfl

/-- Serving endpoint 0 changes the flags as its events say. -/
theorem halts_serviceControl (p : Link ω) (ep : Endpoint) (dir : Direction) :
    p.serviceControl.device.halts ep dir =
      (p.controlEvents.map .transfer).foldl
        (HaltEvent.recorded p.device.descriptors.configurationValue ep dir)
        (p.device.halts ep dir) := by
  have hquiet := foldl_caughtEvents
    (f := HaltEvent.recorded p.device.descriptors.configurationValue ep dir)
    (fun _ => rfl) (fun _ => rfl) p (p.device.halts ep dir)
  rw [controlEvents, List.map_append, List.foldl_append, hquiet, takenEvents, ← p.halts_caughtUp]
  rcases p.serviceControl_shapes with ⟨_, htaken, hserved⟩ | ⟨_, htaken, hserved⟩ |
      ⟨_, htaken, hserved | hserved⟩ | ⟨_, s, q, htaken, hoffered, hserved⟩
  · rw [htaken, hserved, halts_continueIn]
    rfl
  · rw [htaken, hserved, halts_continueOut]
    rfl
  · rw [htaken, hserved]
    rfl
  · rw [htaken, hserved, halts_stallControl]
    rfl
  · have hdevice : q.device = p.caughtUp.device :=
      device_offered (p := (p.caughtUp.ask (.rxReady .control)).2) hoffered
    have hdescriptors : q.device.descriptors = p.device.descriptors := by
      rw [hdevice]
      exact congrArg Aside.descriptors p.aside_caughtUp
    rw [htaken, hserved, halts_handleSetup, hdescriptors, ← hdevice]
    rfl

theorem halts_roused (p : Link ω) : p.roused.2.device.halts = p.device.halts := by
  have hdevice := (talks_ask .interrupts p).device_eq
  rw [roused, ← hdevice]
  generalize p.ask .interrupts = asked
  obtain ⟨status, q⟩ := asked
  simp only [powerUp]
  split <;> split <;> rfl

theorem halts_dozed (p : Link ω) : p.dozed.device.halts = p.device.halts := by
  rw [← p.halts_roused, dozed]
  split <;> rfl

omit [Controller ω] in
theorem halts_resetTransfers (p : Link ω) (ep : Endpoint) (dir : Direction) :
    p.resetTransfers.device.halts ep dir = false := by
  simp [Device.halts, resetTransfers, Device.resetTransfers]

/-- An interrupt changes the flags as its events say. -/
theorem halts_onInterrupt (p : Link ω) (ep : Endpoint) (dir : Direction) :
    p.onInterrupt.device.halts ep dir =
      (p.interruptEvents.map .transfer).foldl
        (HaltEvent.recorded p.device.descriptors.configurationValue ep dir)
        (p.device.halts ep dir) := by
  rcases p.onInterrupt_cases with ⟨_, _, hevents, hserved⟩ | ⟨_, _, hevents, hserved⟩ |
      ⟨_, _, hevents, q, works, hq, hserved⟩ | ⟨q, works, _, _, _, hq, hevents, hserved⟩
  · rw [hevents, hserved]
    exact halts_resetTransfers (p.ask .interrupts).2 ep dir
  · rw [hevents, hserved]
    exact halts_resetTransfers p.roused.2 ep dir
  · rw [hevents, hserved, halts_notes]
    rcases hq with rfl | rfl
    · rw [halts_roused]
      rfl
    · rw [halts_dozed]
      rfl
  · have hdescriptors : q.device.descriptors.configurationValue =
        p.device.descriptors.configurationValue := by
      rw [hq]
      exact (congrArg Progress.offered
        ((progress_dozed p.roused.1.bus.suspend p.roused.2).1.trans p.progress_roused.1))
    have hhalts : q.device.halts = p.device.halts := by
      rw [hq]
      exact halts_dozed p
    rw [hevents, hserved, halts_notes, halts_serviceControl, hdescriptors, hhalts]

end Link

/-! ## The controller -/

section Controller

open Bench

/-- The halt of an endpoint after an action. -/
def Action.halting (ep : Endpoint) (dir : Direction) (halted : Bool) : Action → Bool
  | stall ep' dir' => if ep' = ep ∧ dir' = dir then true else halted
  | clearStall ep' dir' => if ep' = ep ∧ dir' = dir then false else halted
  | _ => halted

theorem HaltCommand.halting_action (c : HaltCommand) (ep : Endpoint) (dir : Direction)
    (halted : Bool) : c.action.halting ep dir halted = c.after ep dir halted := by
  obtain ⟨ep', dir', halts⟩ := c
  cases halts <;> rfl

/-- The controller halts an endpoint when it is told to, and no sooner gives it free. -/
theorem halted_perform (ep : Endpoint) (dir : Direction) (a : Action) (c : FifoController) :
    (Controller.perform a c).2.halted.get ep dir = a.halting ep dir (c.halted.get ep dir) := by
  cases a with
  | stall ep' dir' => exact PerDirection.get_set c.halted ep' ep dir' dir true
  | clearStall ep' dir' =>
    have hcleared : (c.clearStall ep' dir').halted = c.halted.set ep' dir' false := by
      cases dir' <;> rfl
    show (c.clearStall ep' dir').halted.get ep dir = _
    rw [hcleared, PerDirection.get_set]
    rfl
  | _ => rfl

/-- The halt of a bulk endpoint is none of the routine's business. -/
theorem halted_asks {ep : Endpoint} (hep : ep ≠ .control) (dir : Direction) {as : List Action}
    {c c' : FifoController} (h : Asks c as c') :
    c'.halted.get ep dir = as.foldl (Action.halting ep dir) (c.halted.get ep dir) := by
  refine h.view_eq (fun c => c.halted.get ep dir) (halted_perform ep dir) ?_
  intro a ha halted
  cases a with
  | stall ep' dir' =>
    have hcontrol : ep' = .control := of_decide_eq_true ha
    exact if_neg fun hsame => hep (hsame.1.symm.trans hcontrol)
  | enableEvents | clearStall => cases ha
  | _ => rfl

namespace Link

variable {ep : Endpoint} {dir : Direction}

/-- Serving endpoint 0 halts and frees the bulk endpoints as its events say. -/
theorem halted_serviceControl (hep : ep ≠ .control) (p : Link FifoController) :
    p.serviceControl.hw.halted.get ep dir =
      (p.controlEvents.map .transfer).foldl (HaltEvent.obeyed ep dir)
        (p.hw.halted.get ep dir) := by
  have hquiet := foldl_caughtEvents (f := HaltEvent.obeyed ep dir) (fun _ => rfl) (fun _ => rfl) p
    (p.hw.halted.get ep dir)
  rw [halted_asks hep dir p.asks_serviceControl, controlEvents, List.map_append, List.foldl_append,
    hquiet, controlAsks, takenEvents]
  cases p.takenSetup? with
  | none => rfl
  | some taken =>
    have hobeyed : ∀ x, HaltEvent.obeyed ep dir x (.transfer (.began taken.1
        (decide (Lifecycle.addressed ≤ taken.2.device.lifecycle)))) =
        taken.1.haltCommand?.elim x (HaltCommand.after ep dir x) := fun _ => rfl
    simp only [Option.bind_some, List.map_cons, List.map_nil, List.foldl_cons, List.foldl_nil,
      hobeyed]
    cases taken.1.haltCommand? with
    | none => rfl
    | some c => exact c.halting_action ep dir _

theorem halted_onInterrupt (hep : ep ≠ .control) (p : Link FifoController) :
    p.onInterrupt.hw.halted.get ep dir =
      (p.interruptEvents.map .transfer).foldl (HaltEvent.obeyed ep dir)
        (p.hw.halted.get ep dir) := by
  have hroused : p.roused.2.hw.halted = p.hw.halted := by
    simp only [roused, powerUp]
    split <;> split <;> rfl
  have hdozed : p.dozed.hw.halted = p.hw.halted := by
    rw [dozed, ← hroused]
    split <;> rfl
  have hnotes : ∀ (works : List Work) (q : Link FifoController),
      (works.foldl note q).hw = q.hw := by
    intro works q
    obtain ⟨current, queue, hnoted⟩ := exists_notes works q
    rw [hnoted]
  rcases p.onInterrupt_cases with ⟨_, _, hevents, hserved⟩ | ⟨_, _, hevents, hserved⟩ |
      ⟨_, _, hevents, q, works, hq, hserved⟩ | ⟨q, works, _, _, _, hq, hevents, hserved⟩
  · rw [hevents, hserved]
    rfl
  · rw [hevents, hserved, ← hroused]
    rfl
  · rw [hevents, hserved, hnotes]
    rcases hq with rfl | rfl
    · rw [hroused]
      rfl
    · rw [hdozed]
      rfl
  · have hsame : q.hw.halted = p.hw.halted := by
      rw [hq]
      exact hdozed
    rw [hevents, hserved, hnotes, halted_serviceControl hep, hsame]

end Link

end Controller

/-! ## Runs -/

namespace Operation

/-- What an operation does to halts. -/
def haltEvents {ω : Type} [Controller ω] (op : Operation ω) (p : Link ω) : List HaltEvent :=
  match op with
  | stallEndpoint ep dir => ((Endpoint.ofByte? ep).map fun e => .halted e dir).toList
  | _ => (op.events p).map .transfer

/-- What some operations do to halts. -/
def haltHistory {ω : Type} [Controller ω] : List (Operation ω) → Link ω → List HaltEvent
  | [], _ => []
  | op :: ops, p => op.haltEvents p ++ haltHistory ops (op.run p)

section Flags

variable {ω : Type} [Controller ω] {p : Link ω}

theorem halts_run (op : Operation ω) (p : Link ω) (ep : Endpoint) (dir : Direction) :
    (op.run p).device.halts ep dir =
      (op.haltEvents p).foldl
        (HaltEvent.recorded p.device.descriptors.configurationValue ep dir)
        (p.device.halts ep dir) := by
  cases op with
  | attach | takeWork | outside => rfl
  | detach => exact Link.halts_resetTransfers p ep dir
  | interrupt => exact p.halts_onInterrupt ep dir
  | rxPending | readPacket | fill | write =>
    exact congrArg (fun d : Device => d.halts ep dir) (talks_run (by trivial) p).device_eq
  | stallEndpoint ep' dir' =>
    show (p.stallEndpoint ep' dir').device.halts ep dir = _
    rw [Link.stallEndpoint, haltEvents]
    cases Endpoint.ofByte? ep' with
    | none => rfl
    | some e => exact Link.halts_obey ⟨e, dir', true⟩ p ep dir

/-- After a run the flags are what its history makes of them. -/
theorem halts_history (ops : List (Operation ω)) {offered : UInt8} {past : List TransferEvent}
    (h : Recorded offered past p.device.progress) (ep : Endpoint) (dir : Direction) :
    (runAll ops p).device.halts ep dir =
      (haltHistory ops p).foldl (HaltEvent.recorded offered ep dir) (p.device.halts ep dir) := by
  induction ops generalizing past p with
  | nil => rfl
  | cons op ops ih =>
    have hoffered : p.device.descriptors.configurationValue = offered := h.offered_eq
    rw [haltHistory, List.foldl_append, ← hoffered, ← halts_run, hoffered]
    exact ih (op.recorded h)

end Flags

section Halts

open Bench

/-- What the hardware does by itself halts no endpoint and frees none. -/
def SparesHalts : Operation FifoController → Prop
  | outside f => ∀ c, (f c).halted = c.halted
  | _ => True

@[simp] theorem halted_raise (s : InterruptStatus) (c : FifoController) :
    (Driven.raise s c).halted = c.halted := rfl

@[simp] theorem halted_deliver (ep : Endpoint) (packet : List UInt8) (c : FifoController) :
    (Driven.deliver ep packet c).halted = c.halted := rfl

variable {ep : Endpoint} {dir : Direction}

theorem halted_run (hep : ep ≠ .control) {op : Operation FifoController} (hspares : op.SparesHalts)
    (p : Link FifoController) :
    (op.run p).hw.halted.get ep dir =
      (op.haltEvents p).foldl (HaltEvent.obeyed ep dir) (p.hw.halted.get ep dir) := by
  have hbulk : op.MovesBulk → (op.run p).hw.halted.get ep dir = p.hw.halted.get ep dir :=
    fun hmoves => halted_asks hep dir (asks_bulk hmoves p)
  cases op with
  | attach | detach | takeWork => rfl
  | interrupt => exact p.halted_onInterrupt hep
  | rxPending | readPacket | fill | write => exact hbulk trivial
  | stallEndpoint ep' dir' =>
    show (p.stallEndpoint ep' dir').hw.halted.get ep dir = _
    rw [Link.stallEndpoint, haltEvents]
    cases Endpoint.ofByte? ep' with
    | none => rfl
    | some e => exact halted_perform ep dir (.stall e dir') p.hw
  | outside f => exact congrArg (fun t => PerDirection.get t ep dir) (hspares p.hw)

/-- After a run the controller halts what its history makes it halt. -/
theorem halted_history (hep : ep ≠ .control) {ops : List (Operation FifoController)}
    (hspares : ∀ op ∈ ops, op.SparesHalts) (p : Link FifoController) :
    (runAll ops p).hw.halted.get ep dir =
      (haltHistory ops p).foldl (HaltEvent.obeyed ep dir) (p.hw.halted.get ep dir) := by
  induction ops generalizing p with
  | nil => rfl
  | cons op ops ih =>
    obtain ⟨hop, hops⟩ := List.forall_mem_cons.mp hspares
    rw [haltHistory, List.foldl_append, ← halted_run hep hop]
    exact ih hops (op.run p)

end Halts

end Operation

end FlashProgrammer.Usb

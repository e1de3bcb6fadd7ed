import FlashProgrammer.Proofs.Usb.NotableActions
import FlashProgrammer.Proofs.Usb.RoutineActions

/-!
# Refused requests

A request is refused by a stall of endpoint 0, and then it should leave no trace.  Most are refused
when their SETUP packet is acted on.  New descriptors are refused only once the host has sent them
all.

`standardRequest_outcome` is why: whatever arm of a request ends in a refusal, it has changed
nothing before.  `Draws` relates two links between which packets of endpoint 0 were taken and
nothing else changed but the transfer.  A refusal is a link that has drawn all its packets and is
then stalled, and `Operation.course_runAll` follows a request until it comes to that.
-/

namespace FlashProgrammer.Usb

open Trace

/-! ## The actions of a refusal -/

/-- An action that reads what happened, or takes a packet of endpoint 0. -/
def Action.takesControl : Action → Bool
  | interrupts | controlEvents => true
  | rxReady ep | rxCount ep | fifoRead ep _ | rxDone ep _ => ep = .control
  | _ => false

/-- An action that refuses a request. -/
def Action.refuses : Action → Bool
  | stall ep dir => ep = .control && dir = .toHost
  | _ => false

theorem Action.eq_of_refuses {a : Action} (h : a.refuses = true) :
    a = .stall .control .toHost := by
  cases a with
  | stall ep dir =>
    simp only [refuses, Bool.and_eq_true, decide_eq_true_eq] at h
    rw [h.1, h.2]
  | _ => cases h

/-- An interrupt reports something to do on endpoint 0 and nothing else. -/
def InterruptStatus.OnlyControl (s : InterruptStatus) : Prop :=
  s.bus = {} ∧ s.pending 0 = true ∧ Link.bulkWork s = []

instance (s : InterruptStatus) : Decidable s.OnlyControl := inferInstanceAs (Decidable (_ ∧ _ ∧ _))

end FlashProgrammer.Usb

namespace FlashProgrammer.Trace

open Usb

/-- The controller had a packet of endpoint 0. -/
def Event.offers : Event → Bool
  | .usb (.rxReady ep) ready => ep = .control && ready
  | _ => false

/-- The controller was told that a packet of endpoint 0 has been taken. -/
def Event.releases : Event → Bool
  | .usb (.rxDone ep _) _ => ep = .control
  | _ => false

variable {ω : Type}

/-- Between two moments the controller had so many packets of endpoint 0, so many were released, and
nothing else was asked but what happened. -/
def Takes (offered released : Nat) (w w' : Traced ω) : Prop :=
  ∃ es, w'.events = w.events ++ es ∧ es.countP Event.offers = offered ∧
    es.countP Event.releases = released ∧ ∀ a ∈ controllerActions es, a.takesControl = true

theorem takes_refl (w : Traced ω) : Takes 0 0 w w :=
  ⟨[], (List.append_nil _).symm, rfl, rfl, List.forall_mem_nil _⟩

theorem Takes.trans {n m n' m' : Nat} {u v w : Traced ω} (huv : Takes n m u v)
    (hvw : Takes n' m' v w) : Takes (n + n') (m + m') u w := by
  obtain ⟨es, hes, hoffered, hreleased, htakes⟩ := huv
  obtain ⟨es', hes', hoffered', hreleased', htakes'⟩ := hvw
  refine ⟨es ++ es', by rw [hes', hes, List.append_assoc], ?_, ?_, ?_⟩
  · rw [List.countP_append, hoffered, hoffered']
  · rw [List.countP_append, hreleased, hreleased']
  · rw [controllerActions, List.filterMap_append]
    exact List.forall_mem_append.mpr ⟨htakes, htakes'⟩

/-- Each packet was released, in a trace that began when nothing was remembered. -/
theorem Takes.balanced {n : Nat} {w w' : Traced ω} (h : Takes n n w w') (hfresh : w.events = []) :
    w'.events.countP Event.releases = w'.events.countP Event.offers := by
  obtain ⟨es, hes, hoffered, hreleased, _⟩ := h
  rw [hes, hfresh, List.nil_append, hoffered, hreleased]

/-- Nothing of this is a refusal. -/
theorem Takes.unrefused {n m : Nat} {w w' : Traced ω} (h : Takes n m w w') :
    Sees Usb.Action.refuses [] w w' := by
  obtain ⟨es, hes, _, _, htakes⟩ := h
  have hnone : (controllerActions es).filter Usb.Action.refuses = [] := by
    refine List.filter_eq_nil_iff.mpr fun a ha => ?_
    have htaken := htakes a ha
    cases a <;> first | exact Bool.false_ne_true | cases htaken
  rw [Sees, hes, controllerActions, List.filterMap_append, List.filter_append]
  exact congrArg _ hnone

section Actions

variable [Controller ω]

theorem takes_perform {a : Usb.Action} (ha : a.takesControl = true) (w : Traced ω) :
    Takes ([Event.usb a (Controller.perform a w.hw).1].countP Event.offers)
      ([Event.usb a (Controller.perform a w.hw).1].countP Event.releases) w
      (Controller.perform a w).2 :=
  ⟨[.usb a (Controller.perform a w.hw).1], rfl, rfl, rfl, List.forall_mem_singleton.mpr ha⟩

theorem takes_readFifo (n : Nat) (w : Traced ω) : Takes 0 0 w (readFifo .control n w).2 := by
  have hread : UsedFor (fun a => ∃ width, a = .fifoRead .control width) w
      (readFifo .control n w).2 := usedFor_readFifo (fun width => ⟨width, rfl⟩) n w
  refine hread.relates takes_refl Takes.trans ?_
  rintro _ ⟨width, rfl⟩ w
  exact takes_perform (a := .fifoRead .control width) rfl w

end Actions

end FlashProgrammer.Trace

namespace FlashProgrammer.Usb

open Trace

/-! ## The device apart from its control transfer -/

namespace Device

/-- Moving data on endpoint 0 is forgotten then. -/
theorem abortControl_modify (f : EndpointStatus → EndpointStatus)
    (hf : ∀ s, (f s).finish = s.finish) (dir : Direction) (d : Device) :
    { d with endpoints := d.endpoints.modify .control dir f }.abortControl = d.abortControl := by
  have hsame : (((d.endpoints.modify .control dir f).modify .control .toDevice
        EndpointStatus.finish).modify .control .toHost EndpointStatus.finish) =
      ((d.endpoints.modify .control .toDevice EndpointStatus.finish).modify .control .toHost
        EndpointStatus.finish) := by
    refine PerDirection.ext_get fun ep dir' => ?_
    simp only [PerDirection.get_modify]
    cases dir <;> cases dir' <;> by_cases hep : Endpoint.control = ep <;> simp [hep, hf]
  simp only [abortControl, hsame]

theorem abortControl_abortControl (d : Device) :
    d.abortControl.abortControl = d.abortControl := by
  have hfinish : ∀ s : EndpointStatus, s.finish.finish = s.finish := fun _ => rfl
  have hout := abortControl_modify _ hfinish .toDevice d
  have hin := abortControl_modify _ hfinish .toHost
    { d with endpoints := d.endpoints.modify .control .toDevice EndpointStatus.finish }
  exact hin.trans hout

/-- Only endpoint 0 forgets what it moved. -/
theorem get_abortControl (d : Device) (ep : Endpoint) (dir : Direction) :
    d.abortControl.endpoints.get ep dir =
      if ep = .control then (d.endpoints.get ep dir).finish else d.endpoints.get ep dir := by
  simp only [abortControl, PerDirection.get_modify]
  by_cases hep : ep = .control
  · subst hep
    cases dir <;> simp
  · have hother : Endpoint.control ≠ ep := fun heq => hep heq.symm
    simp [hep, hother]

end Device

/-- A request is carried out, with data for the host or with none. -/
def ControlReply.accepts : ControlReply → Bool
  | .data _ | .noData => true
  | .receive | .stall => false

namespace Link

variable {ω : Type} [Controller ω]

/-! ## Requests -/

/-- A request is refused with nothing changed, or it is one for new descriptors and nothing has
changed, or it is accepted. -/
theorem standardRequest_outcome (s : Setup) (p : Link ω) :
    p.standardRequest s = (.stall, p) ∨
    (p.standardRequest s = (.receive, p) ∧
      StandardRequest.ofByte? s.request = some .setDescriptor) ∨
    (p.standardRequest s).1.accepts = true := by
  rw [standardRequest]
  simp only [setConfiguration]
  repeat' split
  all_goals first
    | exact .inl rfl
    | exact .inr (.inl ⟨rfl, ‹_›⟩)
    | exact .inr (.inr rfl)

/-- Only a halt is told to the controller, and never that of endpoint 0. -/
theorem unrefused_standardRequest {s : Setup} (hkind : s.kind = .standard)
    (p : Link (Traced ω)) : Sees Action.refuses [] p.hw (p.standardRequest s).2.hw := by
  rcases standardRequest_cases hkind p with ⟨c, hcommand, hobeyed⟩ | ⟨_, _, _, hconfigured⟩ |
      ⟨_, _, hsame, _⟩
  · have hspares : c.action.refuses = false := by
      rw [Setup.haltCommand?] at hcommand
      repeat' split at hcommand
      all_goals cases hcommand
      · rfl
      · next hep => simp [HaltCommand.action, Action.refuses, hep]
    rw [hobeyed, hw_obey]
    exact unseen_perform hspares p.hw
  · rw [hconfigured, hw_setConfiguration]
    exact sees_refl p.hw
  · rw [hsame]
    exact sees_refl p.hw

theorem unrefused_continueIn (p : Link (Traced ω)) :
    Sees Action.refuses [] p.hw p.continueIn.hw := by
  have hask : Sees Action.refuses [] p.hw (p.ask (.txBusy .control)).2.hw :=
    unseen_perform (a := .txBusy .control) rfl p.hw
  rw [continueIn_eq]
  generalize p.ask (.txBusy .control) = asked at hask ⊢
  obtain ⟨_ | _, q⟩ := asked
  · have hbytes : ∀ width value, (Action.fifoWrite .control width value).refuses = false :=
      fun _ _ => rfl
    have hwritten : Sees Action.refuses [] q.hw (writeFifo .control q.device.nextPacket q.hw) :=
      sees_writeFifo hbytes q.device.nextPacket q.hw
    exact (hask.trans hwritten).trans (unseen_perform (a := .txReady .control _) rfl _)
  · exact hask

theorem stage_continueIn {p : Link ω} (h : p.device.stage ≠ .dataOut) :
    p.continueIn.device.stage ≠ .dataOut := by
  have hdevice := (talks_ask (.txBusy .control) p).device_eq
  rw [continueIn_eq]
  rw [← hdevice] at h
  generalize p.ask (.txBusy .control) = asked at h ⊢
  obtain ⟨_ | _, q⟩ := asked
  · show q.device.advanced.stage ≠ .dataOut
    rw [Device.advanced]
    split
    · exact nofun
    · exact h
  · exact h

/-! ## The course of a request -/

/-- The host has reset the device, which is awake and serves endpoint 0. -/
structure Serving (d : Device) : Prop where
  waiting_le : Lifecycle.waiting ≤ d.lifecycle
  awake : d.suspended = false
  current_eq : d.current = some ⟨0, .toDevice⟩

/-- New descriptors come from the host. -/
structure Draining (d : Device) : Prop extends Serving d where
  stage_eq : d.stage = .dataOut
  request_eq : (d.setup.bind fun s => StandardRequest.ofByte? s.request) = some .setDescriptor

/-- Packets of endpoint 0 came and were released, and nothing else changed but the control
transfer. -/
structure Draws (offered released : Nat) (p q : Link (Traced ω)) : Prop where
  device_eq : q.device.abortControl = p.device.abortControl
  takes : Takes offered released p.hw q.hw

/-- All packets that came were released, then endpoint 0 was stalled, and the control transfer is
over. -/
structure Refused (p q : Link (Traced ω)) : Prop where
  device_eq : q.device = p.device.abortControl
  stalls : ∃ n w, Takes n n p.hw w ∧ q.hw.events = w.events ++ [.usb (.stall .control .toHost) ()]

/-- What becomes of a request. -/
inductive Course (p q : Link (Traced ω)) : Prop where
  | drains {n : Nat} (h : Draws n n p q) (hdrains : Draining q.device)
  | refused (h : Refused p q)
  | passed (hstage : q.device.stage ≠ .dataOut) (h : Sees Action.refuses [] p.hw q.hw)

section Courses

variable {p q r : Link (Traced ω)} {n m n' m' : Nat}

omit [Controller ω] in
theorem Draws.trans (hpq : Draws n m p q) (hqr : Draws n' m' q r) :
    Draws (n + n') (m + m') p r where
  device_eq := hqr.device_eq.trans hpq.device_eq
  takes := hpq.takes.trans hqr.takes

omit [Controller ω] in
theorem Draws.serving (h : Draws n m p q) (hp : Serving p.device) : Serving q.device where
  waiting_le := by
    show Lifecycle.waiting ≤ q.device.abortControl.lifecycle
    rw [h.device_eq]
    exact hp.waiting_le
  awake := (congrArg Device.suspended h.device_eq).trans hp.awake
  current_eq := (congrArg Device.current h.device_eq).trans hp.current_eq

theorem Draws.stall (h : Draws n n p q) : Refused p q.stallControl where
  device_eq := h.device_eq
  stalls := ⟨n, q.hw, h.takes, rfl⟩

omit [Controller ω] in
theorem Course.after (hqr : Course q r) (hpq : Draws n n p q) : Course p r := by
  cases hqr with
  | drains h hdrains => exact .drains (hpq.trans h) hdrains
  | refused h =>
    obtain ⟨n', w, htakes, hevents⟩ := h.stalls
    exact .refused ⟨h.device_eq.trans hpq.device_eq, n + n', w, hpq.takes.trans htakes, hevents⟩
  | passed hstage h => exact .passed hstage (h.after hpq.takes.unrefused)

/-! ### Packets -/

theorem draws_ready (p : Link (Traced ω)) :
    Draws (p.ask (.rxReady .control)).1.toNat 0 p (p.ask (.rxReady .control)).2 where
  device_eq := rfl
  takes := by
    have htakes := takes_perform (a := .rxReady .control) rfl p.hw
    have hcount : [Event.usb (.rxReady .control)
        (Controller.perform (.rxReady .control) p.hw.hw).1].countP Event.offers =
          (p.ask (.rxReady .control)).1.toNat := by
      show _ = (Controller.perform (.rxReady .control) p.hw.hw).1.toNat
      cases (Controller.perform (.rxReady .control) p.hw.hw).1 <;> rfl
    rw [hcount] at htakes
    exact htakes

theorem draws_count (p : Link (Traced ω)) : Draws 0 0 p (p.ask (.rxCount .control)).2 where
  device_eq := rfl
  takes := takes_perform (a := .rxCount .control) rfl p.hw

theorem draws_done (last : Bool) (p : Link (Traced ω)) :
    Draws 0 1 p (p.tell (.rxDone .control last)) where
  device_eq := rfl
  takes := takes_perform (a := .rxDone .control last) rfl p.hw

theorem draws_offered {s : Setup} (h : p.offered? = some (s, q)) : Draws 0 0 p q := by
  have hcount := p.draws_count
  rw [offered?] at h
  generalize p.ask (.rxCount .control) = counted at hcount h
  obtain ⟨available, c⟩ := counted
  simp only at h
  split at h
  · cases h
    exact ⟨hcount.device_eq, hcount.takes.trans (takes_readFifo Setup.size c.hw)⟩
  · cases h

theorem draws_receiveNext (n : Nat) (p : Link (Traced ω)) : Draws 0 1 p (p.receiveNext n) where
  device_eq := by
    refine Device.abortControl_modify (fun s => { s with count := min (s.count + n) 65535 }) ?_
      .toDevice p.device
    exact fun _ => rfl
  takes := (takes_readFifo n p.hw).trans (takes_perform (a := .rxDone .control _) rfl _)

/-- New descriptors are refused once they are there. -/
theorem dataOutComplete_of_draining
    (h : (p.device.setup.bind fun s => StandardRequest.ofByte? s.request) = some .setDescriptor) :
    ∃ q, Draws 0 0 p q ∧ p.dataOutComplete = q.stallControl := by
  refine ⟨p.setStatus .control .toDevice fun s => { s with count := 0 }, ⟨?_, takes_refl p.hw⟩, ?_⟩
  · exact Device.abortControl_modify (fun s => { s with count := 0 }) (fun _ => rfl) .toDevice
      p.device
  · rw [dataOutComplete]
    simp only [setStatus, h]

theorem course_continueOut (h : Draining p.device) : Course p p.continueOut := by
  have hready := p.draws_ready
  have hdevice := (talks_ask (.rxReady .control) p).device_eq
  rw [continueOut_eq]
  rw [← hdevice] at h
  generalize p.ask (.rxReady .control) = asked at h hready ⊢
  obtain ⟨_ | _, q⟩ := asked
  · exact .drains hready h
  · have hcounted : Draws 0 0 q q.counted.2 := q.draws_count
    have hsame : q.counted.2.device = q.device := (talks_ask (.rxCount .control) q).device_eq
    simp only [if_true]
    rw [← hsame] at h
    generalize q.counted = counted at h hcounted ⊢
    obtain ⟨available, r⟩ := counted
    have hreceived : Draws 1 1 p (r.receiveNext available) :=
      (hready.trans hcounted).trans (r.draws_receiveNext available)
    simp only
    split
    · obtain ⟨q', hdraws, hstalled⟩ := dataOutComplete_of_draining (p := r.receiveNext available)
        h.request_eq
      rw [hstalled]
      exact .refused (hreceived.trans hdraws).stall
    · exact .drains hreceived ⟨⟨h.waiting_le, h.awake, h.current_eq⟩, h.stage_eq, h.request_eq⟩

/-! ### SETUP packets -/

/-- A packet that was refused is released. -/
theorem course_stall (h : Draws 1 0 p q) :
    Course p (q.tell (.rxDone .control true)).stallControl :=
  .refused (h.trans (q.draws_done true)).stall

/-- New descriptors are refused at once if there are none, and else once they are there. -/
theorem course_receive {s : Setup} (h : Draws 1 0 p q) (hserving : Serving q.device)
    (hsetup : q.device.setup = some s)
    (hrequest : StandardRequest.ofByte? s.request = some .setDescriptor) :
    Course p (q.carryOut s .receive) := by
  have hsame : (q.device.setup.bind fun s => StandardRequest.ofByte? s.request) =
      some .setDescriptor := by
    rw [hsetup]
    exact hrequest
  rw [carryOut_receive]
  split
  · obtain ⟨r, hdraws, hstalled⟩ :=
      dataOutComplete_of_draining (p := q.tell (.rxDone .control true)) hsame
    rw [hstalled]
    exact .refused ((h.trans (q.draws_done true)).trans hdraws).stall
  · refine .drains ⟨?_, (h.trans (q.draws_done false)).takes⟩
      ⟨⟨hserving.waiting_le, hserving.awake, hserving.current_eq⟩, rfl, hsame⟩
    exact (Device.abortControl_modify (fun e => { e with count := 0, total := s.length.toNat })
      (fun _ => rfl) .toDevice q.device).trans h.device_eq

/-- A request that is answered, or needs no data, leaves endpoint 0 without a stall. -/
theorem course_accept {s : Setup} {reply : ControlReply} (haccepts : reply.accepts = true)
    (h : Sees Action.refuses [] p.hw q.hw) : Course p (q.carryOut s reply) := by
  have hdone : ∀ last, Sees Action.refuses [] p.hw (q.tell (.rxDone .control last)).hw :=
    fun last => h.trans (q.draws_done last).takes.unrefused
  cases reply with
  | noData => exact .passed nofun (hdone true)
  | data payload =>
    rw [carryOut_data]
    split
    · exact .passed nofun (hdone true)
    · refine .passed (stage_continueIn nofun) ?_
      exact (hdone false).trans (unrefused_continueIn (q.dataInStage s payload))
  | receive | stall => cases haccepts

/-- A SETUP packet that came is refused, or new descriptors are to come, or it is accepted. -/
theorem course_handleSetup (s : Setup) (h : Draws 1 0 p q) (hserving : Serving p.device) :
    Course p (q.handleSetup s) := by
  have hbegun : Draws 1 0 p { q with device.setup := some s } := ⟨h.device_eq, h.takes⟩
  have hsetup : ({ q with device.setup := some s } : Link (Traced ω)).device.setup = some s := rfl
  rw [handleSetup]
  simp only
  generalize ({ q with device.setup := some s } : Link (Traced ω)) = b at hbegun hsetup ⊢
  cases hkind : s.kind with
  | deviceClass | vendor | reserved => exact course_stall hbegun
  | standard =>
    rcases standardRequest_outcome s b with hrefused | ⟨hreceives, hrequest⟩ | haccepts
    · simp only [hrefused]
      exact course_stall hbegun
    · simp only [hreceives]
      exact course_receive hbegun (hbegun.serving hserving) hsetup hrequest
    · exact course_accept haccepts
        (hbegun.takes.unrefused.trans (unrefused_standardRequest hkind b))

/-! ### Endpoint 0 -/

/-- What was latched about endpoint 0 leaves an idle device idle. -/
theorem draws_caughtUp (h : p.device.stage = .idle) :
    Draws 0 0 p p.caughtUp ∧ p.caughtUp.device.stage = .idle := by
  have hdevice := (talks_ask .controlEvents p).device_eq
  have htakes : Takes 0 0 p.hw (p.ask .controlEvents).2.hw :=
    takes_perform (a := .controlEvents) rfl p.hw
  rcases p.caughtUp_cases with ⟨_, hcaught⟩ | ⟨_, hstage, _⟩ | ⟨_, _, hcaught⟩
  · refine ⟨⟨?_, hcaught ▸ htakes⟩, by rw [hcaught]; rfl⟩
    rw [hcaught]
    exact p.device.abortControl_abortControl
  · cases h.symm.trans hstage
  · refine ⟨⟨?_, hcaught ▸ htakes⟩, ?_⟩
    · rw [hcaught, hdevice]
    · rw [hcaught, hdevice, h]

/-- Endpoint 0 is served on a device that has no transfer in flight. -/
theorem course_serviceControl_of_idle (h : p.device.stage = .idle) (hserving : Serving p.device) :
    Course p p.serviceControl := by
  obtain ⟨hcaught, hidle⟩ := draws_caughtUp h
  have hready := p.caughtUp.draws_ready
  have hdevice := (talks_ask (.rxReady .control) p.caughtUp).device_eq
  rw [serviceControl_eq, hidle]
  rw [← hdevice] at hidle
  refine Course.after ?_ hcaught
  simp only
  generalize p.caughtUp.ask (.rxReady .control) = asked at hready hidle ⊢
  obtain ⟨_ | _, q⟩ := asked
  · refine .passed ?_ hready.takes.unrefused
    show q.device.stage ≠ .dataOut
    rw [show q.device.stage = .idle from hidle]
    exact nofun
  · simp only [if_true]
    rw [receiveSetup_eq]
    cases hoffered : q.offered? with
    | none => exact .refused ((hready.trans q.draws_count).trans (draws_done true _)).stall
    | some offered =>
      exact course_handleSetup offered.1 (hready.trans (draws_offered hoffered))
        (hcaught.serving hserving)

/-- Endpoint 0 is served while new descriptors come. -/
theorem course_serviceControl_of_draining (h : Draining p.device)
    (hlatched : (p.ask .controlEvents).1 = {}) : Course p p.serviceControl := by
  have hdevice := (talks_ask .controlEvents p).device_eq
  have hread : Draws 0 0 p (p.ask .controlEvents).2 :=
    ⟨congrArg Device.abortControl hdevice, takes_perform (a := .controlEvents) rfl p.hw⟩
  rw [← hdevice] at h
  have hcaught : p.caughtUp = (p.ask .controlEvents).2 := by
    rw [caughtUp]
    generalize p.ask .controlEvents = asked at hlatched h
    obtain ⟨events, q⟩ := asked
    simp only at hlatched
    have hstage : q.device.stage ≠ .status := by
      rw [show q.device.stage = .dataOut from h.stage_eq]
      decide
    simp only [hlatched, Bool.or_self, Bool.false_eq_true, if_false, if_neg hstage]
  rw [serviceControl_eq, hcaught, h.stage_eq]
  exact (course_continueOut h).after hread

end Courses

/-! ## Interrupts -/

/-- What is latched about endpoint 0 when an interrupt comes to it. -/
def latched (p : Link ω) : ControlEvents := ((p.ask .interrupts).2.ask .controlEvents).1

/-- Endpoint 0 is what the device serves. -/
def facingControl (p : Link ω) : Link ω := { p with device.current := some ⟨0, .toDevice⟩ }

/-- An interrupt for endpoint 0 alone serves it, unless the device sleeps or was not reset. -/
theorem onInterrupt_of_control {p : Link ω} (honly : p.roused.1.OnlyControl) :
    p.onInterrupt =
      if Lifecycle.waiting ≤ p.device.lifecycle ∧ p.device.suspended = false then
        (p.ask .interrupts).2.facingControl.serviceControl
      else (p.ask .interrupts).2.powerUp := by
  have hsources : (p.ask .interrupts).1.OnlyControl := honly
  have hdevice := (talks_ask .interrupts p).device_eq
  rw [onInterrupt, ← hdevice]
  generalize p.ask .interrupts = asked at hsources
  obtain ⟨status, q⟩ := asked
  obtain ⟨hbus, hpending, hnone⟩ := hsources
  simp only at hbus hpending hnone
  simp only [hbus, Bool.false_eq_true, if_false, serviceBus, serviceEndpoints, hnone,
    List.foldl_nil, serviceEndpointZero, hpending, if_true]
  by_cases hattached : q.device.lifecycle = .attached
  · have hbelow : q.powerUp.device.lifecycle < .waiting := by
      rw [powerUp, if_pos hattached]
      exact (by decide : Lifecycle.powered < .waiting)
    have hearly : ¬(Lifecycle.waiting ≤ q.device.lifecycle ∧ q.device.suspended = false) := by
      rw [hattached]
      exact fun h => absurd h.1 (by decide)
    rw [if_pos hbelow, if_neg hearly, ite_self]
  · have hnoticed : q.powerUp = q := if_neg hattached
    rw [hnoticed]
    by_cases hserved : Lifecycle.waiting ≤ q.device.lifecycle ∧ q.device.suspended = false
    · have hawake : ¬q.device.suspended = true := by simp [hserved.2]
      have hreset : ¬q.device.lifecycle < .waiting := Nat.not_lt_of_le hserved.1
      rw [if_pos hserved, if_neg hawake, if_neg hreset]
      rfl
    · rw [if_neg hserved]
      cases hasleep : q.device.suspended with
      | true => rfl
      | false =>
        have hbelow : q.device.lifecycle < .waiting :=
          Nat.lt_of_not_le fun hwaiting => hserved ⟨hwaiting, hasleep⟩
        rw [if_pos hbelow]
        rfl

section Courses

variable {p q : Link (Traced ω)}

/-- Looking at the sources of an interrupt is the first step of serving it. -/
theorem draws_interrupts (p : Link (Traced ω)) :
    Draws 0 0 p.facingControl (p.ask .interrupts).2.facingControl where
  device_eq := rfl
  takes := takes_perform (a := .interrupts) rfl p.hw

/-- The first packet comes while no transfer is in flight. -/
theorem course_onInterrupt (hidle : p.device.stage = .idle) (honly : p.roused.1.OnlyControl) :
    Course p.facingControl p.onInterrupt := by
  have hdevice := (talks_ask .interrupts p).device_eq
  have hread : Sees Action.refuses [] p.hw (p.ask .interrupts).2.hw :=
    unseen_perform (a := .interrupts) rfl p.hw
  have hdraws := p.draws_interrupts
  rw [onInterrupt_of_control honly]
  rw [← hdevice] at hidle ⊢
  generalize (p.ask .interrupts).2 = q at hidle hread hdraws ⊢
  split
  · next hserved =>
    have hcourse : Course q.facingControl q.facingControl.serviceControl :=
      course_serviceControl_of_idle hidle ⟨hserved.1, hserved.2, rfl⟩
    exact hcourse.after hdraws
  · rw [powerUp]
    split
    · refine .passed ?_ (hread.trans (unseen_perform (a := .enableEvents _) rfl q.hw))
      show q.device.stage ≠ .dataOut
      rw [hidle]
      decide
    · refine .passed ?_ hread
      rw [hidle]
      decide

/-- More packets come while a data stage goes on. -/
theorem Course.interrupt (h : Course p q) (hstage : q.device.stage = .dataOut)
    (honly : q.roused.1.OnlyControl) (hlatched : q.latched = {}) : Course p q.onInterrupt := by
  cases h with
  | drains h hdrains =>
    have hfacing : q.facingControl = q := by rw [facingControl, ← hdrains.current_eq]
    have hread := q.draws_interrupts
    have hdraining : Draining (q.ask .interrupts).2.facingControl.device :=
      ⟨⟨hdrains.waiting_le, hdrains.awake, rfl⟩, hdrains.stage_eq, hdrains.request_eq⟩
    rw [hfacing] at hread
    rw [onInterrupt_of_control honly, if_pos ⟨hdrains.waiting_le, hdrains.awake⟩]
    exact ((course_serviceControl_of_draining hdraining hlatched).after hread).after h
  | refused h =>
    rw [h.device_eq] at hstage
    cases hstage
  | passed hnot _ => exact absurd hstage hnot

end Courses

end Link

/-! ## Runs -/

namespace Operation

variable {ω : Type} [Controller ω]

/-- An interrupt for endpoint 0 alone goes on with a data stage that the host has not cut off, or
the hardware does something by itself. -/
def GoesOn (op : Operation ω) (p : Link ω) : Prop :=
  match op with
  | interrupt => p.device.stage = .dataOut ∧ p.roused.1.OnlyControl ∧ p.latched = {}
  | outside _ => True
  | _ => False

instance : (op : Operation ω) → (p : Link ω) → Decidable (op.GoesOn p)
  | interrupt, _ => inferInstanceAs (Decidable (_ ∧ _ ∧ _))
  | outside _, _ => inferInstanceAs (Decidable True)
  | attach, _ | detach, _ | takeWork, _ | rxPending _, _ | readPacket _ _, _ | fill _ _, _
  | write _ _, _ | stallEndpoint _ _, _ => inferInstanceAs (Decidable False)

/-- What some operations asked of the controller, and what it answered. -/
def trace (ops : List (Operation ω)) (p : Link ω) : List Event :=
  (runAll (ops.map onTraced) (traced p)).hw.events

theorem course_run {op : Operation ω} {p q : Link (Traced ω)} (h : p.Course q)
    (hop : op.GoesOn (untraced q)) : p.Course (op.onTraced.run q) := by
  cases op with
  | interrupt =>
    obtain ⟨hstage, honly, hlatched⟩ := hop
    rw [Link.roused_untraced] at honly
    exact h.interrupt hstage honly hlatched
  | outside f =>
    cases h with
    | drains h hdrains => exact .drains ⟨h.device_eq, h.takes⟩ hdrains
    | refused h => exact .refused ⟨h.device_eq, h.stalls⟩
    | passed hstage h => exact .passed hstage h
  | attach | detach | takeWork | rxPending | readPacket | fill | write | stallEndpoint => cases hop

/-- A request stays on its course. -/
theorem course_runAll {ops : List (Operation ω)} {p q : Link (Traced ω)} (h : p.Course q)
    (hops : ∀ x ∈ steps ops (untraced q), x.1.GoesOn x.2) :
    p.Course (runAll (ops.map onTraced) q) := by
  induction ops generalizing q with
  | nil => exact h
  | cons op ops ih =>
    obtain ⟨hfirst, hrest⟩ := List.forall_mem_cons.mp hops
    refine ih (course_run h hfirst) ?_
    rw [← run_untraced]
    exact hrest

/-- So does one whose first packet comes while no transfer is in flight. -/
theorem course_request {ops : List (Operation ω)} {p : Link ω} (hidle : p.device.stage = .idle)
    (honly : p.roused.1.OnlyControl) (hops : ∀ x ∈ steps ops p.onInterrupt, x.1.GoesOn x.2) :
    (traced p).facingControl.Course (runAll ((interrupt :: ops).map onTraced) (traced p)) := by
  have hfirst : p.onInterrupt = untraced (traced p).onInterrupt :=
    Link.onInterrupt_untraced (traced p)
  have hsources : (traced p).roused.1.OnlyControl := by
    have hsame := congrArg Prod.fst (Link.roused_untraced (traced p))
    exact hsame ▸ honly
  have hbegun : (traced p).facingControl.Course (traced p).onInterrupt :=
    Link.course_onInterrupt hidle hsources
  rw [hfirst] at hops
  exact course_runAll (q := (traced p).onInterrupt) hbegun hops

/-- Once no data is to come, only the hardware does something. -/
theorem trace_runAll_of_over {ops : List (Operation ω)} {q : Link (Traced ω)}
    (hstage : q.device.stage ≠ .dataOut)
    (hops : ∀ x ∈ steps ops (untraced q), x.1.GoesOn x.2) :
    (runAll (ops.map onTraced) q).hw.events = q.hw.events := by
  induction ops generalizing q with
  | nil => rfl
  | cons op ops ih =>
    obtain ⟨hfirst, hrest⟩ := List.forall_mem_cons.mp hops
    cases op with
    | interrupt => exact absurd hfirst.1 hstage
    | outside f => exact ih (q := (outside f).onTraced.run q) hstage hrest
    | attach | detach | takeWork | rxPending | readPacket | fill | write | stallEndpoint =>
      cases hfirst

theorem trace_append_of_over {ops more : List (Operation ω)} {p : Link ω}
    (hstage : (runAll (ops.map onTraced) (traced p)).device.stage ≠ .dataOut)
    (hmore : ∀ x ∈ steps more (runAll ops p), x.1.GoesOn x.2) :
    trace (ops ++ more) p = trace ops p := by
  rw [show runAll ops p = _ from runAll_untraced ops (traced p)] at hmore
  rw [trace, List.map_append, runAll, List.foldl_append]
  exact trace_runAll_of_over hstage hmore

end Operation

namespace Link

variable {ω : Type} {p q : Link (Traced ω)}

/-- Before the stall the controller was only asked what happened and for packets of endpoint 0. -/
theorem Refused.asked (h : Refused p q) (hfresh : p.hw.events = []) :
    ∃ asked, controllerActions q.hw.events = asked ++ [.stall .control .toHost] ∧
      ∀ a ∈ asked, a.takesControl = true := by
  obtain ⟨n, w, ⟨es, hes, _, _, htakes⟩, hevents⟩ := h.stalls
  rw [hfresh, List.nil_append] at hes
  refine ⟨controllerActions es, ?_, htakes⟩
  rw [hevents, hes, controllerActions, List.filterMap_append]
  rfl

/-- A stall of endpoint 0 is a refusal. -/
theorem refused_of_stalled (hfresh : p.hw.events = [])
    (hstalled : .stall .control .toHost ∈ controllerActions q.hw.events) :
    ¬Sees Action.refuses [] p.hw q.hw := by
  intro hsees
  rw [Sees, hfresh] at hsees
  have hfilter : Action.stall .control .toHost ∈
      (controllerActions q.hw.events).filter Action.refuses :=
    List.mem_filter.mpr ⟨hstalled, rfl⟩
  rw [hsees] at hfilter
  cases hfilter

/-- As long as a request is not over, or once it is refused, each packet that came was released. -/
theorem Course.balanced (h : Course p q) (hfresh : p.hw.events = [])
    (hopen : ¬(q.device.stage ≠ .dataOut ∧ Sees Action.refuses [] p.hw q.hw)) :
    q.hw.events.countP Event.releases = q.hw.events.countP Event.offers := by
  cases h with
  | drains h _ => exact h.takes.balanced hfresh
  | refused h =>
    obtain ⟨n, w, htakes, hevents⟩ := h.stalls
    rw [hevents, List.countP_append, List.countP_append]
    exact htakes.balanced hfresh
  | passed hstage h => exact absurd ⟨hstage, h⟩ hopen

/-- Where endpoint 0 was stalled, the request was refused. -/
theorem Course.refused_of_mem (h : Course p q) (hfresh : p.hw.events = [])
    (hstalled : .stall .control .toHost ∈ controllerActions q.hw.events) : Refused p q := by
  have hunrefused := refused_of_stalled hfresh hstalled
  cases h with
  | drains h _ => exact absurd h.takes.unrefused hunrefused
  | refused h => exact h
  | passed _ h => exact absurd h hunrefused

end Link

/-- A refused control request leaves no trace.

No control transfer is in flight on a device, on any hardware, and an interrupt comes for endpoint 0
alone.  More interrupts may follow while the request takes data from the host, for endpoint 0 alone
and without the host cutting the transfer off.  In the end endpoint 0 was stalled.

Then the device is as before, but for the control transfer and what it served last: it has its
lifecycle, its configuration, its sleep, its queue and the halt and arming of each endpoint.  No
transfer is in flight, no address waits, and nothing is recorded of one on endpoint 0.  Before the
stall the controller was only asked what happened and for packets of endpoint 0.  So it has its
address, its endpoints and their halts, and nothing was sent.  After each interrupt as many packets
have been released as it had. -/
theorem refusal_leaves_no_trace {ω : Type} [Controller ω] {p : Link ω}
    (hidle : p.device.stage = .idle) (honly : p.roused.1.OnlyControl)
    {rest : List (Operation ω)}
    (hrest : ∀ x ∈ Operation.steps rest p.onInterrupt, x.1.GoesOn x.2)
    (hrefused : .stall .control .toHost ∈ Operation.asked (.interrupt :: rest) p) :
    let q := Operation.runAll (.interrupt :: rest) p
    q.device = { p.device.abortControl with current := some ⟨0, .toDevice⟩ } ∧
    (q.device.lifecycle = p.device.lifecycle ∧ q.device.configuration = p.device.configuration ∧
      q.device.suspended = p.device.suspended ∧ q.device.queue = p.device.queue ∧
      ∀ ep dir,
        (q.device.endpoints.get ep dir).stalled = (p.device.endpoints.get ep dir).stalled ∧
        (q.device.endpoints.get ep dir).needsArming =
          (p.device.endpoints.get ep dir).needsArming) ∧
    (q.device.stage = .idle ∧ q.device.setup = none ∧ q.device.pendingAddress = none ∧
      ∀ dir, (q.device.endpoints.get .control dir).payload = .empty ∧
        (q.device.endpoints.get .control dir).count = 0 ∧
        (q.device.endpoints.get .control dir).total = 0) ∧
    (∃ asked, Operation.asked (.interrupt :: rest) p = asked ++ [.stall .control .toHost] ∧
      ∀ a ∈ asked, a.takesControl = true) ∧
    ∀ before after, rest = before ++ after →
      (Operation.trace (.interrupt :: before) p).countP Event.releases =
        (Operation.trace (.interrupt :: before) p).countP Event.offers := by
  intro q
  have hover := (Operation.course_request hidle honly hrest).refused_of_mem rfl hrefused
  have hdevice : q.device = { p.device.abortControl with current := some ⟨0, .toDevice⟩ } := by
    have hrun := Operation.runAll_untraced (.interrupt :: rest) (traced p)
    exact (congrArg Link.device hrun).trans hover.device_eq
  refine ⟨hdevice, ?_, ?_, ?_, ?_⟩
  · rw [hdevice]
    refine ⟨rfl, rfl, rfl, rfl, fun ep dir => ?_⟩
    rw [show Device.endpoints _ = p.device.abortControl.endpoints from rfl,
      Device.get_abortControl]
    split <;> exact ⟨rfl, rfl⟩
  · rw [hdevice]
    refine ⟨rfl, rfl, rfl, fun dir => ?_⟩
    rw [show Device.endpoints _ = p.device.abortControl.endpoints from rfl,
      Device.get_abortControl, if_pos rfl]
    exact ⟨rfl, rfl, rfl⟩
  · exact hover.asked rfl
  · intro before after hsplit
    subst hsplit
    rw [Operation.steps_append] at hrest
    obtain ⟨hbefore, hafter⟩ := List.forall_mem_append.mp hrest
    refine (Operation.course_request hidle honly hbefore).balanced rfl fun hpassed => ?_
    -- Otherwise the request was accepted, and no stall would follow.
    have hsame : Operation.trace (.interrupt :: (before ++ after)) p =
        Operation.trace (.interrupt :: before) p := Operation.trace_append_of_over hpassed.1 hafter
    refine Link.refused_of_stalled (p := (traced p).facingControl) rfl ?_ hpassed.2
    rw [Operation.asked] at hrefused
    rw [show (Operation.runAll _ (traced p)).hw.events = _ from hsame.symm]
    exact hrefused

/-! ## On the bench -/

section Bench

open Bench

/-- The SETUP packet that announces new descriptors of 70 bytes. -/
def descriptorsSetup : Setup :=
  { requestType := 0, request := 7, value := 256, index := 0, length := 70 }

/-- The device is configured, and the host announces new descriptors. -/
def announcing : List (Operation FifoController) :=
  addressing ++ hostSends (configurationSetup 1).toBytes ++ hostCollects ++
    [.outside (Driven.deliver .control descriptorsSetup.toBytes),
      .outside (Driven.raise { rx := 1 })]

/-- Then it sends them in two packets. -/
def announced : List (Operation FifoController) :=
  hostSends (List.replicate 64 0) ++ hostSends (List.replicate 6 0)

/-- They are refused, and the device is configured as before. -/
theorem refusal_leaves_no_trace_descriptors :
    let p := Operation.runAll announcing (⟨{}, {}⟩ : Link FifoController)
    let q := Operation.runAll (.interrupt :: announced) p
    p.device.lifecycle = .configured ∧ q.device.lifecycle = .configured ∧
      q.device.configuration = p.device.configuration ∧ q.device.stage = .idle ∧
      (Operation.trace (.interrupt :: announced) p).countP Event.releases = 3 ∧
      (Operation.trace (.interrupt :: announced) p).countP Event.offers = 3 := by
  intro p q
  have hidle : p.device.stage = .idle := by decide +kernel
  have honly : p.roused.1.OnlyControl := by decide +kernel
  have hconfigured : p.device.lifecycle = .configured := by decide +kernel
  have hdrained : ∀ x ∈ Operation.steps announced p.onInterrupt, x.1.GoesOn x.2 := by
    decide +kernel
  have hreleased : (Operation.trace (.interrupt :: announced) p).countP Event.releases = 3 := by
    decide +kernel
  have hstalled : (Operation.asked (.interrupt :: announced) p).any Action.refuses = true := by
    decide +kernel
  have hrefused : .stall .control .toHost ∈ Operation.asked (.interrupt :: announced) p := by
    obtain ⟨a, ha, hrefuses⟩ := List.any_eq_true.mp hstalled
    exact Action.eq_of_refuses hrefuses ▸ ha
  obtain ⟨_, ⟨hlifecycle, hconfiguration, _⟩, ⟨hover, _⟩, _, hbalanced⟩ :=
    refusal_leaves_no_trace hidle honly hdrained hrefused
  have hoffered := hbalanced announced [] (List.append_nil _).symm
  exact ⟨hconfigured, hlifecycle.trans hconfigured, hconfiguration, hover, hreleased,
    hoffered.symm.trans hreleased⟩

end Bench

end FlashProgrammer.Usb

import FlashProgrammer.Proofs.Usb.Configuring

/-!
# The queued work

Only interrupts queue work, only the main loop takes it, and control transfers have no
part in either.  `Aside` is what a control transfer leaves alone, and the lemmas about it
follow the functions of endpoint 0.

Work that waits is not queued again.  So no work is in the queue twice, in any run.
-/

namespace FlashProgrammer.Usb

/-- What a control transfer has no part in. -/
structure Aside where
  suspended : Bool
  enabled : BusEvents
  current : Option Work
  queue : WorkQueue
  descriptors : Descriptors
  budget : WaitBudget

def Device.aside (d : Device) : Aside where
  suspended := d.suspended
  enabled := d.enabled
  current := d.current
  queue := d.queue
  descriptors := d.descriptors
  budget := d.budget

namespace Link

variable {ω : Type} [Controller ω]

/-! ## Control transfers -/

theorem aside_ask (a : Action) (p : Link ω) : (p.ask a).2.device.aside = p.device.aside :=
  congrArg Device.aside (talks_ask a p).device_eq

theorem aside_continueIn (p : Link ω) : p.continueIn.device.aside = p.device.aside := by
  have hbusy := aside_ask (.txBusy .control) p
  rw [continueIn]
  generalize p.ask (.txBusy .control) = asked at hbusy ⊢
  obtain ⟨busy, q⟩ := asked
  rw [← hbusy]
  simp only
  split
  · rfl
  · split <;> rfl

theorem aside_dataOutComplete (p : Link ω) :
    p.dataOutComplete.device.aside = p.device.aside := by
  rw [dataOutComplete]
  simp only
  split <;> rfl

theorem aside_continueOut (p : Link ω) : p.continueOut.device.aside = p.device.aside := by
  have hready := aside_ask (.rxReady .control) p
  rw [continueOut]
  generalize p.ask (.rxReady .control) = asked at hready ⊢
  obtain ⟨ready, q⟩ := asked
  rw [← hready]
  simp only
  split
  · have hcount := aside_ask (.rxCount .control) q
    generalize q.ask (.rxCount .control) = counted at hcount ⊢
    obtain ⟨available, r⟩ := counted
    rw [← hcount]
    simp only
    split
    · exact aside_dataOutComplete _
    · rfl
  · rfl

theorem aside_standardRequest (s : Setup) (p : Link ω) :
    (p.standardRequest s).2.device.aside = p.device.aside := by
  rw [standardRequest]
  simp only [setConfiguration]
  repeat' split
  all_goals rfl

theorem aside_carryOut (s : Setup) (reply : ControlReply) (p : Link ω) :
    (p.carryOut s reply).device.aside = p.device.aside := by
  cases reply with
  | noData | stall => rfl
  | data payload =>
    rw [carryOut]
    split
    · rfl
    · exact aside_continueIn _
  | receive =>
    rw [carryOut]
    split
    · exact aside_dataOutComplete _
    · rfl

theorem aside_handleSetup (s : Setup) (p : Link ω) :
    (p.handleSetup s).device.aside = p.device.aside := by
  have hanswered := aside_standardRequest s { p with device.setup := some s }
  rw [handleSetup]
  cases s.kind with
  | standard => exact (aside_carryOut s _ _).trans hanswered
  | deviceClass | vendor | reserved => exact aside_carryOut s .stall _

theorem aside_receiveSetup (p : Link ω) : p.receiveSetup.device.aside = p.device.aside := by
  have hcount := aside_ask (.rxCount .control) p
  rw [receiveSetup]
  generalize p.ask (.rxCount .control) = counted at hcount ⊢
  obtain ⟨available, q⟩ := counted
  rw [← hcount]
  simp only
  split
  · exact aside_handleSetup _ _
  · rfl

theorem aside_completeStatus (p : Link ω) :
    p.completeStatus.device.aside = p.device.aside := by
  have hone : ∀ e (q : Link ω), (armEndpoint q e).device.aside = q.device.aside := by
    intro e q
    rw [armEndpoint]
    split <;> rfl
  have harm : ∀ q : Link ω,
      (bulkEndpoints.foldl armEndpoint q).device.aside = q.device.aside :=
    armEndpoints_same (f := fun q => q.device.aside) hone bulkEndpoints
  have haddress : p.takeAddress.device.aside = p.device.aside := by
    rw [takeAddress]
    split <;> rfl
  have hsettled : p.takeAddress.settleConfiguration.device.aside = p.device.aside := by
    rw [← haddress]
    generalize p.takeAddress = q
    rw [settleConfiguration]
    split <;> rfl
  have hdone : ∀ q : Link ω,
      { q.device with stage := .idle, setup := none }.aside = q.device.aside := fun _ => rfl
  rw [completeStatus]
  simp only [hdone, harm, hsettled]

theorem aside_caughtUp (p : Link ω) : p.caughtUp.device.aside = p.device.aside := by
  have hevents := aside_ask .controlEvents p
  rw [caughtUp]
  generalize p.ask .controlEvents = asked at hevents ⊢
  obtain ⟨events, q⟩ := asked
  rw [← hevents]
  simp only
  have haborted : (if events.sentStall || events.setupEnd then q.abortControl
      else q).device.aside = q.device.aside := by
    split <;> rfl
  rw [← haborted]
  generalize (if events.sentStall || events.setupEnd then q.abortControl else q) = r
  split
  · exact aside_completeStatus _
  · rfl

/-- Endpoint 0 is served without touching the queue. -/
theorem aside_serviceControl (p : Link ω) : p.serviceControl.device.aside = p.device.aside := by
  rw [serviceControl_eq, ← aside_caughtUp p]
  generalize p.caughtUp = c
  cases c.device.stage with
  | dataIn => exact aside_continueIn c
  | dataOut => exact aside_continueOut c
  | status => rfl
  | idle =>
    have hready := aside_ask (.rxReady .control) c
    simp only
    generalize c.ask (.rxReady .control) = asked at hready ⊢
    obtain ⟨ready, q⟩ := asked
    rw [← hready]
    simp only
    split
    · exact aside_receiveSetup q
    · rfl

/-! ## The main loop -/

omit [Controller ω] in
/-- The oldest work is taken from the front. -/
theorem takeWork_cases (p : Link ω) :
    (p.device.queue.toList = [] ∧ p.takeWork = (none, p)) ∨
      ∃ work q, p.takeWork = (some work, q) ∧
        p.device.queue.toList = work :: q.device.queue.toList := by
  obtain ⟨hwork, hrest⟩ := WorkQueue.toList_pop p.device.queue
  cases hlist : p.device.queue.toList with
  | nil =>
    refine .inl ⟨rfl, ?_⟩
    rw [takeWork, WorkQueue.pop_of_toList_nil hlist]
  | cons work rest =>
    rw [hlist] at hwork hrest
    exact .inr ⟨work, p.takeWork.2, Prod.ext hwork rfl, congrArg _ hrest.symm⟩

/-! ## Interrupts -/

omit [Controller ω] in
/-- Only the queue shows which work was noted, and what is worked on. -/
theorem exists_notes (works : List Work) (p : Link ω) :
    ∃ current queue,
      works.foldl note p = { p with device.current := current, device.queue := queue } := by
  induction works generalizing p with
  | nil => exact ⟨p.device.current, p.device.queue, rfl⟩
  | cons work works ih => exact ih (p.note work)

omit [Controller ω] in
theorem hw_foldl_note (works : List Work) (p : Link ω) : (works.foldl note p).hw = p.hw := by
  obtain ⟨current, queue, hnoted⟩ := exists_notes works p
  rw [hnoted]

omit [Controller ω] in
theorem nodup_note {p : Link ω} (h : p.device.queue.toList.Nodup) (work : Work) :
    (p.note work).device.queue.toList.Nodup :=
  WorkQueue.nodup_push h work

omit [Controller ω] in
theorem nodup_notes {p : Link ω} (h : p.device.queue.toList.Nodup) (works : List Work) :
    (works.foldl note p).device.queue.toList.Nodup := by
  induction works generalizing p with
  | nil => exact h
  | cons work works ih => exact ih (nodup_note h work)

theorem queue_roused (p : Link ω) : p.roused.2.device.queue = p.device.queue := by
  have hdevice := (talks_ask .interrupts p).device_eq
  rw [roused, ← hdevice]
  generalize p.ask .interrupts = asked
  obtain ⟨status, q⟩ := asked
  simp only [powerUp]
  split <;> split <;> rfl

/-- So it is when an interrupt comes to it. -/
theorem queue_serviceEndpointZero (s : InterruptStatus) (p : Link ω) :
    (p.serviceEndpointZero s).device.queue = p.device.queue := by
  rw [serviceEndpointZero]
  split
  · exact congrArg Aside.queue
      (aside_serviceControl { p with device.current := some ⟨0, .toDevice⟩ })
  · rfl

theorem nodup_serviceEndpoints {p : Link ω} (h : p.device.queue.toList.Nodup)
    (s : InterruptStatus) : (p.serviceEndpoints s).device.queue.toList.Nodup := by
  rw [serviceEndpoints]
  split
  · exact h
  · refine nodup_notes ?_ (bulkWork s)
    rwa [queue_serviceEndpointZero]

theorem nodup_onInterrupt {p : Link ω} (h : p.device.queue.toList.Nodup) :
    p.onInterrupt.device.queue.toList.Nodup := by
  rw [← queue_roused] at h
  rw [onInterrupt_eq]
  split
  · exact List.nodup_nil
  · split
    · exact h
    · generalize p.roused = roused at h ⊢
      obtain ⟨status, q⟩ := roused
      cases hreset : status.bus.reset with
      | true =>
        rw [serviceBus, hreset]
        exact List.nodup_nil
      | false =>
        rw [serviceBus_of_no_reset hreset]
        refine nodup_serviceEndpoints ?_ status
        split
        · exact h
        · exact h

end Link

/-! ## Runs -/

namespace Operation

variable {ω : Type} [Controller ω]

theorem nodup_run (op : Operation ω) {p : Link ω} (h : p.device.queue.toList.Nodup) :
    (op.run p).device.queue.toList.Nodup := by
  have htalks : ∀ q : Link ω, Talks p q → q.device.queue.toList.Nodup := by
    intro q hq
    rwa [hq.device_eq]
  cases op with
  | attach => exact h
  | detach => exact List.nodup_nil
  | interrupt => exact Link.nodup_onInterrupt h
  | takeWork => exact WorkQueue.nodup_pop h
  | rxPending | readPacket | fill | write => exact htalks _ (talks_run (by trivial) p)
  | stallEndpoint ep dir =>
    show (p.stallEndpoint ep dir).device.queue.toList.Nodup
    rw [Link.stallEndpoint]
    split
    · exact h
    · exact h
  | outside f => exact h

/-- No work waits twice. -/
theorem nodup_runAll (ops : List (Operation ω)) {p : Link ω}
    (h : p.device.queue.toList.Nodup) : (runAll ops p).device.queue.toList.Nodup := by
  induction ops generalizing p with
  | nil => exact h
  | cons op ops ih => exact ih (nodup_run op h)

end Operation

end FlashProgrammer.Usb

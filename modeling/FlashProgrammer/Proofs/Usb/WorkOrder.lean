import FlashProgrammer.Proofs.Usb.BusReset
import FlashProgrammer.Proofs.Usb.NotableActions
import FlashProgrammer.Proofs.Usb.QueuedWork
import Mathlib.Data.List.Perm.Subperm

/-!
# The order of the work

An interrupt reports bulk work by bits, one for each endpoint and direction, and the main loop
takes it piece by piece.  What stands between them is the queue, and it must neither lose work nor
reorder it.

`Orderly` is what every run keeps: no work waits twice, and all that waits is bulk work.  Of bulk
work there are six pieces and the queue has eight cells, so there is always room, and what is
refused waits already.  `queue_run` balances one operation: what waited and what is queued is what
is taken and what waits then, in this order.  `queue_runAll` does so for a run.
-/

namespace FlashProgrammer.Usb

/-! ## The work there is -/

/-- All bulk work, in the order that an interrupt reports it. -/
def allBulkWork : List Work :=
  [⟨1, .toDevice⟩, ⟨1, .toHost⟩, ⟨2, .toDevice⟩, ⟨2, .toHost⟩, ⟨3, .toDevice⟩, ⟨3, .toHost⟩]

/-- Whether an interrupt reports some work. -/
def InterruptStatus.reports (s : InterruptStatus) (work : Work) : Bool :=
  s.has work.endpoint.toNat work.direction

theorem bulkWork_eq (s : InterruptStatus) : Link.bulkWork s = allBulkWork.filter s.reports := by
  have hall : allBulkWork = Link.bulkEndpoints.map fun e => ⟨UInt8.ofNat e.1.val, e.2⟩ := by
    decide
  have hnumber : ∀ ep : Endpoint, (UInt8.ofNat ep.val).toNat = ep.val := by decide
  rw [hall, List.filter_map, Link.bulkWork]
  refine congrArg _ (List.filter_congr fun e _ => ?_)
  rw [Function.comp_apply, InterruptStatus.reports, hnumber]

theorem mem_allBulkWork {s : InterruptStatus} {work : Work} (h : work ∈ Link.bulkWork s) :
    work ∈ allBulkWork := by
  rw [bulkWork_eq] at h
  exact (List.mem_filter.mp h).1

/-- Each piece of bulk work is reported once. -/
theorem nodup_bulkWork (s : InterruptStatus) : (Link.bulkWork s).Nodup := by
  have hall : allBulkWork.Nodup := by decide
  rw [bulkWork_eq]
  exact hall.filter _

/-! ## Queues -/

namespace WorkQueue

/-- A queue in which no work waits twice, and only bulk work. -/
structure Orderly (q : WorkQueue) : Prop where
  nodup : q.toList.Nodup
  bulk : ∀ work ∈ q.toList, work ∈ allBulkWork

variable {q : WorkQueue}

theorem orderly_of_empty (h : q.toList = []) : q.Orderly where
  nodup := h ▸ List.nodup_nil
  bulk := fun work hwork => by simp [h] at hwork

/-- There is less bulk work than cells. -/
theorem Orderly.length_le (h : q.Orderly) : q.toList.length ≤ 6 :=
  (h.nodup.subperm h.bulk).length_le

/-- So work is refused only if it waits already. -/
theorem Orderly.refused_iff (h : q.Orderly) (work : Work) :
    (q.push work).1 = false ↔ work ∈ q.toList := by
  have hroom : q.toList.length ≠ 8 := by have := h.length_le; omega
  rw [← Bool.not_eq_true, push_eq_true_iff, Decidable.not_not, or_iff_left hroom]

theorem Orderly.toList_push (h : q.Orderly) (work : Work) :
    (q.push work).2.toList = q.toList ++ [work].filter (· ∉ q.toList) := by
  have hroom : q.toList.length ≠ 8 := by have := h.length_le; omega
  rw [WorkQueue.toList_push]
  by_cases hwaits : work ∈ q.toList
  · simp [hwaits]
  · simp only [hwaits, hroom, or_self, if_false, not_false_eq_true, decide_true, List.filter_cons,
      if_true, List.filter_nil]

theorem Orderly.push (h : q.Orderly) {work : Work} (hwork : work ∈ allBulkWork) :
    (q.push work).2.Orderly := by
  refine ⟨nodup_push h.nodup work, fun a ha => ?_⟩
  rw [h.toList_push work, List.mem_append] at ha
  rcases ha with hold | hnew
  · exact h.bulk a hold
  · obtain rfl := List.mem_singleton.mp (List.mem_of_mem_filter hnew)
    exact hwork

/-- A queue after work was added to it, piece by piece. -/
def pushAll (q : WorkQueue) (works : List Work) : WorkQueue :=
  works.foldl (fun q work => (q.push work).2) q

theorem Orderly.pushAll (h : q.Orderly) {works : List Work}
    (hworks : ∀ work ∈ works, work ∈ allBulkWork) : (q.pushAll works).Orderly := by
  induction works generalizing q with
  | nil => exact h
  | cons work works ih =>
    obtain ⟨hfirst, hrest⟩ := List.forall_mem_cons.mp hworks
    exact ih (h.push hfirst) hrest

/-- What does not wait yet is added behind all that waits, in its own order. -/
theorem Orderly.toList_pushAll (h : q.Orderly) {works : List Work}
    (hworks : ∀ work ∈ works, work ∈ allBulkWork) (hnodup : works.Nodup) :
    (q.pushAll works).toList = q.toList ++ works.filter (· ∉ q.toList) := by
  induction works generalizing q with
  | nil => exact (List.append_nil _).symm
  | cons work works ih =>
    obtain ⟨hfirst, hrest⟩ := List.forall_mem_cons.mp hworks
    obtain ⟨hnew, hdistinct⟩ := List.nodup_cons.mp hnodup
    have hothers : works.filter (· ∉ (q.push work).2.toList) = works.filter (· ∉ q.toList) := by
      refine List.filter_congr fun other hother => ?_
      have hne : other ≠ work := fun heq => hnew (heq ▸ hother)
      simp [h.toList_push work, hne]
    have hpushed := ih (h.push hfirst) hrest hdistinct
    rw [hothers, h.toList_push work, List.append_assoc, ← List.filter_append] at hpushed
    exact hpushed

end WorkQueue

namespace Link

variable {ω : Type} [Controller ω]

omit [Controller ω] in
theorem queue_notes (works : List Work) (p : Link ω) :
    (works.foldl note p).device.queue = p.device.queue.pushAll works := by
  induction works generalizing p with
  | nil => rfl
  | cons work works ih => exact ih (p.note work)

/-! ## Interrupts -/

/-- An interrupt comes to the endpoints. -/
def Serves (p : Link ω) : Prop :=
  Lifecycle.waiting ≤ p.device.lifecycle ∧
    (p.device.suspended = false ∨ p.roused.1.bus.resume = true) ∧
    p.roused.1.bus.disconnect = false ∧ p.roused.1.bus.reset = false

instance (p : Link ω) : Decidable p.Serves := inferInstanceAs (Decidable (_ ∧ _ ∧ _ ∧ _))

/-- The work that an interrupt adds to the queue. -/
def freshWork (p : Link ω) : List Work :=
  if p.Serves then
    allBulkWork.filter fun work => p.roused.1.reports work && work ∉ p.device.queue.toList
  else []

/-- An interrupt throws the queue away. -/
def clearsQueue (p : Link ω) : Bool := p.roused.1.bus.disconnect || p.servesReset

/-- That is, once power, a wake-up and a sleep are served, the device is awake and was reset. -/
theorem serves_iff (p : Link ω) :
    p.Serves ↔ ¬p.dozed.device.lifecycle < .waiting ∧ p.roused.2.device.suspended = false ∧
      p.roused.1.bus.disconnect = false ∧ p.roused.1.bus.reset = false := by
  have hdozed : p.dozed.device.lifecycle = p.roused.2.device.lifecycle :=
    congrArg Progress.lifecycle (progress_dozed p.roused.1.bus.suspend p.roused.2).1
  have hreset : Lifecycle.waiting ≤ p.device.lifecycle ↔ ¬p.dozed.device.lifecycle < .waiting := by
    rw [hdozed, lifecycle_roused]
    generalize p.device.lifecycle = lifecycle
    cases lifecycle <;> decide
  have hawake : (p.device.suspended = false ∨ p.roused.1.bus.resume = true) ↔
      p.roused.2.device.suspended = false := by
    rw [p.suspended_roused]
    cases p.device.suspended <;> simp
  rw [Serves, hreset, hawake]

theorem queue_dozed (p : Link ω) : p.dozed.device.queue = p.device.queue := by
  rw [dozed, ← p.queue_roused]
  split <;> rfl

/-- What it reports is queued. -/
theorem queue_onInterrupt_of_serves {p : Link ω} (h : p.Serves) :
    p.onInterrupt.device.queue = p.device.queue.pushAll (bulkWork p.roused.1) := by
  obtain ⟨hwaiting, hawake, hdisconnect, hreset⟩ := p.serves_iff.mp h
  rw [onInterrupt_of_awake hdisconnect hawake hreset, serviceEndpoints, if_neg hwaiting,
    queue_notes, queue_serviceEndpointZero, queue_dozed]

/-- Otherwise nothing is queued. -/
theorem queue_onInterrupt_of_idle {p : Link ω} (h : ¬p.Serves) (hkept : p.clearsQueue = false) :
    p.onInterrupt.device.queue = p.device.queue := by
  simp only [clearsQueue, servesReset, Bool.or_eq_false_iff] at hkept
  obtain ⟨hdisconnect, hnoreset⟩ := hkept
  cases hasleep : p.roused.2.device.suspended with
  | true =>
    rw [onInterrupt_of_asleep hdisconnect hasleep]
    exact p.queue_roused
  | false =>
    have hreset : p.roused.1.bus.reset = false := by simpa [hdisconnect, hasleep] using hnoreset
    have hwaiting : p.dozed.device.lifecycle < .waiting := by
      refine Decidable.not_not.mp fun hpast => h ?_
      exact p.serves_iff.mpr ⟨hpast, hasleep, hdisconnect, hreset⟩
    rw [onInterrupt_of_below hdisconnect hasleep hreset hwaiting, queue_dozed]

/-- What an interrupt reports is added behind all that waits, by ascending endpoint. -/
theorem toList_pushAll_bulkWork {q : WorkQueue} (h : q.Orderly) (s : InterruptStatus) :
    (q.pushAll (bulkWork s)).toList =
      q.toList ++ allBulkWork.filter fun work => s.reports work && work ∉ q.toList := by
  rw [h.toList_pushAll (fun _ => mem_allBulkWork) (nodup_bulkWork s), bulkWork_eq,
    List.filter_filter]
  simp only [Bool.and_comm]

/-- A reported piece is refused only if it waited before the interrupt. -/
theorem refused_of_reported {q : WorkQueue} (h : q.Orderly) {s : InterruptStatus}
    {before after : List Work} {work : Work} (hsplit : bulkWork s = before ++ work :: after) :
    ((q.pushAll before).push work).1 = false ↔ work ∈ q.toList := by
  have hbulk : ∀ earlier ∈ before, earlier ∈ allBulkWork := fun earlier hearlier =>
    mem_allBulkWork (hsplit ▸ List.mem_append_left _ hearlier)
  have hnodup := nodup_bulkWork s
  rw [hsplit, List.nodup_append] at hnodup
  obtain ⟨hdistinct, _, hother⟩ := hnodup
  have hnew : work ∉ before := fun hearlier =>
    hother work hearlier work (List.mem_cons_self ..) rfl
  rw [(h.pushAll hbulk).refused_iff, h.toList_pushAll hbulk hdistinct, List.mem_append]
  exact or_iff_left fun hadded => hnew (List.mem_filter.mp hadded).1

/-- An interrupt that does not clear the queue adds its fresh work at the end. -/
theorem toList_onInterrupt {p : Link ω} (h : p.device.queue.Orderly)
    (hkept : p.clearsQueue = false) :
    p.onInterrupt.device.queue.toList = p.device.queue.toList ++ p.freshWork := by
  rw [freshWork]
  split
  · next hserves => rw [queue_onInterrupt_of_serves hserves, toList_pushAll_bulkWork h]
  · next hidle => rw [queue_onInterrupt_of_idle hidle hkept, List.append_nil]

theorem toList_onInterrupt_of_clears {p : Link ω} (h : p.clearsQueue = true) :
    p.onInterrupt.device.queue.toList = [] := by
  rw [clearsQueue, Bool.or_eq_true] at h
  rcases h with hdisconnect | hreset
  · rw [onInterrupt_of_disconnect hdisconnect]
    rfl
  · simp only [servesReset, Bool.and_eq_true, Bool.not_eq_true'] at hreset
    obtain ⟨⟨hdisconnect, hawake⟩, hreset⟩ := hreset
    rw [onInterrupt_of_reset hdisconnect hawake hreset]
    rfl

end Link

/-! ## Runs -/

namespace Operation

variable {ω : Type} [Controller ω]

/-- The work that an operation adds to the queue. -/
def queues (op : Operation ω) (p : Link ω) : List Work :=
  match op with
  | interrupt => p.freshWork
  | _ => []

/-- The work that an operation takes from the queue. -/
def takes (op : Operation ω) (p : Link ω) : List Work :=
  match op with
  | takeWork => p.takeWork.1.toList
  | _ => []

/-- An operation throws the queue away. -/
def clears (op : Operation ω) (p : Link ω) : Bool :=
  match op with
  | detach => true
  | interrupt => p.clearsQueue
  | _ => false

/-- What waited and what is queued is what is taken and what waits then. -/
theorem queue_run {op : Operation ω} {p : Link ω} (h : p.device.queue.Orderly)
    (hkept : op.clears p = false) :
    p.device.queue.toList ++ op.queues p = op.takes p ++ (op.run p).device.queue.toList := by
  have htalks : ∀ q : Link ω, Talks p q →
      p.device.queue.toList ++ [] = [] ++ q.device.queue.toList := by
    intro q hq
    rw [hq.device_eq, List.append_nil, List.nil_append]
  cases op with
  | attach => exact List.append_nil _
  | detach => cases hkept
  | interrupt => exact (Link.toList_onInterrupt h hkept).symm
  | takeWork =>
    show p.device.queue.toList ++ [] = p.takeWork.1.toList ++ p.takeWork.2.device.queue.toList
    rw [List.append_nil]
    rcases p.takeWork_cases with ⟨hempty, htaken⟩ | ⟨work, q, htaken, hlist⟩
    · rw [htaken, hempty]
      rfl
    · rw [htaken, hlist]
      rfl
  | rxPending | readPacket | fill | write => exact htalks _ (talks_run (by trivial) p)
  | stallEndpoint ep dir =>
    show p.device.queue.toList ++ [] = (p.stallEndpoint ep dir).device.queue.toList
    rw [Link.stallEndpoint, List.append_nil]
    split <;> rfl
  | outside f => exact List.append_nil _

theorem toList_run_of_clears {op : Operation ω} {p : Link ω} (h : op.clears p = true) :
    (op.run p).device.queue.toList = [] := by
  cases op with
  | detach => rfl
  | interrupt => exact Link.toList_onInterrupt_of_clears h
  | attach | takeWork | rxPending | readPacket | fill | write | stallEndpoint | outside => cases h

theorem orderly_run (op : Operation ω) {p : Link ω} (h : p.device.queue.Orderly) :
    (op.run p).device.queue.Orderly := by
  cases hclears : op.clears p with
  | true => exact WorkQueue.orderly_of_empty (toList_run_of_clears hclears)
  | false =>
    have hqueued : ∀ work ∈ op.queues p, work ∈ allBulkWork := by
      cases op with
      | interrupt =>
        show ∀ work ∈ p.freshWork, work ∈ allBulkWork
        rw [Link.freshWork]
        split
        · exact fun work hwork => (List.mem_filter.mp hwork).1
        · exact List.forall_mem_nil _
      | attach | detach | takeWork | rxPending | readPacket | fill | write | stallEndpoint
      | outside => exact List.forall_mem_nil _
    have hbalance := queue_run h hclears
    refine ⟨nodup_run op h.nodup, fun work hwork => ?_⟩
    have hbefore : work ∈ p.device.queue.toList ++ op.queues p := by
      rw [hbalance]
      exact List.mem_append_right _ hwork
    rcases List.mem_append.mp hbefore with hold | hnew
    · exact h.bulk work hold
    · exact hqueued work hnew

/-- Whatever happens to a device, its queue stays in order. -/
theorem orderly_runAll (ops : List (Operation ω)) {p : Link ω} (h : p.device.queue.Orderly) :
    (runAll ops p).device.queue.Orderly := by
  induction ops generalizing p with
  | nil => exact h
  | cons op ops ih => exact ih (orderly_run op h)

/-- Work is taken in the order it was queued, and none is lost. -/
theorem queue_runAll {ops : List (Operation ω)} {p : Link ω} (h : p.device.queue.Orderly)
    (hkept : ∀ x ∈ steps ops p, x.1.clears x.2 = false) :
    p.device.queue.toList ++ (steps ops p).flatMap (fun x => x.1.queues x.2) =
      (steps ops p).flatMap (fun x => x.1.takes x.2) ++
        (runAll ops p).device.queue.toList := by
  induction ops generalizing p with
  | nil => exact List.append_nil _
  | cons op ops ih =>
    obtain ⟨hfirst, hrest⟩ := List.forall_mem_cons.mp hkept
    have hbalance : p.device.queue.toList ++ op.queues p =
        op.takes p ++ (op.run p).device.queue.toList := queue_run h hfirst
    have hothers := ih (orderly_run op h) hrest
    simp only [steps, List.flatMap_cons]
    rw [← List.append_assoc, hbalance, List.append_assoc, hothers, ← List.append_assoc]
    rfl

end Operation

/-- No event of an endpoint is lost or reordered.

From power-on some operations lead to `p`, on any hardware.

No work waits twice in its queue, all of it is for an endpoint from 1 to 3, and there are six pieces
of it at most.

An interrupt may come when the host has reset the device, which is awake or woken by it, and report
neither a pulled cable nor a reset.  Then behind all that waited is queued what the interrupt
reports and what did not wait yet, by ascending endpoint and OUT before IN.  The queue is offered
each reported piece in turn, and refuses none but those that waited.

Whatever operations follow, as long as none of them clears the queue, the work that waits and the
work that is queued is, in this order, the work that is taken and the work that waits then. -/
theorem no_event_lost {ω : Type} [Controller ω] (descriptors : Descriptors) (budget : WaitBudget)
    (w : ω) (ops : List (Operation ω)) :
    let p := Operation.runAll ops ⟨{ descriptors, budget }, w⟩
    let queue := p.device.queue
    let status := p.roused.1
    (queue.toList.Nodup ∧ queue.toList.length ≤ 6 ∧
      ∀ work ∈ queue.toList, 1 ≤ work.endpoint ∧ work.endpoint ≤ 3) ∧
    (Lifecycle.waiting ≤ p.device.lifecycle →
      p.device.suspended = false ∨ status.bus.resume = true →
      status.bus.disconnect = false → status.bus.reset = false →
        p.onInterrupt.device.queue.toList = queue.toList ++
          List.filter (fun work => status.has work.endpoint.toNat work.direction &&
              work ∉ queue.toList)
            [⟨1, .toDevice⟩, ⟨1, .toHost⟩, ⟨2, .toDevice⟩, ⟨2, .toHost⟩, ⟨3, .toDevice⟩,
              ⟨3, .toHost⟩] ∧
        p.onInterrupt.device.queue = queue.pushAll (Link.bulkWork status) ∧
        ∀ before work after, Link.bulkWork status = before ++ work :: after →
          (((queue.pushAll before).push work).1 = false ↔ work ∈ queue.toList)) ∧
    ∀ later : List (Operation ω),
      (∀ x ∈ Operation.steps later p, x.1.clears x.2 = false) →
        queue.toList ++ (Operation.steps later p).flatMap (fun x => x.1.queues x.2) =
          (Operation.steps later p).flatMap (fun x => x.1.takes x.2) ++
            (Operation.runAll later p).device.queue.toList := by
  intro p queue status
  have horderly : queue.Orderly :=
    Operation.orderly_runAll ops (WorkQueue.orderly_of_empty WorkQueue.toList_empty)
  refine ⟨⟨horderly.nodup, horderly.length_le, ?_⟩, ?_, fun later => Operation.queue_runAll horderly⟩
  · have hnumbers : ∀ work ∈ allBulkWork, 1 ≤ work.endpoint ∧ work.endpoint ≤ 3 := by decide
    exact fun work hwork => hnumbers work (horderly.bulk work hwork)
  · intro hwaiting hawake hdisconnect hreset
    have hqueued : p.onInterrupt.device.queue = queue.pushAll (Link.bulkWork status) :=
      Link.queue_onInterrupt_of_serves ⟨hwaiting, hawake, hdisconnect, hreset⟩
    refine ⟨?_, hqueued, ?_⟩
    · rw [hqueued]
      exact Link.toList_pushAll_bulkWork horderly status
    · intro before work after hsplit
      exact Link.refused_of_reported horderly hsplit

/-! ## On the bench -/

section Bench

open Bench

/-- A device is configured and gets work on endpoints 1 and 3.  The main loop takes one piece of it,
and then endpoint 1 has the same work again and endpoint 2 has some. -/
def busyAgain : List (Operation FifoController) :=
  addressing ++ hostSends (configurationSetup 1).toBytes ++ hostCollects ++
    [.outside (Driven.raise { rx := 10, tx := 2 }), .interrupt, .takeWork,
      .outside (Driven.raise { rx := 6, tx := 2 })]

/-- What waits already is not queued again, and the rest is queued behind it and taken in order. -/
theorem no_event_lost_between_takes :
    let p := Operation.runAll busyAgain (⟨{}, {}⟩ : Link FifoController)
    p.device.queue.toList = [⟨1, .toHost⟩, ⟨3, .toDevice⟩] ∧
      p.onInterrupt.device.queue.toList =
        [⟨1, .toHost⟩, ⟨3, .toDevice⟩, ⟨1, .toDevice⟩, ⟨2, .toDevice⟩] ∧
      (Operation.steps [.interrupt, .takeWork, .takeWork] p).flatMap (fun x => x.1.takes x.2) ++
          (Operation.runAll [.interrupt, .takeWork, .takeWork] p).device.queue.toList =
        [⟨1, .toHost⟩, ⟨3, .toDevice⟩, ⟨1, .toDevice⟩, ⟨2, .toDevice⟩] := by
  have hlist : (Operation.runAll busyAgain (⟨{}, {}⟩ : Link FifoController)).device.queue.toList =
      [⟨1, .toHost⟩, ⟨3, .toDevice⟩] := by decide +kernel
  have hstatus : (Operation.runAll busyAgain (⟨{}, {}⟩ : Link FifoController)).roused.1 =
      { rx := 6, tx := 2 } := by decide +kernel
  have hreset : Lifecycle.waiting ≤
      (Operation.runAll busyAgain (⟨{}, {}⟩ : Link FifoController)).device.lifecycle := by
    decide +kernel
  have hawake : (Operation.runAll busyAgain (⟨{}, {}⟩ : Link FifoController)).device.suspended =
      false := by decide +kernel
  have hkept : ∀ x ∈ Operation.steps [.interrupt, .takeWork, .takeWork]
      (Operation.runAll busyAgain (⟨{}, {}⟩ : Link FifoController)), x.1.clears x.2 = false := by
    decide +kernel
  have hadded : (Operation.steps [.interrupt, .takeWork, .takeWork]
      (Operation.runAll busyAgain (⟨{}, {}⟩ : Link FifoController))).flatMap
        (fun x => x.1.queues x.2) = [⟨1, .toDevice⟩, ⟨2, .toDevice⟩] := by decide +kernel
  obtain ⟨_, hserved, htaken⟩ := no_event_lost {} {} ({} : FifoController) busyAgain
  obtain ⟨hqueued, _⟩ := hserved hreset (.inl hawake) (by rw [hstatus]) (by rw [hstatus])
  have hbalance := htaken _ hkept
  rw [hlist, hstatus] at hqueued
  rw [hlist, hadded] at hbalance
  exact ⟨hlist, hqueued, hbalance.symm⟩

end Bench

end FlashProgrammer.Usb

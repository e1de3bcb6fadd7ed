import FlashProgrammer.Bench.Rig
import FlashProgrammer.Proofs.Programmer.ServingEffort
import FlashProgrammer.Proofs.Sfdp.Walk
import FlashProgrammer.Proofs.Usb.BoundedTransfers
import FlashProgrammer.Proofs.Usb.QueuedWork

/-!
# Every wait is bounded

The firmware is at the mercy of its hardware for every answer, but never for how long it runs.

A turn of the main loop empties the queue with no count of its own.  `Polled` is a turn as it
stands, without fuel, so to be in the relation is to have come to an end.  Each turn comes to one
end, since the queue gets shorter with each piece of work.  No work is queued twice, and so a turn
takes at most two requests.

All other waits count.  What a turn asks of its hardware adds up to `turnBound`, whatever the
hardware answers.
-/

namespace FlashProgrammer.Programmer

open Flash Protocol Usb Trace
open Bench (Rig)

/-! ## Turns as they stand -/

section Turns

variable {ω : Type} [Spi.Bus ω] [ResetLine ω] [Controller ω]

/-- How the flash endpoint is served once, with the frame that is taken if there is one. -/
inductive Serviced (s : Station ω) : List (List UInt8) → Station ω → Prop where
  | quiet {p : Link ω} (hpending : s.2.rxPending flashEndpoint = (false, p)) :
      Serviced s [] (s.1, p)
  | unread {p q : Link ω} {e : Fault} (hpending : s.2.rxPending flashEndpoint = (true, p))
      (hread : p.readPacket flashEndpoint maxPacket = (.error e, q)) : Serviced s [] (s.1, q)
  | request {p q : Link ω} {frame : List UInt8} {r : Request}
      (hpending : s.2.rxPending flashEndpoint = (true, p))
      (hread : p.readPacket flashEndpoint maxPacket = (.ok frame, q))
      (hdecode : Request.decode frame = .ok r) : Serviced s [frame] (serve r (s.1, q))
  | refused {p q : Link ω} {frame : List UInt8} {e : FrameError}
      (hpending : s.2.rxPending flashEndpoint = (true, p))
      (hread : p.readPacket flashEndpoint maxPacket = (.ok frame, q))
      (hdecode : Request.decode frame = .error e) : Serviced s [frame] (refuse .toHost (s.1, q))

/-- How work is taken until none is left, with the frames that are taken for it. -/
inductive Drained : Station ω → List (List UInt8) → Station ω → Prop where
  | empty {s : Station ω} {p : Link ω} (htake : s.2.takeWork = (none, p)) : Drained s [] (s.1, p)
  | flash {s t u : Station ω} {p : Link ω} {frames more : List (List UInt8)}
      (htake : s.2.takeWork = (some ⟨flashEndpoint, .toDevice⟩, p))
      (hserved : Serviced (s.1, p) frames t) (hrest : Drained t more u) :
      Drained s (frames ++ more) u
  | other {s t : Station ω} {p : Link ω} {work : Work} {frames : List (List UInt8)}
      (htake : s.2.takeWork = (some work, p)) (hother : work ≠ ⟨flashEndpoint, .toDevice⟩)
      (hrest : Drained (s.1, p) frames t) : Drained s frames t

/-- A turn of the main loop, with the frames that it takes. -/
inductive Polled (s : Station ω) : List (List UInt8) → Station ω → Prop where
  | unconfigured (h : s.2.device.isConfigured = false) : Polled s [] s
  | quiet {t : Station ω} {p : Link ω} {frames : List (List UInt8)}
      (h : s.2.device.isConfigured = true) (hdrained : Drained s frames t)
      (hpending : t.2.rxPending flashEndpoint = (false, p)) : Polled s frames (t.1, p)
  /-- The interrupt of a packet was merged with an earlier one. -/
  | merged {t u : Station ω} {p : Link ω} {frames more : List (List UInt8)}
      (h : s.2.device.isConfigured = true) (hdrained : Drained s frames t)
      (hpending : t.2.rxPending flashEndpoint = (true, p)) (hserved : Serviced (t.1, p) more u) :
      Polled s (frames ++ more) u

variable {s t u : Station ω} {frames more : List (List UInt8)}

/-! ### One end -/

theorem Serviced.unique (h : Serviced s frames t) (h' : Serviced s more u) :
    frames = more ∧ t = u := by
  cases h <;> cases h' <;> grind

theorem Drained.unique (h : Drained s frames t) (h' : Drained s more u) :
    frames = more ∧ t = u := by
  induction h generalizing more u with
  | empty htake => cases h' <;> grind
  | flash htake hserved _ ih =>
    cases h' with
    | empty htake' => grind
    | flash htake' hserved' hrest' =>
      obtain rfl := (Prod.mk.inj (htake.symm.trans htake')).2
      obtain ⟨rfl, rfl⟩ := hserved.unique hserved'
      obtain ⟨rfl, rfl⟩ := ih hrest'
      exact ⟨rfl, rfl⟩
    | other htake' hother => grind
  | other htake hother _ ih =>
    cases h' with
    | empty htake' => grind
    | flash htake' => grind
    | other htake' _ hrest' =>
      obtain rfl := (Prod.mk.inj (htake.symm.trans htake')).2
      exact ih hrest'

theorem Polled.unique (h : Polled s frames t) (h' : Polled s more u) :
    frames = more ∧ t = u := by
  cases h with
  | unconfigured h => cases h' <;> grind
  | quiet h hdrained hpending =>
    cases h' with
    | unconfigured h' => grind
    | quiet _ hdrained' hpending' | merged _ hdrained' hpending' _ =>
      obtain ⟨rfl, rfl⟩ := hdrained.unique hdrained'
      grind
  | merged h hdrained hpending hserved =>
    cases h' with
    | unconfigured h' => grind
    | quiet _ hdrained' hpending' =>
      obtain ⟨rfl, rfl⟩ := hdrained.unique hdrained'
      grind
    | merged _ hdrained' hpending' hserved' =>
      obtain ⟨rfl, rfl⟩ := hdrained.unique hdrained'
      obtain rfl := (Prod.mk.inj (hpending.symm.trans hpending')).2
      obtain ⟨rfl, rfl⟩ := hserved.unique hserved'
      exact ⟨rfl, rfl⟩

/-! ### Every turn ends -/

theorem serviced_service (s : Station ω) : ∃ frames, Serviced s frames (service s) := by
  rw [service]
  cases hpending : s.2.rxPending flashEndpoint with
  | mk pending p =>
    cases pending with
    | false => exact ⟨[], .quiet hpending⟩
    | true =>
      simp only
      cases hread : p.readPacket flashEndpoint maxPacket with
      | mk outcome q =>
        cases outcome with
        | error e => exact ⟨[], .unread hpending hread⟩
        | ok frame =>
          simp only
          cases hdecode : Request.decode frame with
          | ok r => exact ⟨[frame], .request hpending hread hdecode⟩
          | error e => exact ⟨[frame], .refused hpending hread hdecode⟩

/-- There is fuel enough, because each piece of work leaves one less. -/
theorem drained_drain {fuel : Nat} (hfuel : s.2.device.queue.toList.length ≤ fuel) :
    ∃ frames, Drained s frames (drain fuel s) := by
  induction fuel generalizing s with
  | zero =>
    obtain ⟨_, htake⟩ | ⟨_, _, _, hlist⟩ := s.2.takeWork_cases
    · exact ⟨[], .empty htake⟩
    · rw [hlist] at hfuel
      cases hfuel
  | succ fuel ih =>
    rw [drain]
    obtain ⟨_, htake⟩ | ⟨work, p, htake, hlist⟩ := s.2.takeWork_cases
    · rw [htake]
      exact ⟨[], .empty htake⟩
    · rw [hlist, List.length_cons] at hfuel
      have hless : p.device.queue.toList.length ≤ fuel := Nat.le_of_succ_le_succ hfuel
      rw [htake]
      simp only
      split
      · next hflash =>
        subst hflash
        obtain ⟨frames, hserved⟩ := serviced_service (s.1, p)
        -- Serving queues nothing, so what is left of the queue is still short enough.
        have hqueue := (retains_service (s.1, p)).queue_eq
        obtain ⟨more, hrest⟩ := ih (s := service (s.1, p)) (by rw [hqueue]; exact hless)
        exact ⟨frames ++ more, .flash htake hserved hrest⟩
      · next hother =>
        obtain ⟨frames, hrest⟩ := ih (s := (s.1, p)) hless
        exact ⟨frames, .other htake hother hrest⟩

theorem polled_poll (s : Station ω) : ∃ frames, Polled s frames (poll s) := by
  rw [poll]
  split
  · next hconfigured =>
    obtain ⟨frames, hdrained⟩ :=
      drained_drain (Nat.le_of_eq (WorkQueue.length_toList s.2.device.queue))
    simp only
    generalize drain s.2.device.queue.length s = t at hdrained ⊢
    cases hpending : t.2.rxPending flashEndpoint with
    | mk pending p =>
      cases pending with
      | false => exact ⟨frames, .quiet hconfigured hdrained hpending⟩
      | true =>
        obtain ⟨more, hserved⟩ := serviced_service (t.1, p)
        exact ⟨frames ++ more, .merged hconfigured hdrained hpending hserved⟩
  · next hno => exact ⟨[], .unconfigured (Bool.eq_false_iff.mpr hno)⟩

theorem Serviced.eq_service (h : Serviced s frames t) : t = service s := by
  obtain ⟨_, hserved⟩ := serviced_service s
  exact (h.unique hserved).2

/-- Serving the flash endpoint queues no work. -/
theorem Serviced.queue_eq (h : Serviced s frames t) : t.2.device.queue = s.2.device.queue := by
  rw [h.eq_service]
  exact (retains_service s).queue_eq

/-! ### How many requests -/

theorem Serviced.length_le (h : Serviced s frames t) : frames.length ≤ 1 := by
  cases h with
  | quiet | unread => exact Nat.zero_le 1
  | request | refused => exact Nat.le_refl 1

omit [Spi.Bus ω] [ResetLine ω] [Controller ω] in
theorem queue_of_takeWork {p q : Link ω} {work : Work} (h : p.takeWork = (some work, q)) :
    p.device.queue.toList = work :: q.device.queue.toList := by
  obtain ⟨_, hnone⟩ | ⟨_, _, hsome, hlist⟩ := p.takeWork_cases
  · rw [hnone] at h
    cases h
  · rw [hsome] at h
    cases h
    exact hlist

/-- One frame at most is taken for each work of the flash endpoint. -/
theorem Drained.length_le (h : Drained s frames t) :
    frames.length ≤ s.2.device.queue.toList.count ⟨flashEndpoint, .toDevice⟩ := by
  induction h with
  | empty => exact Nat.zero_le _
  | @flash s t u p frames more htake hserved _ ih =>
    have hone := hserved.length_le
    have hqueue : t.2.device.queue = p.device.queue := hserved.queue_eq
    rw [hqueue] at ih
    rw [queue_of_takeWork htake, List.count_cons_self, List.length_append]
    omega
  | other htake hother _ ih =>
    rw [queue_of_takeWork htake, List.count_cons_of_ne hother]
    exact ih

theorem Polled.length_le (h : Polled s frames t) (hnodup : s.2.device.queue.toList.Nodup) :
    frames.length ≤ 2 := by
  have hone := List.nodup_iff_count.mp hnodup ⟨flashEndpoint, .toDevice⟩
  cases h with
  | unconfigured => exact Nat.zero_le 2
  | quiet _ hdrained => exact Nat.le_trans hdrained.length_le (Nat.le_trans hone (Nat.le_succ 1))
  | merged _ hdrained _ hserved =>
    have hmost := hdrained.length_le
    have hlast := hserved.length_le
    rw [List.length_append]
    omega

end Turns

/-! ## What a turn asks of its hardware -/

/-- The actions of a turn of the main loop, at the most. -/
def turnBound (spins polls : Nat) : Nat := 2 * serviceBound spins polls + 1

section Effort

variable {ω : Type} [Spi.Bus ω] [ResetLine ω] [Controller ω] {spins polls : Nat}
  {s t : Station (Traced ω)} {frames : List (List UInt8)}

theorem Serviced.within (h : Serviced s frames t) (hs : Paced spins polls s) :
    Within (serviceBound spins polls) s.2.hw t.2.hw ∧ Paced spins polls t := by
  rw [h.eq_service]
  exact ⟨within_service hs, (serviceInvariant_paced spins polls).service hs⟩

omit [Spi.Bus ω] [ResetLine ω] [Controller ω] in
/-- Taking work asks nothing. -/
theorem Paced.taken (hs : Paced spins polls s) {work : Option Work} {p : Link (Traced ω)}
    (htake : s.2.takeWork = (work, p)) : p.hw = s.2.hw ∧ Paced spins polls (s.1, p) := by
  have hpaced : Paced spins polls (s.1, s.2.takeWork.2) := ⟨hs.wellFormed, hs.polls_eq, hs.spins_eq⟩
  rw [htake] at hpaced
  exact ⟨congrArg (fun taken => taken.2.hw) htake.symm, hpaced⟩

/-- Only work of the flash endpoint asks something of the hardware. -/
theorem Drained.within (h : Drained s frames t) (hs : Paced spins polls s) :
    Within (s.2.device.queue.toList.count ⟨flashEndpoint, .toDevice⟩ * serviceBound spins polls)
      s.2.hw t.2.hw ∧ Paced spins polls t := by
  induction h with
  | empty htake =>
    obtain ⟨hsame, hpaced⟩ := hs.taken htake
    rw [← hsame]
    exact ⟨within_same _, hpaced⟩
  | @flash s t u p _ _ htake hserved _ ih =>
    obtain ⟨hsame, hpaced⟩ := hs.taken htake
    obtain ⟨hone, hpaced'⟩ := hserved.within hpaced
    obtain ⟨hrest, hlast⟩ := ih hpaced'
    have hqueue : t.2.device.queue = p.device.queue := hserved.queue_eq
    rw [hqueue] at hrest
    rw [queue_of_takeWork htake, List.count_cons_self, Nat.succ_mul, ← hsame]
    exact ⟨hone.trans hrest (Nat.le_of_eq (Nat.add_comm _ _)), hlast⟩
  | other htake hother _ ih =>
    obtain ⟨hsame, hpaced⟩ := hs.taken htake
    rw [queue_of_takeWork htake, List.count_cons_of_ne hother, ← hsame]
    exact ih hpaced

theorem Polled.within (h : Polled s frames t) (hs : Paced spins polls s)
    (hnodup : s.2.device.queue.toList.Nodup) : Within (turnBound spins polls) s.2.hw t.2.hw := by
  have hone := Nat.mul_le_mul_right (serviceBound spins polls)
    (List.nodup_iff_count.mp hnodup ⟨flashEndpoint, .toDevice⟩)
  rw [turnBound]
  cases h with
  | unconfigured => exact within_same _
  | @quiet t p _ _ hdrained hpending =>
    have hlast := within_rxPending flashEndpoint t.2
    rw [hpending] at hlast
    exact (hdrained.within hs).1.trans hlast (by omega)
  | @merged t u p _ _ _ hdrained hpending hserved =>
    obtain ⟨hfirst, hpaced⟩ := hdrained.within hs
    have hlast := within_rxPending flashEndpoint t.2
    have hpaced' := (serviceInvariant_paced spins polls).rxPending hpaced
    rw [hpending] at hlast hpaced'
    have hmost : Within (serviceBound spins polls + 1) s.2.hw p.hw := hfirst.trans hlast (by omega)
    exact hmost.trans (hserved.within hpaced').1 (by omega)

end Effort

/-! ## All runs -/

section Runs

variable {ω : Type} [Spi.Bus ω] [ResetLine ω] [Controller ω] {s : Station ω}

/-- A station that is in use.  On the USB side interrupts come, the device attaches and detaches,
and the hardware does what it likes; the main loop takes its turns, and requests may be answered
apart from it. -/
inductive InUse : Station ω → Prop where
  | start (descriptors : Descriptors) (usb flash : WaitBudget) (w : ω) :
      InUse ({ budget := flash }, ⟨{ descriptors, budget := usb }, w⟩)
  | usb {s : Station ω} (h : InUse s) (op : Operation ω) : InUse (s.1, op.run s.2)
  | poll {s : Station ω} (h : InUse s) : InUse (poll s)
  | answer {s : Station ω} (h : InUse s) (r : Request) :
      InUse ((s.1.answer r s.2.hw).2.1, { s.2 with hw := (s.1.answer r s.2.hw).2.2 })

theorem InUse.reachable (h : InUse s) : Reachable s.1 := by
  have hturn : TurnInvariant fun s : Station ω => Reachable s.1 :=
    ServiceInvariant.turn ⟨id, id, fun r h => .served r _ h, id⟩ id
  induction h with
  | start _ _ flash _ => exact .start flash
  | usb _ _ ih => exact ih
  | poll _ ih => exact hturn.poll ih
  | answer _ r ih => exact ih.answer r

/-- No work waits twice. -/
theorem InUse.nodup (h : InUse s) : s.2.device.queue.toList.Nodup := by
  induction h with
  | start => exact List.nodup_nil
  | usb _ op ih => exact op.nodup_run ih
  | poll _ ih => exact turnInvariant_nodup.poll ih
  | answer _ _ ih => exact ih

/-- Every wait is bounded, whatever the controller and the chips answer.

A turn of the main loop comes to one end, takes at most two requests and asks for at most so many
actions of its hardware as the two budgets allow.  A read asks for a packet, and a write before each
of its packets for the collection of the last one, once more than there are spins at the most.  A
wait for a chip reads its status at most as often as there are polls.  A buffer is filled from at
most as many packets as it has bytes, and a walk through a chip's description reads it at most 258
times. -/
theorem waits_bounded (h : InUse s) :
    (∃ frames, frames.length ≤ 2 ∧
      ∀ taken t, Polled s taken t ↔ taken = frames ∧ t = poll s) ∧
    (∃ t, untracedStation t = poll s ∧ poll (s.1, traced s.2) = t ∧
      t.2.hw.events.length ≤ turnBound s.2.device.budget.usbSpins s.1.budget.flashPolls) ∧
    (∀ (ep : UInt8) (room : Nat) (p : Link ω),
      (Operation.asked [.readPacket ep room] p).countP Action.asksReady ≤
        p.device.budget.usbSpins + 1) ∧
    (∀ (ep : UInt8) (data : List UInt8) (p : Link ω),
      ∀ n ∈ asksPerPacket 0 (Operation.asked [.write ep data] p),
        n ≤ p.device.budget.usbSpins + 1) ∧
    (∀ (slot : Slot) (polls : Nat) (w : ω),
      let ts := transactions (waitIdle slot polls (Traced.fresh w)).2.events
      ts.length ≤ polls ∧ ∀ t ∈ ts, ∃ result, Polls slot result t) ∧
    (∀ (ep : UInt8) (buffer : List UInt8) (p : Link ω),
      ∃ taken ≤ buffer.length, ∃ received q,
        Link.Filled ep buffer.length p taken received q ∧
        p.fill ep buffer =
          (received.outcome, received.bytes ++ buffer.drop received.bytes.length, q) ∧
        (Operation.asked [.fill ep buffer] p).countP Action.releases = taken) ∧
    ∀ (read : Sfdp.Reader ω) (w : ω),
      (Sfdp.discover (Sfdp.logged read) (w, [])).2.2.length ≤ 258 := by
  refine ⟨?_, ?_, asksReady_readPacket, asksBusy_write, ?_, filled_fill, ?_⟩
  · obtain ⟨frames, hpolled⟩ := polled_poll s
    refine ⟨frames, hpolled.length_le h.nodup, fun taken t => ⟨?_, ?_⟩⟩
    · intro htaken
      exact htaken.unique hpolled
    · rintro ⟨rfl, rfl⟩
      exact hpolled
  · obtain ⟨frames, hpolled⟩ := polled_poll (s.1, traced s.2)
    have hwithin := hpolled.within ⟨h.reachable.wellFormed, rfl, rfl⟩ h.nodup
    exact ⟨_, (poll_untraced (s.1, traced s.2)).symm, rfl, hwithin.length_events_le⟩
  · intro slot polls w
    obtain ⟨ts, hwaits, hissues⟩ := waitIdle_waits slot polls (Traced.fresh w)
    rw [hissues.transactions_eq]
    exact ⟨hwaits.length_le, hwaits.polls⟩
  · intro read w
    exact (Sfdp.discover_walk read w).length_le

end Runs

/-! ## On the bench -/

section OnBench

variable {ω : Type} [Spi.Bus ω] [ResetLine ω] [Controller ω] [Bench.Driven ω] {s : Station ω}

theorem InUse.deliver (h : InUse s) (ep : Endpoint) (packet : List UInt8) :
    InUse (s.1, Bench.deliver ep packet s.2) :=
  h.usb (.outside (Bench.Driven.deliver ep packet))

theorem InUse.fire (h : InUse s) (status : InterruptStatus) :
    InUse (s.1, Bench.fire status s.2) :=
  (h.usb (.outside (Bench.Driven.raise status))).usb .interrupt

theorem InUse.enumerate (h : InUse s) : InUse (s.1, Bench.enumerate s.2) := by
  have hplugged := ((h.usb .attach).fire {}).fire { bus := { reset := true } }
  have haddressed := (hplugged.deliver .control (Bench.addressSetup 5).toBytes).fire { rx := 1 }
  have hconfigured := ((haddressed.fire { tx := 1 }).deliver .control
    (Bench.configurationSetup 1).toBytes).fire { rx := 1 }
  exact hconfigured.fire { tx := 1 }

end OnBench

/-- A programmer on a rig without chips.  The host has asked three times how many chips there are,
and the interrupt has queued work for it. -/
def askedThrice : Station Rig :=
  let s := Rig.enumerated ⟨none, none, none⟩ (List.replicate 3 Request.deviceCount.encode)
  (s.1, Bench.fire { rx := 2 } s.2)

theorem inUse_askedThrice : InUse askedThrice := by
  have hstart : InUse (Rig.station ⟨none, none, none⟩) := .start {} {} {} _
  have hasked : ∀ {s : Station Rig}, InUse s →
      InUse (s.1, Bench.deliver .flash Request.deviceCount.encode s.2) :=
    fun h => h.deliver .flash _
  exact (hasked (hasked (hasked hstart.enumerate))).fire { rx := 2 }

/-- A turn takes two of the requests, and the third one waits for the next turn. -/
theorem waits_bounded_askedThrice :
    InUse askedThrice ∧
    (∃ frames, frames.length ≤ 2 ∧
      ∀ taken t, Polled askedThrice taken t ↔ taken = frames ∧ t = poll askedThrice) ∧
    (askedThrice.2.hw.usb.out.get .flash).packets.length = 3 ∧
    ((poll askedThrice).2.hw.usb.out.get .flash).packets.length = 1 ∧
    ∃ t, untracedStation t = poll askedThrice ∧
      poll (askedThrice.1, traced askedThrice.2) = t ∧
      t.2.hw.events.length ≤
        turnBound askedThrice.2.device.budget.usbSpins askedThrice.1.budget.flashPolls := by
  obtain ⟨hturn, hevents, _⟩ := waits_bounded inUse_askedThrice
  have hbefore : (askedThrice.2.hw.usb.out.get .flash).packets.length = 3 := by decide +kernel
  have hafter : ((poll askedThrice).2.hw.usb.out.get .flash).packets.length = 1 := by
    decide +kernel
  exact ⟨inUse_askedThrice, hturn, hbefore, hafter, hevents⟩

end FlashProgrammer.Programmer

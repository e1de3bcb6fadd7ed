import FlashProgrammer.Bench.Rig
import FlashProgrammer.Proofs.Bench.WaitingPackets
import FlashProgrammer.Proofs.Programmer.Turns
import FlashProgrammer.Proofs.Usb.QueuedWork

/-!
# Requests are served in order

Between two turns of the main loop there may be any number of interrupts, and what they
queue decides only how many packets the next turn looks for.  `withoutWork` is a device on
which nothing is queued.  It is a guise, so the work that is queued makes no difference to a
request, and a bulk interrupt makes no difference under it.

`Consumes s log s'` says that serving the flash endpoint time after time led from `s` to
`s'` and took `log`.  Under the guise a whole schedule is no more than that, and how much
was taken says how often.
-/

namespace FlashProgrammer.Programmer

open Flash Protocol Usb Trace Bench

variable {β ρ : Type} [Spi.Bus β] [ResetLine ρ]

/-! ## Schedules -/

/-- What happens to a configured programmer while endpoint 0 and the bus are quiet. -/
inductive Turn where
  /-- A turn of the main loop. -/
  | poll
  /-- An interrupt.  The lowest bits are those of endpoint 1. -/
  | interrupt (rx tx : BitVec 15)
deriving DecidableEq, Repr

namespace Turn

/-- The reading of the interrupt registers.  Nothing happened on the bus or on endpoint 0. -/
def status (rx tx : BitVec 15) : InterruptStatus where
  rx := rx ++ (0 : BitVec 1)
  tx := tx ++ (0 : BitVec 1)

theorem pending_status (rx tx : BitVec 15) : (status rx tx).pending 0 = false := by
  have hbit : ∀ bits : BitVec 15, (bits ++ (0 : BitVec 1)).getLsbD 0 = false := by
    intro bits
    rw [BitVec.getLsbD_append]
    rfl
  show ((rx ++ (0 : BitVec 1)).getLsbD 0 || (tx ++ (0 : BitVec 1)).getLsbD 0) = false
  rw [hbit rx, hbit tx]
  rfl

def run : Turn → Station (Fifos β ρ) → Station (Fifos β ρ)
  | poll, s => Programmer.poll s
  | interrupt rx tx, s => (s.1, fire (status rx tx) s.2)

def runAll (turns : List Turn) (s : Station (Fifos β ρ)) : Station (Fifos β ρ) :=
  turns.foldl (fun s turn => turn.run s) s

end Turn

/-- What the queued work takes, as `drain` serves it. -/
def drainLog : (fuel : Nat) → Station (Fifos β ρ) → List Taken
  | 0, _ => []
  | fuel + 1, s =>
    match s.2.takeWork with
    | (none, _) => []
    | (some work, link) =>
      if work = ⟨flashEndpoint, .toDevice⟩ then
        (taken? (s.1, link)).toList ++ drainLog fuel (service (s.1, link))
      else drainLog fuel (s.1, link)

/-- What a turn of the main loop takes. -/
def pollLog (s : Station (Fifos β ρ)) : List Taken :=
  if s.2.device.isConfigured then
    drainLog s.2.device.queue.length s ++
      (taken? (drain s.2.device.queue.length s)).toList
  else []

namespace Turn

/-- An interrupt takes nothing. -/
def log : Turn → Station (Fifos β ρ) → List Taken
  | poll, s => pollLog s
  | interrupt _ _, _ => []

/-- What a schedule takes. -/
def logAll : List Turn → Station (Fifos β ρ) → List Taken
  | [], _ => []
  | turn :: turns, s => turn.log s ++ logAll turns (turn.run s)

end Turn

/-! ## Queued work makes no difference -/

/-- A device on which no work is queued, and a controller that reports none. -/
def withoutWork : Guise (Fifos β ρ) (Fifos β ρ) where
  device d := { d with queue := .empty, current := none }
  hw w := { w with usb.pending := {} }
  lifecycle_eq := fun _ => rfl
  endpoints_eq := fun _ => rfl
  budget_eq := fun _ => rfl
  halt_eq := fun _ _ => rfl
  usb_eq := fun a w ha => by
    cases a <;> first | rfl | cases ha
  isView := fun _ _ => rfl
  line_eq := fun _ _ => rfl

theorem withoutWork_notes (works : List Work) (p : Link (Fifos β ρ)) :
    withoutWork.link (works.foldl Link.note p) = withoutWork.link p := by
  induction works generalizing p with
  | nil => rfl
  | cons work works ih => exact ih (p.note work)

/-- A bulk interrupt queues work and does nothing else, also while the bus sleeps. -/
theorem withoutWork_fire {p : Link (Fifos β ρ)} (h : p.device.lifecycle = .configured)
    (rx tx : BitVec 15) :
    withoutWork.link (fire (Turn.status rx tx) p) = withoutWork.link p := by
  let q : Link (Fifos β ρ) := ⟨p.device, { p.hw with usb.pending := {} }⟩
  have hread : (Link.mk p.device (Driven.raise (Turn.status rx tx) p.hw)).ask .interrupts =
      (Turn.status rx tx, q) := rfl
  have hpowered : q.powerUp = q := by
    rw [Link.powerUp, if_neg]
    show ¬p.device.lifecycle = .attached
    rw [h]
    decide
  have hserved : q.serviceBus (Turn.status rx tx) =
      (Link.bulkWork (Turn.status rx tx)).foldl Link.note q := by
    have hlive : ¬q.device.lifecycle < .waiting := by
      show ¬p.device.lifecycle < .waiting
      rw [h]
      decide
    show q.serviceEndpoints (Turn.status rx tx) = _
    rw [Link.serviceEndpoints, if_neg hlive, Link.serviceEndpointZero, Turn.pending_status]
    rfl
  have hfired : fire (Turn.status rx tx) p =
      if q.device.suspended then q else q.serviceBus (Turn.status rx tx) := by
    rw [fire, Link.onInterrupt, hread]
    simp only [hpowered]
    rfl
  rw [hfired, hserved]
  split
  · rfl
  · exact withoutWork_notes _ q

/-- What is about to be taken is the same under a guise that leaves the packets. -/
theorem taken?_station (x : Guise (Fifos β ρ) (Fifos β ρ))
    (hpackets : ∀ w, packetsIn (x.hw w) = packetsIn w) (s : Station (Fifos β ρ)) :
    taken? (x.station s) = taken? s := by
  have hprogrammer : (x.station s).1 = s.1 := rfl
  have hlink : (x.station s).2 = x.link s.2 := rfl
  have hgone : gone (x.station s).2.hw (service (x.station s)).2.hw =
      gone s.2.hw (service s).2.hw := by
    rw [x.service_station]
    show gone (x.hw s.2.hw) (x.hw (service s).2.hw) = _
    rw [gone, hpackets, hpackets, gone]
  rw [taken?, taken?, hgone, hlink, x.rxPending_link]
  rcases s.2.rxPending flashEndpoint with ⟨_ | _, p⟩
  · rfl
  · simp only [x.readPacket_link]
    rcases p.readPacket flashEndpoint maxPacket with ⟨_ | frame, q⟩
    · rfl
    · have hdata : ∀ r, dataOf r (s.1, x.link q) = dataOf r (s.1, q) :=
        fun r => dataOf_station x r (s.1, q)
      simp only [hprogrammer, hdata]

/-- So it does not depend on the queued work. -/
theorem taken?_withoutWork (s : Station (Fifos β ρ)) :
    taken? (withoutWork.station s) = taken? s :=
  taken?_station withoutWork (fun _ => rfl) s

/-! ## What is consumed -/

/-- The flash endpoint was served time after time, and took something each time. -/
inductive Consumes : Station (Fifos β ρ) → List Taken → Station (Fifos β ρ) → Prop where
  | stop (s : Station (Fifos β ρ)) : Consumes s [] s
  | take {s s' : Station (Fifos β ρ)} {t : Taken} {log : List Taken} (ht : taken? s = some t)
      (h : Consumes (service s) log s') : Consumes s (t :: log) s'

namespace Consumes

variable {s s' s'' : Station (Fifos β ρ)} {log log' : List Taken}

theorem append (h : Consumes s log s') (h' : Consumes s' log' s'') :
    Consumes s (log ++ log') s'' := by
  induction h with
  | stop s => exact h'
  | take ht _ ih => exact .take ht (ih h')

/-- How much was taken says what was taken, and what became of it. -/
theorem unique (h : Consumes s log s') (h' : Consumes s log' s'')
    (hlength : log.length = log'.length) : log = log' ∧ s' = s'' := by
  induction h generalizing log' with
  | stop s =>
    cases h' with
    | stop => exact ⟨rfl, rfl⟩
    | take => cases hlength
  | take ht _ ih =>
    cases h' with
    | stop => cases hlength
    | take ht' h' =>
      obtain rfl := Option.some.inj (ht.symm.trans ht')
      obtain ⟨hlog, hend⟩ := ih h' (Nat.succ.inj hlength)
      exact ⟨congrArg _ hlog, hend⟩

/-- The packets are taken in order, each of them once. -/
theorem in_order (h : Consumes s log s') {packets : List (List UInt8)} (hs : Ready packets s) :
    ∃ rest, packets = log.flatMap Taken.packets ++ rest ∧ Ready rest s' ∧
      ∀ t ∈ log, t.Belongs := by
  induction h generalizing packets with
  | stop s => exact ⟨packets, rfl, hs, fun _ ht => nomatch ht⟩
  | @take s _ t log ht _ ih =>
    obtain ⟨waiting, hfront, hbelongs, hnext⟩ := hs.service ht
    obtain ⟨rest, hrest, hready, hall⟩ := ih hnext
    refine ⟨rest, ?_, hready, ?_⟩
    · rw [hfront, hrest, List.flatMap_cons, List.append_assoc]
    · intro u hu
      cases hu with
      | head => exact hbelongs
      | tail _ hu => exact hall u hu

/-- Nothing was taken if there was nothing to take. -/
theorem log_eq_nil (h : Consumes s log s') (hnone : taken? s = none) : log = [] := by
  cases h with
  | stop => rfl
  | take ht =>
    rw [hnone] at ht
    cases ht

theorem eq_of_nil (h : Consumes s [] s') : s' = s := by
  cases h
  rfl

/-- Serving the flash endpoint does nothing if the gate is closed. -/
theorem of_service (s : Station (Fifos β ρ)) : Consumes s (taken? s).toList (service s) := by
  cases ht : taken? s with
  | some t => exact .take ht (.stop _)
  | none =>
    have hclosed : ¬(gate s.2).Open := by
      have hnone := taken?_isSome s
      rw [ht] at hnone
      exact of_decide_eq_false hnone.symm
    rw [service_of_closed hclosed]
    exact .stop s

end Consumes

/-! ## Turns of the main loop -/

variable {packets : List (List UInt8)} {s : Station (Fifos β ρ)}

theorem consumes_drain (fuel : Nat) (s : Station (Fifos β ρ)) :
    Consumes (withoutWork.station s) (drainLog fuel s) (withoutWork.station (drain fuel s)) := by
  induction fuel generalizing s with
  | zero => exact .stop _
  | succ fuel ih =>
    -- Work that is taken off the queue is gone under the guise already.
    have hsame : withoutWork.station s = withoutWork.station (s.1, s.2.takeWork.2) := rfl
    rw [drain, drainLog, hsame]
    generalize s.2.takeWork = taken
    obtain ⟨_ | work, p⟩ := taken
    · exact .stop _
    · simp only
      split
      · have hserved := Consumes.of_service (withoutWork.station (s.1, p))
        rw [taken?_withoutWork, withoutWork.service_station] at hserved
        exact hserved.append (ih _)
      · exact ih _

/-- After the queued work the flash endpoint is served once more. -/
theorem poll_of_configured (h : s.2.device.isConfigured = true) :
    poll s = service (drain s.2.device.queue.length s) := by
  rw [poll, if_pos h]
  generalize drain s.2.device.queue.length s = drained
  simp only [rxPending_eq]
  by_cases hopen : (gate drained.2).Open
  · rw [decide_eq_true hopen]
  · rw [decide_eq_false hopen, service_of_closed hopen]

theorem consumes_poll (s : Station (Fifos β ρ)) :
    Consumes (withoutWork.station s) (pollLog s) (withoutWork.station (poll s)) := by
  rw [pollLog]
  split
  · next hconfigured =>
    have hdrained := consumes_drain s.2.device.queue.length s
    rw [poll_of_configured hconfigured]
    generalize drain s.2.device.queue.length s = drained at hdrained ⊢
    have hserved := Consumes.of_service (withoutWork.station drained)
    rw [taken?_withoutWork, withoutWork.service_station] at hserved
    exact hdrained.append hserved
  · next hno =>
    rw [poll, if_neg hno]
    exact .stop _

/-- Only bulk work is served, so the device stays configured. -/
theorem Consumes.lifecycle_eq {s' : Station (Fifos β ρ)} {log : List Taken}
    (h : Consumes s log s') : s'.2.device.lifecycle = s.2.device.lifecycle := by
  induction h with
  | stop => rfl
  | @take s _ _ _ _ _ ih => exact ih.trans (retains_service s).lifecycle_eq

theorem Turn.consumes (turn : Turn) (h : s.2.device.lifecycle = .configured) :
    Consumes (withoutWork.station s) (turn.log s) (withoutWork.station (turn.run s)) := by
  cases turn with
  | poll => exact consumes_poll s
  | interrupt rx tx =>
    have hsame : withoutWork.station s =
        withoutWork.station (s.1, fire (Turn.status rx tx) s.2) :=
      congrArg (Prod.mk s.1) (withoutWork_fire h rx tx).symm
    rw [hsame]
    exact .stop _

/-- Whatever the interrupts, a schedule serves the flash endpoint and does nothing else. -/
theorem Turn.consumes_all (turns : List Turn) (h : s.2.device.lifecycle = .configured) :
    Consumes (withoutWork.station s) (Turn.logAll turns s)
      (withoutWork.station (Turn.runAll turns s)) := by
  induction turns generalizing s with
  | nil => exact .stop _
  | cons turn turns ih =>
    have hturn := turn.consumes h
    exact hturn.append (ih (hturn.lifecycle_eq.trans h))

/-! ## How much a turn takes -/

/-- At most one packet is taken for each piece of work of the flash endpoint. -/
theorem length_drainLog (fuel : Nat) (s : Station (Fifos β ρ)) :
    (drainLog fuel s).length ≤
      s.2.device.queue.toList.count ⟨flashEndpoint, .toDevice⟩ := by
  induction fuel generalizing s with
  | zero => exact Nat.zero_le _
  | succ fuel ih =>
    rw [drainLog]
    obtain ⟨_, hnone⟩ | ⟨work, q, htake, hlist⟩ := s.2.takeWork_cases
    · rw [hnone]
      exact Nat.zero_le _
    · rw [htake, hlist]
      simp only
      split
      · next hflash =>
        have hone : (taken? (s.1, q)).toList.length ≤ 1 := Option.length_toList_le
        have hqueue : (service (s.1, q)).2.device.queue = q.device.queue :=
          (retains_service (s.1, q)).queue_eq
        have hrest := ih (service (s.1, q))
        rw [hqueue] at hrest
        rw [List.length_append, hflash, List.count_cons_self]
        omega
      · next hother =>
        rw [List.count_cons_of_ne hother]
        exact ih (s.1, q)

theorem Turn.nodup_all (turns : List Turn) (h : s.2.device.queue.toList.Nodup) :
    (Turn.runAll turns s).2.device.queue.toList.Nodup := by
  induction turns generalizing s with
  | nil => exact h
  | cons turn turns ih =>
    refine ih ?_
    cases turn with
    | poll => exact turnInvariant_nodup.poll h
    | interrupt rx tx => exact Link.nodup_onInterrupt h

theorem taken?_of_closed (h : ¬(gate s.2).Open) : taken? s = none := by
  rw [← Option.not_isSome_iff_eq_none, taken?_isSome, decide_eq_false h]
  exact Bool.false_ne_true

theorem pollLog_of_closed (h : ¬(gate s.2).Open) : pollLog s = [] :=
  (consumes_poll s).log_eq_nil ((taken?_withoutWork s).trans (taken?_of_closed h))

/-- A turn that finds a packet takes one or two of them for requests. -/
theorem length_pollLog (hnodup : s.2.device.queue.toList.Nodup) (h : (gate s.2).Open) :
    1 ≤ (pollLog s).length ∧ (pollLog s).length ≤ 2 := by
  have hconfigured : s.2.device.isConfigured = true := beq_iff_eq.mpr h.1
  have hdrained := consumes_drain s.2.device.queue.length s
  have hmost := Nat.le_trans (length_drainLog s.2.device.queue.length s)
    (List.nodup_iff_count.mp hnodup _)
  rw [pollLog, if_pos hconfigured, List.length_append]
  generalize drainLog s.2.device.queue.length s = log at hdrained hmost ⊢
  generalize drain s.2.device.queue.length s = drained at hdrained ⊢
  refine ⟨?_, Nat.add_le_add hmost Option.length_toList_le⟩
  cases log with
  | cons t log => exact Nat.le_add_right_of_le (Nat.succ_le_succ (Nat.zero_le _))
  | nil =>
    -- The queued work took nothing, so the packet still waits for the check after it.
    have hsame : taken? drained = taken? s := by
      rw [← taken?_withoutWork, hdrained.eq_of_nil, taken?_withoutWork]
    have hsome : (taken? s).isSome = true := by
      rw [taken?_isSome, decide_eq_true h]
    rw [hsame, Option.length_toList_eq_one_iff.mpr hsome]
    exact Nat.le_refl 1

/-! ## Whole schedules -/

/-- Requests are served in order, without loss or duplication, whatever the interrupts.

The host has configured the device, in any run from power-on, and packets wait on the flash
endpoint.  Along any schedule of turns of the main loop and bulk interrupts they are taken from the
front, each of them once: for a request, or as the data of the write before it.  Until the endpoint
is halted a turn that finds a packet serves one or two requests, and once it is halted none.  Two
schedules that serve as many requests differ in nothing but the work that is queued. -/
theorem served_in_order {ω : Type} [Controller ω] (descriptors : Descriptors)
    (budget : WaitBudget) (w : ω) (ops : List (Operation ω))
    (hdevice : s.2.device = (Operation.runAll ops ⟨{ descriptors, budget }, w⟩).device)
    (hprogrammer : Reachable s.1) (hconfigured : s.2.device.lifecycle = .configured)
    (hwaiting : s.2.hw.usb.out.get .flash = ⟨packets.map List.toArray, 0⟩)
    (hfits : ∀ packet ∈ packets, packet.length ≤ 64) :
    (∀ turns : List Turn, ∃ rest,
      let s' := Turn.runAll turns s
      let halted := (s'.2.device.endpoints.get .flash .toDevice).stalled
      packets = (Turn.logAll turns s).flatMap Taken.packets ++ rest ∧
      s'.2.hw.usb.out.get .flash = ⟨rest.map List.toArray, 0⟩ ∧
      (∀ t ∈ Turn.logAll turns s, t.Belongs) ∧
      (rest ≠ [] → halted = false → 1 ≤ (pollLog s').length ∧ (pollLog s').length ≤ 2) ∧
      (rest = [] ∨ halted = true → pollLog s' = [])) ∧
    ∀ turns turns' : List Turn, (Turn.logAll turns s).length = (Turn.logAll turns' s).length →
      Turn.logAll turns s = Turn.logAll turns' s ∧
      (Turn.runAll turns s).1 = (Turn.runAll turns' s).1 ∧
      (Turn.runAll turns s).2.hw.usb.into = (Turn.runAll turns' s).2.hw.usb.into ∧
      (Turn.runAll turns s).2.hw.spi = (Turn.runAll turns' s).2.hw.spi ∧
      (Turn.runAll turns s).2.hw.reset = (Turn.runAll turns' s).2.hw.reset := by
  have hready : Ready packets (withoutWork.station s) :=
    ⟨hprogrammer, hconfigured, hwaiting, hfits⟩
  have hnodup : s.2.device.queue.toList.Nodup := by
    rw [hdevice]
    exact Operation.nodup_runAll ops List.nodup_nil
  constructor
  · intro turns
    have hconsumes := Turn.consumes_all turns hconfigured
    obtain ⟨rest, hsplit, hleft, hbelongs⟩ := hconsumes.in_order hready
    have hpackets : (gate (Turn.runAll turns s).2).waiting = rest.map List.toArray :=
      congrArg OutFifo.packets hleft.fifo_eq
    refine ⟨rest, hsplit, hleft.fifo_eq, hbelongs, ?_, ?_⟩
    · intro hrest hopen
      refine length_pollLog (Turn.nodup_all turns hnodup) ⟨hleft.lifecycle_eq, hopen, ?_⟩
      rw [hpackets]
      exact fun hnil => hrest (List.map_eq_nil_iff.mp hnil)
    · intro hclosed
      refine pollLog_of_closed fun ⟨_, hopen, hsome⟩ => ?_
      rcases hclosed with hnone | hhalted
      · exact hsome (by rw [hpackets, hnone]; rfl)
      · exact Bool.false_ne_true (hopen.symm.trans hhalted)
  · intro turns turns' hlength
    obtain ⟨hlog, hsame⟩ :=
      (Turn.consumes_all turns hconfigured).unique (Turn.consumes_all turns' hconfigured) hlength
    have hfirst := congrArg Prod.fst hsame
    have hinto := congrArg (fun x : Station (Fifos β ρ) => x.2.hw.usb.into) hsame
    have hspi := congrArg (fun x : Station (Fifos β ρ) => x.2.hw.spi) hsame
    have hreset := congrArg (fun x : Station (Fifos β ρ) => x.2.hw.reset) hsame
    exact ⟨hlog, hfirst, hinto, hspi, hreset⟩

/-! ## On the bench -/

/-- A programmer on a rig that the host has asked to target a chip, to write three bytes to its
first page and to verify them. -/
def writeSent : Station Rig :=
  Rig.enumerated
    ⟨some { id := [0xEF, 0x40, 0x14], size := 0x100000, cells := fun _ => 0xFF }, none, none⟩
    [[0x02, 0, 0], [0x05, 0, 0, 0, 3, 0, 0], [7, 8, 9], [0x06]]

/-- Three turns serve the three requests.  After an interrupt the first turn serves two of them, and
nothing else is different. -/
theorem served_in_order_write :
    let late : List Turn := [.poll, .poll, .poll]
    let early : List Turn := [.interrupt 1 0, .poll, .poll]
    (Turn.logAll late writeSent).map Taken.packets =
      [[[0x02, 0, 0]], [[0x05, 0, 0, 0, 3, 0, 0], [7, 8, 9]], [[0x06]]] ∧
    (Turn.logAll early writeSent).length = (Turn.logAll late writeSent).length ∧
    Turn.logAll early writeSent = Turn.logAll late writeSent ∧
    (Turn.runAll early writeSent).1 = (Turn.runAll late writeSent).1 ∧
    (Turn.runAll early writeSent).2.hw.usb.into = (Turn.runAll late writeSent).2.hw.usb.into ∧
    (Turn.runAll early writeSent).2.hw.spi = (Turn.runAll late writeSent).2.hw.spi := by
  intro late early
  have hdevice : writeSent.2.device = (Operation.runAll (addressing ++
      hostSends (configurationSetup 1).toBytes ++ hostCollects) ⟨{}, {}⟩).device := by
    decide +kernel
  have hconfigured : writeSent.2.device.lifecycle = .configured := by
    decide +kernel
  have hwaiting : writeSent.2.hw.usb.out.get .flash =
      ⟨[[0x02, 0, 0], [0x05, 0, 0, 0, 3, 0, 0], [7, 8, 9], [0x06]].map List.toArray, 0⟩ := by
    decide +kernel
  have hlength : (Turn.logAll early writeSent).length = (Turn.logAll late writeSent).length := by
    decide +kernel
  have hstart : Reachable writeSent.1 := by
    have hfirst : writeSent.1 = { budget := {} } := rfl
    rw [hfirst]
    exact .start {}
  have hfits : ∀ packet ∈ [[0x02, 0, 0], [0x05, 0, 0, 0, 3, 0, 0], [7, 8, 9], [(0x06 : UInt8)]],
      packet.length ≤ 64 := by
    decide
  have hagree := (served_in_order {} {} ({} : FifoController) (addressing ++
    hostSends (configurationSetup 1).toBytes ++ hostCollects) hdevice hstart hconfigured hwaiting
    hfits).2 early late hlength
  exact ⟨by decide +kernel, hlength, hagree.1, hagree.2.1, hagree.2.2.1, hagree.2.2.2.1⟩

end FlashProgrammer.Programmer

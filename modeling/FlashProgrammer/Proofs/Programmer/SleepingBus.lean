import FlashProgrammer.Proofs.Programmer.AsleepWork
import FlashProgrammer.Proofs.Programmer.ServedInOrder

/-!
# A sleeping bus does not stop the main loop

A bus that goes idle is meant to put the programmer to rest, and an interrupt that finds the
device asleep does leave the endpoints alone.  The main loop does not look whether it sleeps.  So
packets that wait are served at once, and their answers are committed to a bus that nobody listens
to.

`withoutSleep` is a device that does not know of any sleep.  It is a guise, so a request is
served in the same way asleep and awake.  `Quietly` runs through sleep and wake-ups, and under the
guise it does no more than serve the flash endpoint, which keeps the packets in order.
-/

namespace FlashProgrammer.Programmer

open Flash Protocol Usb Trace Bench

variable {β ρ : Type} [Spi.Bus β] [ResetLine ρ]

/-! ## Frames and packets -/

/-- What is taken on the flash endpoint begins with the frame that is read there. -/
theorem frame_taken? (s : Station (Fifos β ρ)) :
    (taken? s).map Taken.frame = (frame? s).map Prod.fst := by
  rw [taken?, frame?]
  rcases s.2.rxPending flashEndpoint with ⟨_ | _, p⟩
  · rfl
  · simp only
    rcases p.readPacket flashEndpoint maxPacket with ⟨_ | frame, q⟩ <;> rfl

theorem frames_toList (s : Station (Fifos β ρ)) :
    (taken? s).toList.map Taken.frame = ((frame? s).map Prod.fst).toList := by
  rw [← frame_taken?]
  cases taken? s <;> rfl

theorem frames_drainLog (fuel : Nat) (s : Station (Fifos β ρ)) :
    (drainLog fuel s).map Taken.frame = drainFrames fuel s := by
  induction fuel generalizing s with
  | zero => rfl
  | succ fuel ih =>
    rw [drainLog, drainFrames]
    rcases s.2.takeWork with ⟨_ | work, p⟩
    · rfl
    · simp only
      split
      · rw [List.map_append, frames_toList, ih]
      · exact ih (s.1, p)

/-- The frames of a turn of the main loop are those of what it takes. -/
theorem frames_pollLog (s : Station (Fifos β ρ)) :
    (pollLog s).map Taken.frame = pollFrames s := by
  rw [pollLog, pollFrames]
  split
  · simp only
    rw [List.map_append, frames_drainLog, frames_toList]
    generalize drain s.2.device.queue.length s = drained
    rw [rxPending_eq]
    by_cases hopen : (gate drained.2).Open
    · rw [decide_eq_true hopen]
    · have hnone : frame? drained = none := by
        rw [frame?, rxPending_eq, decide_eq_false hopen]
      rw [decide_eq_false hopen, hnone]
      rfl
  · rfl

/-! ## Sleep makes no difference -/

/-- A device that does not know of any sleep, and a controller that was not told what to listen
for. -/
def withoutSleep : Guise (Fifos β ρ) (Fifos β ρ) where
  device d := { d with suspended := false, enabled := {} }
  hw w := { w with usb.enabled := {} }
  lifecycle_eq := fun _ => rfl
  endpoints_eq := fun _ => rfl
  budget_eq := fun _ => rfl
  halt_eq := fun _ _ => rfl
  usb_eq := fun a w ha => by
    cases a <;> first | rfl | cases ha
  isView := fun _ _ => rfl
  line_eq := fun _ _ => rfl

/-- A programmer on which no work is queued and that does not know of any sleep. -/
def atRest (s : Station (Fifos β ρ)) : Station (Fifos β ρ) :=
  withoutSleep.station (withoutWork.station s)

/-- What is consumed is consumed under a guise that leaves the packets. -/
theorem Consumes.station {s s' : Station (Fifos β ρ)} {log : List Taken}
    (x : Guise (Fifos β ρ) (Fifos β ρ)) (hpackets : ∀ w, packetsIn (x.hw w) = packetsIn w)
    (h : Consumes s log s') : Consumes (x.station s) log (x.station s') := by
  induction h with
  | stop s => exact .stop _
  | @take s s' t log ht _ ih =>
    rw [← x.service_station] at ih
    exact .take ((taken?_station x hpackets s).trans ht) ih

/-! ## Quiet interrupts -/

/-- An interrupt that leaves the transfers alone.  The cable is in, and the device sleeps on or
neither the bus is reset nor endpoint 0 has something to do. -/
def LeavesTransfers (status : InterruptStatus) (p : Link (Fifos β ρ)) : Prop :=
  status.bus.disconnect = false ∧
    (p.device.suspended = true ∧ status.bus.resume = false ∨
      status.bus.reset = false ∧ status.pending 0 = false)

instance (status : InterruptStatus) (p : Link (Fifos β ρ)) :
    Decidable (LeavesTransfers status p) := by
  unfold LeavesTransfers
  infer_instance

/-- On an awake bus an interrupt for bulk endpoints queues work, and may put the device to sleep. -/
theorem atRest_serviceBus {status : InterruptStatus} (programmer : Programmer)
    {p : Link (Fifos β ρ)} (h : p.device.lifecycle = .configured)
    (hreset : status.bus.reset = false) (hcontrol : status.pending 0 = false) :
    atRest (programmer, p.serviceBus status) = atRest (programmer, p) := by
  have hsleep : atRest (programmer, if status.bus.suspend then p.sleep else p) =
      atRest (programmer, p) := by
    split <;> rfl
  have hlive : ¬(if status.bus.suspend then p.sleep else p).device.lifecycle < .waiting := by
    have hsame : (if status.bus.suspend then p.sleep else p).device.lifecycle = .configured := by
      split <;> exact h
    rw [hsame]
    decide
  rw [Link.serviceBus_of_no_reset hreset, ← hsleep]
  generalize (if status.bus.suspend then p.sleep else p) = q at hlive
  rw [Link.serviceEndpoints, if_neg hlive, Link.serviceEndpointZero, hcontrol]
  exact congrArg (fun r => withoutSleep.station (programmer, r)) (withoutWork_notes _ q)

/-- An interrupt that leaves the transfers alone does nothing but queue work, put the device to
sleep and wake it. -/
theorem atRest_fire {s : Station (Fifos β ρ)} {status : InterruptStatus}
    (h : s.2.device.lifecycle = .configured) (hleaves : LeavesTransfers status s.2) :
    atRest (s.1, fire status s.2) = atRest s := by
  obtain ⟨hdisconnect, hquiet⟩ := hleaves
  let q : Link (Fifos β ρ) := ⟨s.2.device, { s.2.hw with usb.pending := {} }⟩
  have hread : (Link.mk s.2.device (Driven.raise status s.2.hw)).ask .interrupts = (status, q) :=
    rfl
  have hpowered : q.powerUp = q := by
    rw [Link.powerUp, if_neg]
    show ¬s.2.device.lifecycle = .attached
    rw [h]
    decide
  rw [fire, Link.onInterrupt, hread]
  simp only [hdisconnect, hpowered, Bool.false_eq_true, if_false]
  cases hresume : status.bus.resume with
  | true =>
    obtain ⟨hreset, hcontrol⟩ := hquiet.resolve_left fun hsleeps => by
      rw [hresume] at hsleeps
      cases hsleeps.2
    exact atRest_serviceBus s.1 (p := q.wake) h hreset hcontrol
  | false =>
    cases hsleeping : s.2.device.suspended with
    | true => rfl
    | false =>
      obtain ⟨hreset, hcontrol⟩ := hquiet.resolve_left fun hsleeps => by
        rw [hsleeping] at hsleeps
        cases hsleeps.1
      exact atRest_serviceBus s.1 (p := q) h hreset hcontrol

/-! ## Quiet runs -/

/-- What happens while the transfers are left alone, with what the main loop takes.  The bus may go
to sleep and wake up any number of times. -/
inductive Quietly (s : Station (Fifos β ρ)) : List Taken → Station (Fifos β ρ) → Prop where
  | start : Quietly s [] s
  | poll {log : List Taken} {x : Station (Fifos β ρ)} (h : Quietly s log x) :
      Quietly s (log ++ pollLog x) (poll x)
  | interrupt {log : List Taken} {x : Station (Fifos β ρ)} (h : Quietly s log x)
      {status : InterruptStatus} (hleaves : LeavesTransfers status x.2) :
      Quietly s log (x.1, fire status x.2)

section Quiet

variable {s x x' : Station (Fifos β ρ)} {log log' : List Taken} {packets : List (List UInt8)}

/-- Under the guise, a quiet run serves the flash endpoint and does nothing else. -/
theorem Quietly.consumes (h : Quietly s log x) (hs : s.2.device.lifecycle = .configured) :
    Consumes (atRest s) log (atRest x) := by
  induction h with
  | start => exact .stop _
  | @poll _ x _ ih =>
    exact ih.append ((consumes_poll x).station withoutSleep fun _ => rfl)
  | @interrupt _ x _ _ hleaves ih =>
    have hconfigured : x.2.device.lifecycle = .configured := ih.lifecycle_eq.trans hs
    rw [atRest_fire hconfigured hleaves]
    exact ih

theorem Quietly.nodup (h : Quietly s log x) (hs : s.2.device.queue.toList.Nodup) :
    x.2.device.queue.toList.Nodup := by
  induction h with
  | start => exact hs
  | poll _ ih => exact turnInvariant_nodup.poll ih
  | interrupt _ _ ih => exact Link.nodup_onInterrupt ih

/-- Packets are taken in order, and what was not taken still waits. -/
theorem Quietly.in_order (h : Quietly s log x) (hs : Ready packets s) :
    ∃ rest, packets = log.flatMap Taken.packets ++ rest ∧ Ready rest x ∧ ∀ t ∈ log, t.Belongs := by
  have hrest : Ready packets (atRest s) :=
    ⟨hs.reachable, hs.lifecycle_eq, hs.fifo_eq, hs.fits⟩
  obtain ⟨rest, hsplit, hleft, hbelongs⟩ := (h.consumes hs.lifecycle_eq).in_order hrest
  exact ⟨rest, hsplit, ⟨hleft.reachable, hleft.lifecycle_eq, hleft.fifo_eq, hleft.fits⟩, hbelongs⟩

/-- A sleeping bus stops the interrupts and not the main loop.

The device sleeps, on any hardware, and interrupts come that report neither a wake-up nor a pulled
cable.  It sleeps on, and there is work on an endpoint or on the SPI bus exactly if the main loop
takes a frame.

The host has configured the device, in any run from power-on, and packets wait on the flash
endpoint.  The main loop takes its turns, and interrupts come that put the device to sleep, wake it
or queue work, and any others while it sleeps.  Asleep or awake the packets are taken from the
front, each of them once, and the others still wait.  A turn that finds a packet takes a frame
unless the endpoint is halted, and at most two.  Two such runs that take as much differ in nothing
but the queued work and the sleep, so what was left waiting is served after the wake-up as it would
have been without the sleep. -/
theorem sleep_exact {ω κ : Type} [Spi.Bus ω] [ResetLine ω] [Controller ω] [Controller κ]
    (programmer : Programmer) (p : Link ω) (hasleep : p.device.suspended = true)
    (descriptors : Descriptors) (budget : WaitBudget) (w : κ) (ops : List (Operation κ))
    (hdevice : s.2.device = (Operation.runAll ops ⟨{ descriptors, budget }, w⟩).device)
    (hprogrammer : Reachable s.1) (hconfigured : s.2.device.lifecycle = .configured)
    (hwaiting : s.2.hw.usb.out.get .flash = ⟨packets.map List.toArray, 0⟩)
    (hfits : ∀ packet ∈ packets, packet.length ≤ 64) :
    (∀ (frames : List (List UInt8)) (y : Station (Traced ω)),
      Sleeps (programmer, traced p) frames y →
      y.2.device.suspended = true ∧
      ((∀ a ∈ controllerActions y.2.hw.events, a.works = false) ∧
        busActions y.2.hw.events = [] ↔ frames = [])) ∧
    (∀ (log : List Taken) (x : Station (Fifos β ρ)), Quietly s log x → ∃ rest,
      let halted := (x.2.device.endpoints.get .flash .toDevice).stalled
      packets = log.flatMap Taken.packets ++ rest ∧
      x.2.hw.usb.out.get .flash = ⟨rest.map List.toArray, 0⟩ ∧
      (∀ t ∈ log, t.Belongs) ∧
      (rest ≠ [] → halted = false →
        1 ≤ (pollFrames x).length ∧ (pollFrames x).length ≤ 2) ∧
      (rest = [] ∨ halted = true → pollFrames x = [])) ∧
    ∀ (log log' : List Taken) (x x' : Station (Fifos β ρ)), Quietly s log x → Quietly s log' x' →
      log.length = log'.length →
      log = log' ∧ x.1 = x'.1 ∧ x.2.hw.usb.into = x'.2.hw.usb.into ∧
      x.2.hw.spi = x'.2.hw.spi ∧ x.2.hw.reset = x'.2.hw.reset := by
  have hready : Ready packets s := ⟨hprogrammer, hconfigured, hwaiting, hfits⟩
  have hnodup : s.2.device.queue.toList.Nodup := by
    rw [hdevice]
    exact Operation.nodup_runAll ops List.nodup_nil
  refine ⟨fun frames y hsleeps => ?_, fun log x hquiet => ?_, ?_⟩
  · exact ⟨hsleeps.suspended hasleep, (hsleeps.works hasleep).of_fresh⟩
  · obtain ⟨rest, hsplit, hleft, hbelongs⟩ := hquiet.in_order hready
    have hpackets : (gate x.2).waiting = rest.map List.toArray :=
      congrArg OutFifo.packets hleft.fifo_eq
    refine ⟨rest, hsplit, hleft.fifo_eq, hbelongs, ?_, ?_⟩
    · intro hrest hopen
      rw [← frames_pollLog, List.length_map]
      refine length_pollLog (hquiet.nodup hnodup) ⟨hleft.lifecycle_eq, hopen, ?_⟩
      rw [hpackets]
      exact fun hnil => hrest (List.map_eq_nil_iff.mp hnil)
    · intro hclosed
      rw [← frames_pollLog, List.map_eq_nil_iff]
      refine pollLog_of_closed fun ⟨_, hopen, hsome⟩ => ?_
      rcases hclosed with hnone | hhalted
      · exact hsome (by rw [hpackets, hnone]; rfl)
      · exact Bool.false_ne_true (hopen.symm.trans hhalted)
  · intro log log' x x' hquiet hquiet' hlength
    obtain ⟨hlog, hsame⟩ :=
      (hquiet.consumes hconfigured).unique (hquiet'.consumes hconfigured) hlength
    have hfirst := congrArg Prod.fst hsame
    have hinto := congrArg (fun x : Station (Fifos β ρ) => x.2.hw.usb.into) hsame
    have hspi := congrArg (fun x : Station (Fifos β ρ) => x.2.hw.spi) hsame
    have hreset := congrArg (fun x : Station (Fifos β ρ) => x.2.hw.reset) hsame
    exact ⟨hlog, hfirst, hinto, hspi, hreset⟩

end Quiet

/-! ## On the bench -/

/-- A programmer on an empty rig that was asked twice how many chips it has, on a bus that went
idle. -/
def askedAsleep : Station Rig :=
  let s := Rig.enumerated ⟨none, none, none⟩ [[0x00], [0x00]]
  (s.1, fire { bus := { suspend := true } } s.2)

/-- The main loop takes a turn, and then the host wakes the bus. -/
def wokenAfterTurn : Station Rig :=
  ((poll askedAsleep).1, fire { bus := { resume := true } } (poll askedAsleep).2)

/-- The first request is served asleep and the second once the bus is awake. -/
theorem sleep_exact_two_requests :
    askedAsleep.2.device.suspended = true ∧ wokenAfterTurn.2.device.suspended = false ∧
    pollFrames (askedAsleep.1, traced askedAsleep.2) = [[0x00]] ∧
    ¬((∀ a ∈ controllerActions (poll (askedAsleep.1, traced askedAsleep.2)).2.hw.events,
        a.works = false) ∧
      busActions (poll (askedAsleep.1, traced askedAsleep.2)).2.hw.events = []) ∧
    ∃ rest, [[0x00], [0x00]] =
        (pollLog askedAsleep ++ pollLog wokenAfterTurn).flatMap Taken.packets ++ rest ∧
      (poll wokenAfterTurn).2.hw.usb.out.get .flash = ⟨rest.map List.toArray, 0⟩ := by
  have hasleep : askedAsleep.2.device.suspended = true := by decide +kernel
  have hdevice : askedAsleep.2.device = (Operation.runAll (addressing ++
      hostSends (configurationSetup 1).toBytes ++ hostCollects ++
      [.outside (Driven.raise { bus := { suspend := true } }), .interrupt])
      ⟨{}, ({} : FifoController)⟩).device := by
    decide +kernel
  have hstart : Reachable askedAsleep.1 := by
    have hfirst : askedAsleep.1 = { budget := {} } := rfl
    rw [hfirst]
    exact .start {}
  have hconfigured : askedAsleep.2.device.lifecycle = .configured := by decide +kernel
  have hwaiting : askedAsleep.2.hw.usb.out.get .flash =
      ⟨[[0x00], [0x00]].map List.toArray, 0⟩ := by
    decide +kernel
  have hleaves : LeavesTransfers { bus := { resume := true } } (poll askedAsleep).2 := by
    decide +kernel
  have hframes : pollFrames (askedAsleep.1, traced askedAsleep.2) = [[0x00]] := by decide +kernel
  obtain ⟨hsleeps, hquietly, _⟩ := sleep_exact askedAsleep.1 askedAsleep.2 hasleep {} {}
    ({} : FifoController) _ hdevice hstart hconfigured hwaiting (by decide)
  obtain ⟨_, hworks⟩ := hsleeps _ _ (.poll .start)
  obtain ⟨rest, hsplit, hleft, _⟩ := hquietly _ _ (.poll (.interrupt (.poll .start) hleaves))
  refine ⟨hasleep, by decide +kernel, hframes, ?_, rest, hsplit, hleft⟩
  rw [hworks, List.nil_append, hframes]
  decide

/-- Asleep, the programmer takes the request, answers it, and stays asleep. -/
theorem sleeping_programmer_answers :
    askedAsleep.2.device.suspended = true ∧ (poll askedAsleep).2.device.suspended = true ∧
    (askedAsleep.2.hw.usb.out.get .flash).packets = [#[0x00], #[0x00]] ∧
    ((poll askedAsleep).2.hw.usb.out.get .flash).packets = [#[0x00]] ∧
    (askedAsleep.2.hw.usb.into.get .flash).sent = {} ∧
    ((poll askedAsleep).2.hw.usb.into.get .flash).sent = ({} : Record _).push [0x00, 2, 0] := by
  decide +kernel

end FlashProgrammer.Programmer

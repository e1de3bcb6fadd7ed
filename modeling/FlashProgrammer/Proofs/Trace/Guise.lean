import FlashProgrammer.Programmer.Poll
import FlashProgrammer.Proofs.Trace.View

/-!
# What a request cannot notice

The main loop serves a request through the actions of its hardware and a few fields of
the device.  A `Guise` is another device and other hardware that answer those in the same
way.  So a request is served under a guise as without it, function by function, and
`Guise.service_station` says it of all that serving the flash endpoint does.

Only bulk data is spoken of.  What else can be asked of the controller is left open, because the
main loop never asks for it.
-/

namespace FlashProgrammer.Usb

/-- Whether an action is one that moves bulk data, or that halts an endpoint. -/
def Action.movesBulk : Action → Bool
  | rxReady _ | rxCount _ | fifoRead .. | rxDone .. | txBusy _ | fifoWrite .. | txReady ..
  | stall .. => true
  | _ => false

end FlashProgrammer.Usb

namespace FlashProgrammer.Trace

open Flash Protocol Usb Programmer

variable {ω ω' : Type} [Spi.Bus ω] [Spi.Bus ω'] [Controller ω] [Controller ω'] [ResetLine ω]
  [ResetLine ω']

/-- Another device and other hardware that a request is served on in the same way. -/
structure Guise (ω' ω : Type) [Spi.Bus ω] [Spi.Bus ω'] [Controller ω] [Controller ω']
    [ResetLine ω] [ResetLine ω'] where
  device : Device → Device
  hw : ω' → ω
  lifecycle_eq : ∀ d, (device d).lifecycle = d.lifecycle
  endpoints_eq : ∀ d, (device d).endpoints = d.endpoints
  budget_eq : ∀ d, (device d).budget = d.budget
  halt_eq : ∀ d endpoints, device { d with endpoints } = { device d with endpoints }
  usb_eq : ∀ (a : Usb.Action) (w : ω'), a.movesBulk = true →
    Controller.perform a (hw w) = ((Controller.perform a w).1, hw (Controller.perform a w).2)
  isView : IsView hw
  line_eq : ∀ level (w : ω'), ResetLine.drive level (hw w) =
    ((ResetLine.drive level w).1, hw (ResetLine.drive level w).2)

namespace Guise

variable (x : Guise ω' ω)

def link (p : Link ω') : Link ω := ⟨x.device p.device, x.hw p.hw⟩

def station (s : Station ω') : Station ω := (s.1, x.link s.2)

/-! ## The controller -/

theorem ask_link (a : Usb.Action) (ha : a.movesBulk = true) (p : Link ω') :
    (x.link p).ask a = ((p.ask a).1, x.link (p.ask a).2) := by
  have husb := x.usb_eq a p.hw ha
  simp only [Link.ask, link, husb]

theorem tell_hw (a : Usb.Action) (ha : a.movesBulk = true) (w : ω') :
    Usb.tell a (x.hw w) = x.hw (Usb.tell a w) :=
  congrArg Prod.snd (x.usb_eq a w ha)

theorem tell_link (a : Usb.Action) (ha : a.movesBulk = true) (p : Link ω') :
    (x.link p).tell a = x.link (p.tell a) :=
  congrArg (Link.mk (x.device p.device)) (x.tell_hw a ha p.hw)

theorem take_hw (ep : Endpoint) (width : Width) (w : ω') :
    Usb.take ep width (x.hw w) = ((Usb.take ep width w).1, x.hw (Usb.take ep width w).2) := by
  have hread := x.usb_eq (.fifoRead ep width) w rfl
  simp only [Usb.take, hread]

theorem readFifo_hw (ep : Endpoint) (n : Nat) (w : ω') :
    readFifo ep n (x.hw w) = ((readFifo ep n w).1, x.hw (readFifo ep n w).2) := by
  fun_induction readFifo ep n w with
  | case1 => rfl
  | case2 w | case3 w => exact x.take_hw ep _ w
  | case4 w bs w' hbs b w'' hb => simp only [readFifo, take_hw, hbs, hb]
  | case5 n w bs w' hbs rest w'' hrest ih =>
    rw [hrest] at ih
    simp only [readFifo, take_hw, hbs, ih]

theorem writeFifo_hw (ep : Endpoint) (data : List UInt8) (w : ω') :
    writeFifo ep data (x.hw w) = x.hw (writeFifo ep data w) := by
  have hput : ∀ width bs (w : ω'), put ep width bs (x.hw w) = x.hw (put ep width bs w) :=
    fun width bs w => x.tell_hw (.fifoWrite ep width (valueOfBytes width bs)) rfl w
  fun_induction writeFifo ep data w with
  | case1 => rfl
  | case2 | case3 => exact hput _ _ _
  | case4 => simp only [writeFifo, hput]
  | case5 a b c d rest w ih =>
    simp only [writeFifo, hput]
    exact ih

/-! ## Bulk transfers -/

theorem isConfigured_link (p : Link ω') :
    (x.link p).device.isConfigured = p.device.isConfigured :=
  congrArg (· == Lifecycle.configured) (x.lifecycle_eq p.device)

theorem endpoints_link (p : Link ω') : (x.link p).device.endpoints = p.device.endpoints :=
  x.endpoints_eq p.device

theorem bulkEndpoint_link (ep : UInt8) (dir : Direction) (p : Link ω') :
    (x.link p).bulkEndpoint ep dir = p.bulkEndpoint ep dir := by
  simp only [Link.bulkEndpoint, isConfigured_link, endpoints_link]

theorem stallEndpoint_link (ep : UInt8) (dir : Direction) (p : Link ω') :
    (x.link p).stallEndpoint ep dir = x.link (p.stallEndpoint ep dir) := by
  rw [Link.stallEndpoint, Link.stallEndpoint]
  split
  · rfl
  · next e _ =>
    have hdevice := x.halt_eq p.device
      (p.device.endpoints.modify e dir fun s => { s.finish with stalled := true })
    rw [Link.halt, Link.halt, x.tell_link (.stall e dir) rfl, Link.setStatus, Link.setStatus,
      endpoints_link]
    exact congrArg (fun d => Link.mk d (x.hw (Usb.tell (.stall e dir) p.hw))) hdevice.symm

theorem rxPending_link (ep : UInt8) (p : Link ω') :
    (x.link p).rxPending ep = ((p.rxPending ep).1, x.link (p.rxPending ep).2) := by
  simp only [Link.rxPending, isConfigured_link, endpoints_link]
  split
  · rfl
  · next e _ =>
    split
    · exact x.ask_link (.rxReady e) rfl p
    · rfl

theorem awaitPacket_link (ep : Endpoint) (spins : Nat) (p : Link ω') :
    Link.awaitPacket ep spins (x.link p) =
      ((Link.awaitPacket ep spins p).1, x.link (Link.awaitPacket ep spins p).2) := by
  induction spins generalizing p with
  | zero => exact x.ask_link (.rxReady ep) rfl p
  | succ spins ih =>
    simp only [Link.awaitPacket, x.ask_link (.rxReady ep) rfl]
    rcases p.ask (.rxReady ep) with ⟨_ | _, q⟩
    · exact ih q
    · rfl

theorem takePacket_link (ep : Endpoint) (room : Nat) (p : Link ω') :
    (x.link p).takePacket ep room =
      ((p.takePacket ep room).1, x.link (p.takePacket ep room).2) := by
  simp only [Link.takePacket, x.ask_link (.rxCount ep) rfl]
  generalize p.ask (.rxCount ep) = asked
  obtain ⟨available, q⟩ := asked
  have hhw : (x.link q).hw = x.hw q.hw := rfl
  have hdone : ∀ w : ω', ({ x.link q with hw := x.hw w } : Link ω).tell (.rxDone ep false) =
      x.link ({ q with hw := w }.tell (.rxDone ep false)) :=
    fun w => x.tell_link (.rxDone ep false) rfl { q with hw := w }
  simp only [hhw, readFifo_hw, hdone]

theorem readPacket_link (ep : UInt8) (room : Nat) (p : Link ω') :
    (x.link p).readPacket ep room =
      ((p.readPacket ep room).1, x.link (p.readPacket ep room).2) := by
  have hbudget : (x.link p).device.budget = p.device.budget := x.budget_eq p.device
  simp only [Link.readPacket, bulkEndpoint_link, hbudget, awaitPacket_link]
  rcases p.bulkEndpoint ep .toDevice with _ | e
  · rfl
  · simp only
    rcases Link.awaitPacket e p.device.budget.usbSpins p with ⟨_ | _, q⟩
    · rfl
    · simp only [takePacket_link]

theorem gather_link (ep : UInt8) (fuel need : Nat) (p : Link ω') :
    (x.link p).gather ep fuel need =
      ((p.gather ep fuel need).1, x.link (p.gather ep fuel need).2) := by
  induction fuel generalizing need p with
  | zero => rfl
  | succ fuel ih =>
    simp only [Link.gather, readPacket_link]
    split
    · rfl
    · rcases p.readPacket ep need with ⟨_ | bs, q⟩
      · rfl
      · simp only [ih]
        split <;> rfl

theorem fill_link (ep : UInt8) (buffer : List UInt8) (p : Link ω') :
    (x.link p).fill ep buffer =
      ((p.fill ep buffer).1, (p.fill ep buffer).2.1, x.link (p.fill ep buffer).2.2) := by
  simp only [Link.fill, gather_link]

theorem awaitCollected_link (ep : Endpoint) (spins : Nat) (p : Link ω') :
    Link.awaitCollected ep spins (x.link p) =
      ((Link.awaitCollected ep spins p).1, x.link (Link.awaitCollected ep spins p).2) := by
  induction spins generalizing p with
  | zero => simp only [Link.awaitCollected, x.ask_link (.txBusy ep) rfl]
  | succ spins ih =>
    simp only [Link.awaitCollected, x.ask_link (.txBusy ep) rfl]
    rcases p.ask (.txBusy ep) with ⟨_ | _, q⟩
    · rfl
    · exact ih q

theorem sendPackets_link (ep : UInt8) (e : Endpoint) (packets : List (List UInt8))
    (p : Link ω') :
    Link.sendPackets ep e packets (x.link p) =
      ((Link.sendPackets ep e packets p).1, x.link (Link.sendPackets ep e packets p).2) := by
  induction packets generalizing p with
  | nil => rfl
  | cons packet rest ih =>
    have hbudget : (x.link p).device.budget = p.device.budget := x.budget_eq p.device
    simp only [Link.sendPackets, hbudget, awaitCollected_link]
    rcases Link.awaitCollected e p.device.budget.usbSpins p with ⟨_ | _, q⟩
    · rfl
    · have hsent : ({ x.link q with hw := writeFifo e packet (x.link q).hw } : Link ω).tell
          (.txReady e false) =
          x.link ({ q with hw := writeFifo e packet q.hw }.tell (.txReady e false)) := by
        have hhw : (x.link q).hw = x.hw q.hw := rfl
        rw [hhw, writeFifo_hw]
        exact x.tell_link (.txReady e false) rfl { q with hw := writeFifo e packet q.hw }
      simp only [hsent]
      exact ih _

theorem write_link (ep : UInt8) (data : List UInt8) (p : Link ω') :
    (x.link p).write ep data = ((p.write ep data).1, x.link (p.write ep data).2) := by
  simp only [Link.write, bulkEndpoint_link]
  rcases p.bulkEndpoint ep .toHost with _ | e
  · rfl
  · exact x.sendPackets_link ep e (packets data) p

/-! ## Requests -/

/-- The answer to a request is the same. -/
theorem answer_hw (r : Request) (s : Programmer) (w : ω') :
    s.answer r (x.hw w) = ((s.answer r w).1, (s.answer r w).2.1, x.hw (s.answer r w).2.2) := by
  cases r with
  | listDevice number bus => simp only [answer, listDevice_view x.isView]
  | targetDevice number bus => simp only [answer, targetDevice_view x.isView]
  | erase operation first last => simp only [answer, erase_view x.isView]
  | verify => simp only [answer, verify_view x.isView]
  | resetTarget => simp only [answer, pulseReset, x.line_eq]
  | deviceCount | read | write => rfl

theorem refuse_station (dir : Direction) (s : Station ω') :
    refuse dir (x.station s) = x.station (refuse dir s) :=
  congrArg (Prod.mk s.1) (x.stallEndpoint_link flashEndpoint dir s.2)

theorem servePage_station (page : Nat) (s : Station ω') :
    servePage page (x.station s) = x.station (servePage page s) := by
  have hhw : (x.station s).2.hw = x.hw s.2.hw := rfl
  have hprogrammer : (x.station s).1 = s.1 := rfl
  rw [servePage, servePage]
  simp only [hprogrammer]
  rcases s.1.selected with _ | ⟨slot, g⟩
  · exact x.refuse_station .toHost s
  · simp only
    split
    · rw [hhw, readIdle_view x.isView]
      rcases readIdle slot _ _ _ s.2.hw with ⟨_ | bs, w⟩
      · exact x.refuse_station .toHost (s.1, { s.2 with hw := w })
      · exact congrArg (fun q => (s.1, q.2))
          (x.write_link flashEndpoint bs { s.2 with hw := w })
    · exact x.refuse_station .toHost s

theorem program_station (slot : Slot) (g : Geometry) (page count : Nat) (s : Station ω') :
    program slot g page count (x.station s) = x.station (program slot g page count s) := by
  have hhw : (x.station s).2.hw = x.hw s.2.hw := rfl
  have hprogrammer : (x.station s).1 = s.1 := rfl
  simp only [program, startPageProgram, hhw, hprogrammer, modify_view x.isView]
  rcases Flash.modify slot _ s.2.hw with ⟨_ | _, w⟩ <;> rfl

theorem acceptPage_station (page count : Nat) (s : Station ω') :
    acceptPage page count (x.station s) = x.station (acceptPage page count s) := by
  have hprogrammer : (x.station s).1 = s.1 := rfl
  have hlink : (x.station s).2 = x.link s.2 := rfl
  rw [acceptPage, acceptPage]
  simp only [hprogrammer, hlink, fill_link]
  rcases s.1.selected with _ | ⟨slot, g⟩
  · exact x.refuse_station .toDevice s
  · cases s.1.job.at? with
    | some active => exact x.refuse_station .toDevice s
    | none =>
      simp only
      split
      · exact x.refuse_station .toDevice s
      · rcases s.2.fill flashEndpoint (s.1.page.take count) with ⟨_ | _, bytes, q⟩
        · exact x.refuse_station .toDevice (_, q)
        · exact x.program_station slot g page count (_, q)

theorem respond_station (r : Request) (s : Station ω') :
    respond r (x.station s) = x.station (respond r s) := by
  have hhw : (x.station s).2.hw = x.hw s.2.hw := rfl
  have hprogrammer : (x.station s).1 = s.1 := rfl
  rw [respond, respond, hhw, hprogrammer, answer_hw]
  rcases s.1.answer r s.2.hw with ⟨_ | response, s', w⟩
  · rfl
  · exact congrArg (fun q => (s', q.2))
      (x.write_link flashEndpoint response.encode { s.2 with hw := w })

theorem serve_station (r : Request) (s : Station ω') :
    serve r (x.station s) = x.station (serve r s) := by
  cases r with
  | read page => exact x.servePage_station page.val s
  | write page count => exact x.acceptPage_station page.val count.val s
  | deviceCount => exact x.respond_station .deviceCount s
  | listDevice number bus => exact x.respond_station (.listDevice number bus) s
  | targetDevice number bus => exact x.respond_station (.targetDevice number bus) s
  | erase operation first last => exact x.respond_station (.erase operation first last) s
  | verify => exact x.respond_station .verify s
  | resetTarget => exact x.respond_station .resetTarget s

/-- Serving the flash endpoint is the same. -/
theorem service_station (s : Station ω') : service (x.station s) = x.station (service s) := by
  have hlink : (x.station s).2 = x.link s.2 := rfl
  rw [service, service, hlink, rxPending_link]
  rcases s.2.rxPending flashEndpoint with ⟨_ | _, p⟩
  · rfl
  · simp only [readPacket_link]
    rcases p.readPacket flashEndpoint maxPacket with ⟨_ | frame, q⟩
    · rfl
    · simp only
      cases Request.decode frame with
      | error e => exact x.refuse_station .toHost (s.1, q)
      | ok r => exact x.serve_station r (s.1, q)

end Guise

end FlashProgrammer.Trace

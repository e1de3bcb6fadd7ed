import FlashProgrammer.Proofs.Trace.ControllerActions
import FlashProgrammer.Proofs.Trace.Erasure
import FlashProgrammer.Proofs.Usb.BusReset
import FlashProgrammer.Proofs.Usb.DataStage
import FlashProgrammer.Proofs.Usb.TransferRecord

/-!
# Operations on traced hardware

What a device does to its controller is what a trace of it shows.  An operation runs on
traced hardware as on the hardware itself, function by function, and `runAll_untraced` says
it of all that is done to a device.  `asked` is what some operations ask of the controller.
-/

namespace FlashProgrammer.Usb

open Trace

variable {ω : Type} [Controller ω]

namespace Link

/-! ## Bulk transfers -/

section Bulk

-- A guise speaks of a bus and of a line as well.  Bulk transfers use neither, so any will do.

local instance (priority := low) : Spi.Bus ω where
  perform
    | .select _, w => ((), w)
    | .deselect, w => ((), w)
    | .exchange _, w => (.ok 0xFF, w)

local instance (priority := low) : ResetLine ω := ⟨fun _ w => (false, w)⟩

theorem readFifo_untraced (ep : Endpoint) (n : Nat) (w : Traced ω) :
    readFifo ep n w.hw = ((readFifo ep n w).1, (readFifo ep n w).2.hw) :=
  withoutTrace.readFifo_hw ep n w

theorem writeFifo_untraced (ep : Endpoint) (data : List UInt8) (w : Traced ω) :
    writeFifo ep data w.hw = (writeFifo ep data w).hw :=
  withoutTrace.writeFifo_hw ep data w

theorem rxPending_untraced (ep : UInt8) (p : Link (Traced ω)) :
    (untraced p).rxPending ep = ((p.rxPending ep).1, untraced (p.rxPending ep).2) :=
  withoutTrace.rxPending_link ep p

theorem readPacket_untraced (ep : UInt8) (room : Nat) (p : Link (Traced ω)) :
    (untraced p).readPacket ep room =
      ((p.readPacket ep room).1, untraced (p.readPacket ep room).2) :=
  withoutTrace.readPacket_link ep room p

theorem fill_untraced (ep : UInt8) (buffer : List UInt8) (p : Link (Traced ω)) :
    (untraced p).fill ep buffer =
      ((p.fill ep buffer).1, (p.fill ep buffer).2.1, untraced (p.fill ep buffer).2.2) :=
  withoutTrace.fill_link ep buffer p

theorem write_untraced (ep : UInt8) (data : List UInt8) (p : Link (Traced ω)) :
    (untraced p).write ep data = ((p.write ep data).1, untraced (p.write ep data).2) :=
  withoutTrace.write_link ep data p

theorem stallEndpoint_untraced (ep : UInt8) (dir : Direction) (p : Link (Traced ω)) :
    (untraced p).stallEndpoint ep dir = untraced (p.stallEndpoint ep dir) :=
  withoutTrace.stallEndpoint_link ep dir p

end Bulk

/-! ## Control transfers -/

theorem ask_untraced (a : Action) (p : Link (Traced ω)) :
    (untraced p).ask a = ((p.ask a).1, untraced (p.ask a).2) := rfl

theorem continueIn_untraced (p : Link (Traced ω)) :
    (untraced p).continueIn = untraced p.continueIn := by
  have hsend : ∀ q : Link (Traced ω), (untraced q).sendNext = untraced q.sendNext := by
    intro q
    have hwritten := writeFifo_untraced .control q.device.nextPacket q.hw
    exact congrArg (fun w => Link.mk q.device.advanced
      (Usb.tell (.txReady .control q.device.nextIsLast) w)) hwritten
  rw [continueIn_eq, continueIn_eq, ask_untraced, hsend, apply_ite untraced]

theorem dataOutComplete_untraced (p : Link (Traced ω)) :
    (untraced p).dataOutComplete = untraced p.dataOutComplete := by
  have hsetup : (untraced p).device = p.device := rfl
  simp only [dataOutComplete, setStatus, hsetup]
  cases p.device.setup.bind fun s => StandardRequest.ofByte? s.request with
  | none => rfl
  | some request => cases request <;> rfl

theorem continueOut_untraced (p : Link (Traced ω)) :
    (untraced p).continueOut = untraced p.continueOut := by
  have hreceive : ∀ (n : Nat) (q : Link (Traced ω)),
      (untraced q).receiveNext n = untraced (q.receiveNext n) := by
    intro n q
    have hread := congrArg Prod.snd (readFifo_untraced .control n q.hw)
    exact congrArg (fun w => Link.mk (q.device.receiving n)
      (Usb.tell (.rxDone .control (q.device.receivesLast n)) w)) hread
  rw [continueOut_eq, continueOut_eq, ask_untraced]
  simp only [counted, ask_untraced, hreceive, dataOutComplete_untraced]
  rw [apply_ite untraced]
  exact ite_congr rfl (fun _ => (apply_ite untraced _ _ _).symm) fun _ => rfl

omit [Controller ω] in
theorem setConfiguration_untraced (value : UInt16) (p : Link (Traced ω)) :
    (untraced p).setConfiguration value =
      ((p.setConfiguration value).1, untraced (p.setConfiguration value).2) := by
  have hdevice : (untraced p).device = p.device := rfl
  simp only [setConfiguration, hdevice]
  split
  · rfl
  · split <;> rfl

theorem standardRequest_untraced (s : Setup) (p : Link (Traced ω)) :
    (untraced p).standardRequest s =
      ((p.standardRequest s).1, untraced (p.standardRequest s).2) := by
  have hdevice : (untraced p).device = p.device := rfl
  simp only [standardRequest, hdevice, setConfiguration_untraced]
  split
  all_goals repeat' split
  all_goals rfl

theorem carryOut_untraced (s : Setup) (reply : ControlReply) (p : Link (Traced ω)) :
    (untraced p).carryOut s reply = untraced (p.carryOut s reply) := by
  cases reply with
  | noData | stall => rfl
  | data payload =>
    rw [carryOut_data, carryOut_data, apply_ite untraced]
    exact ite_congr rfl (fun _ => rfl) fun _ => continueIn_untraced (p.dataInStage s payload)
  | receive =>
    rw [carryOut_receive, carryOut_receive, apply_ite untraced]
    exact ite_congr rfl
      (fun _ => dataOutComplete_untraced (p.tell (.rxDone .control true))) fun _ => rfl

theorem handleSetup_untraced (s : Setup) (p : Link (Traced ω)) :
    (untraced p).handleSetup s = untraced (p.handleSetup s) := by
  have hanswered := standardRequest_untraced s { p with device.setup := some s }
  rw [handleSetup, handleSetup]
  cases s.kind with
  | standard =>
    refine Eq.trans ?_ (carryOut_untraced s _ _)
    exact congrArg (fun answer => answer.2.carryOut s answer.1) hanswered
  | deviceClass | vendor | reserved => rfl

theorem offered_untraced (p : Link (Traced ω)) :
    (untraced p).offered? = p.offered?.map fun (s, q) => (s, untraced q) := by
  rw [offered?, offered?, ask_untraced]
  generalize p.ask (.rxCount .control) = counted
  obtain ⟨available, q⟩ := counted
  have hread := readFifo_untraced .control Setup.size q.hw
  simp only
  split
  · exact congrArg (fun read => some (Setup.ofBytes read.1, Link.mk q.device read.2)) hread
  · rfl

theorem receiveSetup_untraced (p : Link (Traced ω)) :
    (untraced p).receiveSetup = untraced p.receiveSetup := by
  rw [receiveSetup_eq, receiveSetup_eq, offered_untraced]
  cases p.offered? with
  | none => rfl
  | some offered => exact handleSetup_untraced offered.1 offered.2

theorem completeStatus_untraced (p : Link (Traced ω)) :
    (untraced p).completeStatus = untraced p.completeStatus := by
  have hone : ∀ (q : Link (Traced ω)) e, armEndpoint (untraced q) e = untraced (armEndpoint q e) := by
    intro q e
    rw [armEndpoint, armEndpoint, apply_ite untraced]
    rfl
  have htaken : (untraced p).takeAddress = untraced p.takeAddress := by
    have hdevice : (untraced p).device = p.device := rfl
    rw [takeAddress, takeAddress, hdevice]
    cases p.device.pendingAddress <;> rfl
  have hsettled : (untraced p).takeAddress.settleConfiguration =
      untraced p.takeAddress.settleConfiguration := by
    rw [htaken, settleConfiguration, settleConfiguration, apply_ite untraced]
    rfl
  rw [completeStatus, completeStatus, hsettled, List.foldl_hom untraced hone]
  generalize bulkEndpoints.foldl armEndpoint p.takeAddress.settleConfiguration = q
  rfl

theorem caughtUp_untraced (p : Link (Traced ω)) :
    (untraced p).caughtUp = untraced p.caughtUp := by
  rw [caughtUp, caughtUp, ask_untraced]
  generalize p.ask .controlEvents = asked
  obtain ⟨events, q⟩ := asked
  simp only
  split
  · rfl
  · rw [apply_ite untraced, completeStatus_untraced]
    rfl

theorem serviceControl_untraced (p : Link (Traced ω)) :
    (untraced p).serviceControl = untraced p.serviceControl := by
  have hstage : (untraced p).caughtUp.device.stage = p.caughtUp.device.stage := by
    rw [caughtUp_untraced]
    rfl
  rw [serviceControl_eq, serviceControl_eq, hstage, caughtUp_untraced]
  cases p.caughtUp.device.stage with
  | dataIn => exact continueIn_untraced _
  | dataOut => exact continueOut_untraced _
  | status => rfl
  | idle =>
    simp only [ask_untraced, receiveSetup_untraced]
    rw [apply_ite untraced]

theorem takenSetup_untraced (p : Link (Traced ω)) :
    (untraced p).takenSetup? = p.takenSetup?.map fun (s, q) => (s, untraced q) := by
  have hstage : (untraced p).caughtUp.device.stage = p.caughtUp.device.stage := by
    rw [caughtUp_untraced]
    rfl
  rw [takenSetup?, takenSetup?, hstage, caughtUp_untraced]
  cases p.caughtUp.device.stage with
  | dataIn | dataOut | status => rfl
  | idle =>
    simp only [ask_untraced, offered_untraced]
    rw [apply_ite (Option.map _)]
    rfl

/-! ## Interrupts -/

theorem roused_untraced (p : Link (Traced ω)) :
    (untraced p).roused = (p.roused.1, untraced p.roused.2) := by
  rw [roused, roused, ask_untraced]
  generalize p.ask .interrupts = asked
  obtain ⟨status, q⟩ := asked
  have hpowered : (untraced q).powerUp = untraced q.powerUp := by
    rw [powerUp, powerUp, apply_ite untraced]
    rfl
  simp only [hpowered]
  rw [apply_ite untraced]
  rfl

theorem reached_untraced (p : Link (Traced ω)) :
    (untraced p).reached? = p.reached?.map fun (s, q) => (s, untraced q) := by
  rw [reached?, reached?, roused_untraced]
  generalize p.roused = roused
  obtain ⟨status, q⟩ := roused
  have hdozed : (if status.bus.suspend then (untraced q).sleep else untraced q) =
      untraced (if status.bus.suspend then q.sleep else q) := by
    rw [apply_ite untraced]
    rfl
  simp only [hdozed]
  generalize (if status.bus.suspend then q.sleep else q) = r
  rw [apply_ite (Option.map _), apply_ite (Option.map _)]
  rfl

omit [Controller ω] in
theorem notes_untraced (works : List Work) (p : Link (Traced ω)) :
    works.foldl note (untraced p) = untraced (works.foldl note p) := by
  induction works generalizing p with
  | nil => rfl
  | cons work works ih => exact ih (p.note work)

theorem serviceEndpoints_untraced (s : InterruptStatus) (p : Link (Traced ω)) :
    (untraced p).serviceEndpoints s = untraced (p.serviceEndpoints s) := by
  have hzero : (untraced p).serviceEndpointZero s = untraced (p.serviceEndpointZero s) := by
    rw [serviceEndpointZero, serviceEndpointZero, apply_ite untraced]
    exact ite_congr rfl (fun _ => serviceControl_untraced
      { p with device.current := some ⟨0, .toDevice⟩ }) fun _ => rfl
  rw [serviceEndpoints, serviceEndpoints, hzero, notes_untraced, apply_ite untraced]
  rfl

theorem serviceBus_untraced (s : InterruptStatus) (p : Link (Traced ω)) :
    (untraced p).serviceBus s = untraced (p.serviceBus s) := by
  rw [serviceBus, serviceBus, apply_ite untraced, apply_ite untraced, serviceEndpoints_untraced]
  exact ite_congr rfl (fun _ => rfl) fun _ =>
    ite_congr rfl (fun _ => serviceEndpoints_untraced s p.sleep) fun _ => rfl

theorem onInterrupt_untraced (p : Link (Traced ω)) :
    (untraced p).onInterrupt = untraced p.onInterrupt := by
  rw [onInterrupt_eq, onInterrupt_eq, roused_untraced, apply_ite untraced, apply_ite untraced,
    serviceBus_untraced]
  rfl

end Link

/-! ## Operations -/

namespace Operation

/-- The operation on traced hardware.  What the hardware does by itself leaves no trace. -/
def onTraced : Operation ω → Operation (Traced ω)
  | attach => attach
  | detach => detach
  | interrupt => interrupt
  | takeWork => takeWork
  | rxPending ep => rxPending ep
  | readPacket ep room => readPacket ep room
  | fill ep buffer => fill ep buffer
  | write ep data => write ep data
  | stallEndpoint ep dir => stallEndpoint ep dir
  | outside f => outside fun w => { w with hw := f w.hw }

theorem run_untraced (op : Operation ω) (p : Link (Traced ω)) :
    op.run (untraced p) = untraced (op.onTraced.run p) := by
  cases op with
  | attach | detach | takeWork | outside f => rfl
  | interrupt => exact p.onInterrupt_untraced
  | rxPending ep => exact congrArg Prod.snd (p.rxPending_untraced ep)
  | readPacket ep room => exact congrArg Prod.snd (p.readPacket_untraced ep room)
  | fill ep buffer => exact congrArg (fun filled => filled.2.2) (p.fill_untraced ep buffer)
  | write ep data => exact congrArg Prod.snd (p.write_untraced ep data)
  | stallEndpoint ep dir => exact p.stallEndpoint_untraced ep dir

/-- Some operations do the same on traced hardware. -/
theorem runAll_untraced (ops : List (Operation ω)) (p : Link (Traced ω)) :
    runAll ops (untraced p) = untraced (runAll (ops.map onTraced) p) := by
  induction ops generalizing p with
  | nil => rfl
  | cons op ops ih =>
    have hrest := ih (op.onTraced.run p)
    rw [← run_untraced] at hrest
    exact hrest

/-- What some operations ask of the controller, in order. -/
def asked (ops : List (Operation ω)) (p : Link ω) : List Action :=
  controllerActions (runAll (ops.map onTraced) (traced p)).hw.events

end Operation

end FlashProgrammer.Usb

import FlashProgrammer.Usb.Bulk

/-!
# What a bulk transfer uses

A bulk transfer asks the controller for one thing after the other and does nothing
else to the hardware.  `Used w w'` says that of two moments, so whatever every action
of the controller preserves is preserved by a whole transfer.  `UsedFor kind w w'` says
which actions these were, and `UsedFor.relates` is the one induction over them.

The device keeps no record of bulk data.  `Talks p q` adds that it is as before, and
the lemmas below say so of every function that moves bulk data.
-/

namespace FlashProgrammer.Usb

variable {ω : Type} [Controller ω]

/-- Between two moments the controller was used, and nothing else. -/
inductive Used (w : ω) : ω → Prop where
  | refl : Used w w
  | step {w' : ω} (h : Used w w') (a : Action) : Used w (Controller.perform a w').2

theorem Used.trans {u v w : ω} (huv : Used u v) (hvw : Used v w) : Used u w := by
  induction hvw with
  | refl => exact huv
  | step _ a ih => exact .step ih a

theorem used_perform (a : Action) (w : ω) : Used w (Controller.perform a w).2 :=
  .step .refl a

/-- What no action of the controller ends is not ended by using it. -/
theorem Used.preserves {P : ω → Prop} (hstep : ∀ a w, P w → P (Controller.perform a w).2)
    {w w' : ω} (h : Used w w') (hw : P w) : P w' := by
  induction h with
  | refl => exact hw
  | step _ a ih => exact hstep a _ ih

/-! ## Actions of a kind -/

/-- Between two moments the controller was asked for actions of a kind, and nothing else was
done. -/
inductive UsedFor {ω : Type} [Controller ω] (kind : Action → Prop) (w : ω) : ω → Prop where
  | refl : UsedFor kind w w
  | step {w' : ω} (h : UsedFor kind w w') {a : Action} (ha : kind a) :
      UsedFor kind w (Controller.perform a w').2

section Kinds

variable {kind kind' : Action → Prop}

theorem UsedFor.trans {u v w : ω} (huv : UsedFor kind u v) (hvw : UsedFor kind v w) :
    UsedFor kind u w := by
  induction hvw with
  | refl => exact huv
  | step _ ha ih => exact .step ih ha

theorem usedFor_perform {a : Action} (ha : kind a) (w : ω) :
    UsedFor kind w (Controller.perform a w).2 :=
  .step .refl ha

theorem UsedFor.mono (hkind : ∀ a, kind a → kind' a) {w w' : ω} (h : UsedFor kind w w') :
    UsedFor kind' w w' := by
  induction h with
  | refl => exact .refl
  | step _ ha ih => exact .step ih (hkind _ ha)

theorem UsedFor.used {w w' : ω} (h : UsedFor kind w w') : Used w w' := by
  induction h with
  | refl => exact .refl
  | @step _ _ a _ ih => exact .step ih a

/-- What holds from each moment to the next holds from the first to the last. -/
theorem UsedFor.relates {R : ω → ω → Prop} (hrefl : ∀ w, R w w)
    (htrans : ∀ {u v w}, R u v → R v w → R u w)
    (hstep : ∀ {a}, kind a → ∀ w, R w (Controller.perform a w).2) {w w' : ω}
    (h : UsedFor kind w w') : R w w' := by
  induction h with
  | refl => exact hrefl _
  | step _ ha ih => exact htrans ih (hstep ha _)

/-- What no action of the kind changes is not changed. -/
theorem UsedFor.same {α : Type} {f : ω → α} {w w' : ω}
    (h : UsedFor (fun a => ∀ v, f (Controller.perform a v).2 = f v) w w') : f w' = f w := by
  induction h with
  | refl => rfl
  | step _ ha ih => exact (ha _).trans ih

end Kinds

namespace Action

/-- An action that takes data of an endpoint. -/
inductive TakesFrom (ep : Endpoint) : Action → Prop where
  | rxReady : TakesFrom ep (.rxReady ep)
  | rxCount : TakesFrom ep (.rxCount ep)
  | fifoRead (width : Width) : TakesFrom ep (.fifoRead ep width)
  | rxDone (dataEnd : Bool) : TakesFrom ep (.rxDone ep dataEnd)

/-- An action that sends data on an endpoint. -/
inductive SendsOn (ep : Endpoint) : Action → Prop where
  | txBusy : SendsOn ep (.txBusy ep)
  | fifoWrite (width : Width) (value : BitVec width.bits) : SendsOn ep (.fifoWrite ep width value)
  | txReady (last : Bool) : SendsOn ep (.txReady ep last)

/-- An action that takes bulk data. -/
def TakesBulk (a : Action) : Prop := ∃ e, e ≠ .control ∧ a.TakesFrom e

/-- An action that sends bulk data. -/
def SendsBulk (a : Action) : Prop := ∃ e, e ≠ .control ∧ a.SendsOn e

end Action

/-! ## FIFOs -/

theorem usedFor_readFifo {kind : Action → Prop} {ep : Endpoint}
    (hkind : ∀ width, kind (.fifoRead ep width)) (n : Nat) (w : ω) :
    UsedFor kind w (readFifo ep n w).2 := by
  have htake : ∀ width (w : ω), UsedFor kind w (take ep width w).2 :=
    fun width w => usedFor_perform (hkind width) w
  fun_induction readFifo ep n w with
  | case1 => exact .refl
  | case2 w | case3 w => exact htake _ w
  | case4 w bs w' hbs b w'' hb =>
    have hhalf := htake .half w
    have hbyte := htake .byte w'
    rw [hbs] at hhalf
    rw [hb] at hbyte
    exact hhalf.trans hbyte
  | case5 n w bs w' hbs rest w'' hrest ih =>
    have hword := htake .word w
    rw [hbs] at hword
    rw [hrest] at ih
    exact hword.trans ih

theorem usedFor_writeFifo {kind : Action → Prop} {ep : Endpoint}
    (hkind : ∀ width value, kind (.fifoWrite ep width value)) (data : List UInt8) (w : ω) :
    UsedFor kind w (writeFifo ep data w) := by
  have hput : ∀ width bs (w : ω), UsedFor kind w (put ep width bs w) :=
    fun width bs w => usedFor_perform (hkind width (valueOfBytes width bs)) w
  fun_induction writeFifo ep data w with
  | case1 => exact .refl
  | case2 | case3 => exact hput _ _ _
  | case4 => exact (hput _ _ _).trans (hput _ _ _)
  | case5 a b c d rest w ih => exact (hput _ _ _).trans ih

/-! ## Links -/

/-- The controller was used, and the device is as before. -/
structure Talks (p q : Link ω) : Prop where
  device_eq : q.device = p.device
  used : Used p.hw q.hw

theorem Talks.trans {p q r : Link ω} (hpq : Talks p q) (hqr : Talks q r) : Talks p r :=
  ⟨hqr.device_eq.trans hpq.device_eq, hpq.used.trans hqr.used⟩

theorem talks_tell (a : Action) (p : Link ω) : Talks p (p.tell a) := ⟨rfl, used_perform a p.hw⟩

theorem talks_ask (a : Action) (p : Link ω) : Talks p (p.ask a).2 := ⟨rfl, used_perform a p.hw⟩

/-- The controller was asked for actions of a kind, and the device is as before. -/
structure TalksFor {ω : Type} [Controller ω] (kind : Action → Prop) (p q : Link ω) : Prop where
  device_eq : q.device = p.device
  used : UsedFor kind p.hw q.hw

section Kinds

variable {kind : Action → Prop}

theorem talksFor_refl (p : Link ω) : TalksFor kind p p := ⟨rfl, .refl⟩

theorem TalksFor.trans {p q r : Link ω} (hpq : TalksFor kind p q) (hqr : TalksFor kind q r) :
    TalksFor kind p r :=
  ⟨hqr.device_eq.trans hpq.device_eq, hpq.used.trans hqr.used⟩

theorem talksFor_tell {a : Action} (ha : kind a) (p : Link ω) : TalksFor kind p (p.tell a) :=
  ⟨rfl, usedFor_perform ha p.hw⟩

theorem talksFor_ask {a : Action} (ha : kind a) (p : Link ω) : TalksFor kind p (p.ask a).2 :=
  ⟨rfl, usedFor_perform ha p.hw⟩

theorem TalksFor.talks {p q : Link ω} (h : TalksFor kind p q) : Talks p q :=
  ⟨h.device_eq, h.used.used⟩

/-- Any kind will do. -/
theorem talks_of_any {p q : Link ω} (h : TalksFor (fun _ => True) p q) : Talks p q := h.talks

end Kinds

/-- A halt is kept by the device, so only the hardware is spoken of. -/
theorem used_stallEndpoint (ep : UInt8) (dir : Direction) (p : Link ω) :
    Used p.hw (p.stallEndpoint ep dir).hw := by
  rw [Link.stallEndpoint]
  split
  · exact .refl
  · next e _ => exact used_perform (.stall e dir) p.hw

/-! ## Endpoints -/

/-- Bulk data may move on an endpoint. -/
structure Device.Ready (d : Device) (ep : UInt8) (dir : Direction) (e : Endpoint) : Prop where
  configured : d.isConfigured = true
  named : Endpoint.ofByte? ep = some e
  opened : (d.endpoints.get e dir).stalled = false
  bulk : e ≠ .control

/-- Why bulk data may not move on an endpoint. -/
inductive Device.Denies (d : Device) (ep : UInt8) (dir : Direction) : Fault → Prop where
  | unconfigured (h : d.isConfigured = false) : Denies d ep dir .notConfigured
  | halted {e : Endpoint} (hconfigured : d.isConfigured = true) (he : Endpoint.ofByte? ep = some e)
      (h : (d.endpoints.get e dir).stalled = true) : Denies d ep dir (.stalled ep)
  /-- It is endpoint 0, or there is no such endpoint. -/
  | none (h : ∀ e, Endpoint.ofByte? ep = some e → e = .control) : Denies d ep dir .notConfigured

section Endpoints

omit [Controller ω]

variable {ep : UInt8} {dir : Direction} {p : Link ω} {e : Endpoint}

theorem Link.bulkEndpoint_eq_ok_iff :
    p.bulkEndpoint ep dir = .ok e ↔ p.device.Ready ep dir e := by
  constructor
  · intro h
    rw [bulkEndpoint] at h
    split at h
    · next hconfigured =>
      split at h
      · cases h
      · next e' he =>
        split at h
        · cases h
        · next hopened =>
          split at h
          · cases h
          · next hbulk =>
            cases h
            exact ⟨hconfigured, he, by simpa using hopened, hbulk⟩
    · cases h
  · intro h
    rw [bulkEndpoint, if_pos h.configured, h.named]
    simp only [h.opened, Bool.false_eq_true, if_false, if_neg h.bulk]

/-- Whatever is refused is refused for a reason. -/
theorem Link.denies_of_bulkEndpoint {fault : Fault} (h : p.bulkEndpoint ep dir = .error fault) :
    p.device.Denies ep dir fault := by
  rw [bulkEndpoint] at h
  split at h
  · next hconfigured =>
    split at h
    · next hnone =>
      cases h
      exact .none fun e he => by rw [hnone] at he; cases he
    · next e he =>
      split at h
      · next hstalled =>
        cases h
        exact .halted hconfigured he hstalled
      · split at h
        · next hcontrol =>
          cases h
          refine .none fun e' he' => ?_
          rw [he] at he'
          exact (Option.some.inj he').symm.trans hcontrol
        · cases h
  · next hconfigured =>
    cases h
    exact .unconfigured (by simpa using hconfigured)

/-- Bulk data does not move on endpoint 0. -/
theorem Link.ne_control_of_bulkEndpoint (h : p.bulkEndpoint ep dir = .ok e) : e ≠ .control :=
  (Link.bulkEndpoint_eq_ok_iff.mp h).bulk

end Endpoints

/-! ## Receiving -/

section Receiving

variable {kind : Action → Prop}

theorem talksFor_rxPending (hkind : ∀ e, kind (.rxReady e)) (ep : UInt8) (p : Link ω) :
    TalksFor kind p (p.rxPending ep).2 := by
  rw [Link.rxPending]
  split
  · exact talksFor_refl p
  · next e _ =>
    split
    · exact talksFor_ask (hkind e) p
    · exact talksFor_refl p

theorem talksFor_awaitPacket {ep : Endpoint} (hkind : kind (.rxReady ep)) (spins : Nat)
    (p : Link ω) : TalksFor kind p (Link.awaitPacket ep spins p).2 := by
  induction spins generalizing p with
  | zero => exact talksFor_ask hkind p
  | succ spins ih =>
    have hask := talksFor_ask hkind p
    rw [Link.awaitPacket]
    generalize p.ask (.rxReady ep) = asked at hask ⊢
    obtain ⟨_ | _, q⟩ := asked
    · exact hask.trans (ih q)
    · exact hask

theorem talksFor_takePacket {ep : Endpoint} (hkind : ∀ a, Action.TakesFrom ep a → kind a)
    (room : Nat) (p : Link ω) : TalksFor kind p (p.takePacket ep room).2 := by
  have hcount := talksFor_ask (hkind _ .rxCount) p
  have hread : ∀ n (w : ω), UsedFor kind w (readFifo ep n w).2 :=
    usedFor_readFifo fun width => hkind _ (.fifoRead width)
  have hkept := hread (min (p.ask (.rxCount ep)).1.toNat room) (p.ask (.rxCount ep)).2.hw
  refine ⟨rfl, (hcount.used.trans hkept).trans ?_⟩
  exact (hread _ _).trans (usedFor_perform (hkind _ (.rxDone false)) _)

end Receiving

theorem talksFor_readPacket (ep : UInt8) (room : Nat) (p : Link ω) :
    TalksFor Action.TakesBulk p (p.readPacket ep room).2 := by
  rw [Link.readPacket]
  cases hbulk : p.bulkEndpoint ep .toDevice with
  | error e => exact talksFor_refl p
  | ok e =>
    have htakes : ∀ a, Action.TakesFrom e a → a.TakesBulk :=
      fun _ ha => ⟨e, Link.ne_control_of_bulkEndpoint hbulk, ha⟩
    have hawait := talksFor_awaitPacket (htakes _ .rxReady) p.device.budget.usbSpins p
    simp only
    generalize Link.awaitPacket e p.device.budget.usbSpins p = awaited at hawait ⊢
    obtain ⟨_ | _, q⟩ := awaited
    · exact hawait
    · exact hawait.trans (talksFor_takePacket htakes room q)

theorem talksFor_gather (ep : UInt8) (fuel need : Nat) (p : Link ω) :
    TalksFor Action.TakesBulk p (p.gather ep fuel need).2 := by
  induction fuel generalizing need p with
  | zero => exact talksFor_refl p
  | succ fuel ih =>
    have hread := talksFor_readPacket ep need p
    rw [Link.gather]
    split
    · exact talksFor_refl p
    · generalize p.readPacket ep need = read at hread ⊢
      obtain ⟨_ | bs, q⟩ := read
      · exact hread
      · simp only
        split
        · exact hread
        · exact hread.trans (ih _ q)

theorem talks_rxPending (ep : UInt8) (p : Link ω) : Talks p (p.rxPending ep).2 :=
  talks_of_any (talksFor_rxPending (fun _ => trivial) ep p)

theorem talks_awaitPacket (ep : Endpoint) (spins : Nat) (p : Link ω) :
    Talks p (Link.awaitPacket ep spins p).2 :=
  talks_of_any (talksFor_awaitPacket trivial spins p)

theorem talks_readPacket (ep : UInt8) (room : Nat) (p : Link ω) :
    Talks p (p.readPacket ep room).2 :=
  (talksFor_readPacket ep room p).talks

theorem talks_gather (ep : UInt8) (fuel need : Nat) (p : Link ω) :
    Talks p (p.gather ep fuel need).2 :=
  (talksFor_gather ep fuel need p).talks

theorem talks_fill (ep : UInt8) (buffer : List UInt8) (p : Link ω) :
    Talks p (p.fill ep buffer).2.2 :=
  talks_gather ep buffer.length buffer.length p

/-! ## Sending -/

section Sending

variable {kind : Action → Prop}

theorem talksFor_awaitCollected {ep : Endpoint} (hkind : kind (.txBusy ep)) (spins : Nat)
    (p : Link ω) : TalksFor kind p (Link.awaitCollected ep spins p).2 := by
  induction spins generalizing p with
  | zero => exact talksFor_ask hkind p
  | succ spins ih =>
    have hask := talksFor_ask hkind p
    rw [Link.awaitCollected]
    generalize p.ask (.txBusy ep) = asked at hask ⊢
    obtain ⟨_ | _, q⟩ := asked
    · exact hask
    · exact hask.trans (ih q)

theorem talksFor_sendPackets {e : Endpoint} (hkind : ∀ a, Action.SendsOn e a → kind a)
    (ep : UInt8) (packets : List (List UInt8)) (p : Link ω) :
    TalksFor kind p (Link.sendPackets ep e packets p).2 := by
  induction packets generalizing p with
  | nil => exact talksFor_refl p
  | cons packet rest ih =>
    have hawait := talksFor_awaitCollected (hkind _ .txBusy) p.device.budget.usbSpins p
    rw [Link.sendPackets]
    generalize Link.awaitCollected e p.device.budget.usbSpins p = awaited at hawait ⊢
    obtain ⟨_ | _, q⟩ := awaited
    · exact hawait
    · have hpacket : TalksFor kind q { q with hw := writeFifo e packet q.hw } :=
        ⟨rfl, usedFor_writeFifo (fun width value => hkind _ (.fifoWrite width value)) packet _⟩
      have hcommitted := talksFor_tell (hkind _ (.txReady false))
        { q with hw := writeFifo e packet q.hw }
      exact ((hawait.trans hpacket).trans hcommitted).trans (ih _)

end Sending

theorem talksFor_write (ep : UInt8) (data : List UInt8) (p : Link ω) :
    TalksFor Action.SendsBulk p (p.write ep data).2 := by
  rw [Link.write]
  cases hbulk : p.bulkEndpoint ep .toHost with
  | error e => exact talksFor_refl p
  | ok e =>
    have hsends : ∀ a, Action.SendsOn e a → a.SendsBulk :=
      fun _ ha => ⟨e, Link.ne_control_of_bulkEndpoint hbulk, ha⟩
    exact talksFor_sendPackets hsends ep (packets data) p

theorem talks_awaitCollected (ep : Endpoint) (spins : Nat) (p : Link ω) :
    Talks p (Link.awaitCollected ep spins p).2 :=
  talks_of_any (talksFor_awaitCollected trivial spins p)

theorem talks_write (ep : UInt8) (data : List UInt8) (p : Link ω) :
    Talks p (p.write ep data).2 :=
  (talksFor_write ep data p).talks

end FlashProgrammer.Usb

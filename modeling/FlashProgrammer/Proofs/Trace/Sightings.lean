import FlashProgrammer.Proofs.Trace.ControllerActions

/-!
# What a trace shows to an onlooker

An onlooker of the USB controller notices some actions and overlooks the others.
`Sees look as w w'` says that between two moments `as` are the actions it noticed.

A function whose actions are all overlooked is seen to do nothing, and what is seen of two
functions one after the other is what is seen of the first and then of the second.
-/

namespace FlashProgrammer.Trace

open Usb

variable {ω : Type} {look : Usb.Action → Bool}

/-- Of the actions that are looked at, these were asked of the controller in between. -/
def Sees (look : Usb.Action → Bool) (as : List Usb.Action) (w w' : Traced ω) : Prop :=
  (controllerActions w'.events).filter look = (controllerActions w.events).filter look ++ as

theorem sees_refl (w : Traced ω) : Sees look [] w w := (List.append_nil _).symm

theorem Sees.trans {as bs : List Usb.Action} {u v w : Traced ω} (huv : Sees look as u v)
    (hvw : Sees look bs v w) : Sees look (as ++ bs) u w := by
  rw [Sees, hvw, huv, List.append_assoc]

/-- Nothing is seen in front of what is seen. -/
theorem Sees.after {as : List Usb.Action} {u v w : Traced ω} (hvw : Sees look as v w)
    (huv : Sees look [] u v) : Sees look as u w := huv.trans hvw

theorem Drives.sees {as : List Usb.Action} {w w' : Traced ω} (h : Drives as w w')
    (look : Usb.Action → Bool) : Sees look (as.filter look) w w' := by
  rw [Sees, h, List.filter_append]

/-- What is seen of a trace that began when nothing was remembered. -/
theorem Sees.filter_eq {as : List Usb.Action} {w : ω} {w' : Traced ω}
    (h : Sees look as (.fresh w) w') : (controllerActions w'.events).filter look = as := h

theorem Sees.countP_eq {as : List Usb.Action} {w : ω} {w' : Traced ω}
    (h : Sees look as (.fresh w) w') : (controllerActions w'.events).countP look = as.length := by
  rw [List.countP_eq_length_filter, h.filter_eq]

section Actions

variable [Controller ω]

theorem unseen_perform {a : Usb.Action} (h : look a = false) (w : Traced ω) :
    Sees look [] w (Controller.perform a w).2 := by
  have hsees := (drives_perform a w).sees look
  rwa [List.filter_cons_of_neg (by simp [h])] at hsees

theorem sees_perform {a : Usb.Action} (h : look a = true) (w : Traced ω) :
    Sees look [a] w (Controller.perform a w).2 := by
  have hsees := (drives_perform a w).sees look
  rwa [List.filter_cons_of_pos h] at hsees

omit [Controller ω] in
/-- Who overlooks the taking of data sees nothing of it. -/
theorem Receives.unseen {w w' : Traced ω} (h : Receives w w')
    (hlook : ∀ a : Usb.Action, a.receives = true → look a = false) : Sees look [] w w' := by
  obtain ⟨as, hdrives, has⟩ := h
  have hnone : as.filter look = [] := by
    rw [List.filter_eq_nil_iff]
    intro a ha
    simp [hlook a (has a ha)]
  have hsees := hdrives.sees look
  rwa [hnone] at hsees

/-- Actions that are not looked at go unseen, however many they are. -/
theorem unseen_of_used {w w' : Traced ω} (h : UsedFor (fun a => look a = false) w w') :
    Sees look [] w w' :=
  h.relates sees_refl Sees.trans unseen_perform

theorem unseen_awaitCollected {ep : Endpoint} (h : look (.txBusy ep) = false) (spins : Nat)
    (p : Link (Traced ω)) : Sees look [] p.hw (Link.awaitCollected ep spins p).2.hw :=
  unseen_of_used (talksFor_awaitCollected h spins p).used

theorem unseen_awaitPacket {ep : Endpoint} (h : look (.rxReady ep) = false) (spins : Nat)
    (p : Link (Traced ω)) : Sees look [] p.hw (Link.awaitPacket ep spins p).2.hw :=
  unseen_of_used (talksFor_awaitPacket h spins p).used

theorem unseen_rxPending (h : ∀ e, look (.rxReady e) = false) (ep : UInt8) (p : Link (Traced ω)) :
    Sees look [] p.hw (p.rxPending ep).2.hw :=
  unseen_of_used (talksFor_rxPending h ep p).used

theorem unseen_readFifo {ep : Endpoint} (h : ∀ width, look (.fifoRead ep width) = false) (n : Nat)
    (w : Traced ω) : Sees look [] w (readFifo ep n w).2 :=
  unseen_of_used (usedFor_readFifo h n w)

/-- Who overlooks how a packet is read sees at most that it is released. -/
theorem sees_takePacket {ep : Endpoint} (hcount : look (.rxCount ep) = false)
    (hread : ∀ width, look (.fifoRead ep width) = false) (room : Nat) (p : Link (Traced ω)) :
    Sees look ([.rxDone ep false].filter look) p.hw (p.takePacket ep room).2.hw := by
  have hcounted : Sees look [] p.hw (p.ask (.rxCount ep)).2.hw := unseen_perform hcount p.hw
  rw [Link.takePacket]
  generalize p.ask (.rxCount ep) = asked at hcounted ⊢
  obtain ⟨available, q⟩ := asked
  have hkept := unseen_readFifo hread (min available.toNat room) q.hw
  simp only
  generalize readFifo ep (min available.toNat room) q.hw = kept at hkept ⊢
  obtain ⟨bs, w⟩ := kept
  have hdropped := unseen_readFifo hread
    (min (available.toNat - min available.toNat room) maxPacket) w
  exact ((drives_perform (.rxDone ep false) _).sees look).after
    (hdropped.after (hkept.after hcounted))

/-! ## Sending -/

/-- How bytes are added to a packet. -/
def fifoWrites (ep : Endpoint) : List UInt8 → List Usb.Action
  | [] => []
  | [a] => [.fifoWrite ep .byte (valueOfBytes .byte [a])]
  | [a, b] => [.fifoWrite ep .half (valueOfBytes .half [a, b])]
  | [a, b, c] => [.fifoWrite ep .half (valueOfBytes .half [a, b]),
      .fifoWrite ep .byte (valueOfBytes .byte [c])]
  | a :: b :: c :: d :: rest =>
    .fifoWrite ep .word (valueOfBytes .word [a, b, c, d]) :: fifoWrites ep rest

theorem drives_writeFifo (ep : Endpoint) (data : List UInt8) (w : Traced ω) :
    Drives (fifoWrites ep data) w (writeFifo ep data w) := by
  have hput : ∀ width bs (w : Traced ω),
      Drives [.fifoWrite ep width (valueOfBytes width bs)] w (put ep width bs w) :=
    fun width bs w => drives_perform (.fifoWrite ep width (valueOfBytes width bs)) w
  fun_induction writeFifo ep data w with
  | case1 w => exact drives_refl w
  | case2 | case3 => exact hput _ _ _
  | case4 => exact (hput _ _ _).trans (hput _ _ _)
  | case5 a b c d rest w ih => exact (hput _ _ _).trans ih

omit [Controller ω] in
theorem eq_of_mem_fifoWrites {ep : Endpoint} {data : List UInt8} {a : Usb.Action}
    (h : a ∈ fifoWrites ep data) : ∃ width value, a = .fifoWrite ep width value := by
  fun_induction fifoWrites ep data with
  | case1 => cases h
  | case2 | case3 => exact ⟨_, _, List.mem_singleton.mp h⟩
  | case4 =>
    rcases List.mem_cons.mp h with rfl | hlast
    · exact ⟨_, _, rfl⟩
    · exact ⟨_, _, List.mem_singleton.mp hlast⟩
  | case5 a b c d rest ih =>
    rcases List.mem_cons.mp h with rfl | hrest
    · exact ⟨_, _, rfl⟩
    · exact ih hrest

/-- All of a packet is seen, or nothing of it. -/
theorem sees_writeFifo {ep : Endpoint} {seen : Bool}
    (h : ∀ width value, look (.fifoWrite ep width value) = seen) (data : List UInt8)
    (w : Traced ω) :
    Sees look (if seen then fifoWrites ep data else []) w (writeFifo ep data w) := by
  have hsees := (drives_writeFifo ep data w).sees look
  have hall : ∀ a ∈ fifoWrites ep data, look a = seen := by
    intro a ha
    obtain ⟨width, value, rfl⟩ := eq_of_mem_fifoWrites ha
    exact h width value
  cases seen with
  | true => rwa [List.filter_eq_self.mpr hall] at hsees
  | false =>
    have hnone : (fifoWrites ep data).filter look = [] :=
      List.filter_eq_nil_iff.mpr fun a ha => by simp [hall a ha]
    rwa [hnone] at hsees

end Actions

end FlashProgrammer.Trace

import FlashProgrammer.Proofs.Programmer.Doing

/-!
# What a turn of the main loop preserves

A turn of the main loop takes work, looks for a packet, reads it and serves the request in it, or
refuses what is none.  What each of these steps preserves is preserved by a whole turn, however
much work there is.
-/

namespace FlashProgrammer.Programmer

open Protocol Usb

variable {ω : Type} [Spi.Bus ω] [ResetLine ω] [Controller ω]

/-- Each step of serving the flash endpoint preserves a property. -/
structure ServiceInvariant (P : Station ω → Prop) : Prop where
  rxPending : ∀ {s}, P s → P (s.1, (s.2.rxPending flashEndpoint).2)
  readPacket : ∀ {s}, P s → P (s.1, (s.2.readPacket flashEndpoint maxPacket).2)
  serve : ∀ {s} (r : Request), P s → P (serve r s)
  refuse : ∀ {s}, P s → P (refuse .toHost s)

/-- Each step of a turn preserves a property. -/
structure TurnInvariant (P : Station ω → Prop) : Prop where
  takeWork : ∀ {s}, P s → P (s.1, s.2.takeWork.2)
  rxPending : ∀ {s}, P s → P (s.1, (s.2.rxPending flashEndpoint).2)
  service : ∀ {s}, P s → P (service s)

variable {P : Station ω → Prop} {s : Station ω}

theorem ServiceInvariant.service (hP : ServiceInvariant P) (h : P s) : P (service s) := by
  have hpending := hP.rxPending h
  rw [Programmer.service]
  generalize s.2.rxPending flashEndpoint = pending at hpending ⊢
  obtain ⟨_ | _, p⟩ := pending
  · exact hpending
  · have hread := hP.readPacket hpending
    simp only at hread ⊢
    generalize p.readPacket flashEndpoint maxPacket = read at hread ⊢
    obtain ⟨_ | frame, q⟩ := read
    · exact hread
    · simp only
      split
      · exact hP.serve _ hread
      · exact hP.refuse hread

theorem ServiceInvariant.turn (hP : ServiceInvariant P)
    (htake : ∀ {s}, P s → P (s.1, s.2.takeWork.2)) : TurnInvariant P where
  takeWork := htake
  rxPending := hP.rxPending
  service := hP.service

namespace TurnInvariant

theorem drain (hP : TurnInvariant P) (fuel : Nat) (h : P s) : P (drain fuel s) := by
  induction fuel generalizing s with
  | zero => exact h
  | succ fuel ih =>
    have htaken := hP.takeWork h
    rw [Programmer.drain]
    generalize s.2.takeWork = taken at htaken ⊢
    obtain ⟨_ | work, p⟩ := taken
    · exact htaken
    · simp only
      split
      · exact ih (hP.service htaken)
      · exact ih htaken

theorem poll (hP : TurnInvariant P) (h : P s) : P (poll s) := by
  rw [Programmer.poll]
  split
  · have hpending := hP.rxPending (hP.drain s.2.device.queue.length h)
    simp only
    generalize (Programmer.drain s.2.device.queue.length s).2.rxPending flashEndpoint = pending
      at hpending ⊢
    obtain ⟨_ | _, p⟩ := pending
    · exact hpending
    · exact hP.service hpending
  · exact h

/-- Of what the device remembers, a turn changes the queue and the records of the endpoints. -/
theorem of_device {P : Device → Prop}
    (hpop : ∀ d : Device, P d → P { d with queue := d.queue.pop.2 })
    (hretains : ∀ {d d' : Device}, Retains d d' → P d → P d') :
    TurnInvariant fun s : Station ω => P s.2.device where
  takeWork := hpop _
  rxPending := hretains (.of_eq (talks_rxPending flashEndpoint _).device_eq)
  service := hretains (retains_service _)

end TurnInvariant

/-- A turn does not queue work twice. -/
theorem turnInvariant_nodup :
    TurnInvariant fun s : Station ω => s.2.device.queue.toList.Nodup := by
  refine .of_device (P := fun d => d.queue.toList.Nodup) ?_ ?_
  · intro d h
    show (d.queue.pop.2).toList.Nodup
    rw [(WorkQueue.toList_pop d.queue).2]
    exact h.tail
  · intro d d' hretains h
    show d'.queue.toList.Nodup
    rwa [hretains.queue_eq]

end FlashProgrammer.Programmer

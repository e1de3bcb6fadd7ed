import FlashProgrammer.Proofs.Usb.Configuring

/-!
# Bus resets

A bus reset puts the device back to address 0 with nothing in flight, whatever it was
doing.  `AsReset` is the device as a reset leaves it.

An interrupt looks at a wake-up before it looks at a reset, and a device that sleeps
on looks at nothing more.  So a reset that comes while the bus sleeps is dropped, and
`bus_reset_exact` says that this is the only way to lose one.
-/

namespace FlashProgrammer.Usb

/-- The device as a bus reset leaves it. -/
structure AsReset (d : Device) : Prop where
  lifecycle_eq : d.lifecycle = .waiting
  endpoints_eq : ∀ ep dir, d.endpoints.get ep dir = {}
  queue_eq : d.queue.toList = []
  stage_eq : d.stage = .idle
  setup_eq : d.setup = none
  pendingAddress_eq : d.pendingAddress = none
  configuration_eq : d.configuration = 0
  awake : d.suspended = false

/-- The controller at address 0, with endpoint 0 set up in both directions. -/
def primed {ω : Type} [Controller ω] (w : ω) : ω :=
  tell (.configure .control .toHost maxPacket false)
    (tell (.configure .control .toDevice maxPacket false) (tell (.setAddress 0) w))

namespace Link

variable {ω : Type} [Controller ω]

theorem asReset_busReset (p : Link ω) : AsReset p.busReset.device where
  lifecycle_eq := rfl
  endpoints_eq := PerDirection.get_replicate ({} : EndpointStatus)
  queue_eq := rfl
  stage_eq := rfl
  setup_eq := rfl
  pendingAddress_eq := rfl
  configuration_eq := rfl
  awake := rfl

/-- An interrupt comes to the bus having used the controller only. -/
theorem used_roused (p : Link ω) : Used p.hw p.roused.2.hw := by
  have hask := (talks_ask .interrupts p).used
  rw [roused]
  generalize p.ask .interrupts = asked at hask ⊢
  obtain ⟨status, q⟩ := asked
  have hpowered : Used p.hw q.powerUp.hw := by
    rw [powerUp]
    split
    · exact hask.trans (used_perform (.enableEvents _) q.hw)
    · exact hask
  simp only
  split
  · exact hpowered.trans (used_perform (.enableEvents _) q.powerUp.hw)
  · exact hpowered

/-- A device sleeps on exactly if it slept and the host does not wake it. -/
theorem suspended_roused (p : Link ω) :
    p.roused.2.device.suspended = (p.device.suspended && !p.roused.1.bus.resume) := by
  have hdevice := (talks_ask .interrupts p).device_eq
  rw [roused, ← hdevice]
  generalize p.ask .interrupts = asked
  obtain ⟨status, q⟩ := asked
  have hnoticed : q.powerUp.device.suspended = q.device.suspended := by
    rw [powerUp]
    split <;> rfl
  simp only
  cases status.bus.resume with
  | true => exact (Bool.and_false _).symm
  | false => exact hnoticed.trans (Bool.and_true _).symm

/-- Nothing has happened to a device with power that is not woken. -/
theorem device_roused {p : Link ω} (hpowered : Lifecycle.powered ≤ p.device.lifecycle)
    (hresume : p.roused.1.bus.resume = false) : p.roused.2.device = p.device := by
  have hdevice := (talks_ask .interrupts p).device_eq
  rw [roused] at hresume ⊢
  rw [← hdevice] at hpowered ⊢
  generalize p.ask .interrupts = asked at hpowered hresume
  obtain ⟨status, q⟩ := asked
  have hnoticed : q.powerUp = q := by
    refine if_neg fun hattached => ?_
    simp only [hattached] at hpowered
    exact absurd hpowered (by decide)
  simp only at hresume
  simp only [hresume, hnoticed]
  rfl

/-- A device sleeps on if the host does not wake it. -/
theorem asleep_roused {p : Link ω} (hasleep : p.device.suspended = true)
    (hresume : p.roused.1.bus.resume = false) : p.roused.2.device.suspended = true := by
  rw [suspended_roused, hasleep, hresume]
  rfl

theorem onInterrupt_of_disconnect {p : Link ω} (hdisconnect : p.roused.1.bus.disconnect = true) :
    p.onInterrupt = (p.ask .interrupts).2.unplug := by
  rw [onInterrupt_eq, if_pos hdisconnect]

theorem onInterrupt_of_asleep {p : Link ω} (hdisconnect : p.roused.1.bus.disconnect = false)
    (hasleep : p.roused.2.device.suspended = true) : p.onInterrupt = p.roused.2 := by
  rw [onInterrupt_eq, hdisconnect, hasleep]
  rfl

theorem onInterrupt_of_reset {p : Link ω} (hdisconnect : p.roused.1.bus.disconnect = false)
    (hawake : p.roused.2.device.suspended = false) (hreset : p.roused.1.bus.reset = true) :
    p.onInterrupt = p.roused.2.busReset := by
  rw [onInterrupt_eq, hdisconnect, hawake, serviceBus, hreset]
  rfl

/-- A device that sleeps on does nothing but read the sources of the interrupt. -/
theorem device_onInterrupt_of_asleep {p : Link ω}
    (hpowered : Lifecycle.powered ≤ p.device.lifecycle) (hasleep : p.device.suspended = true)
    (hdisconnect : p.roused.1.bus.disconnect = false) (hresume : p.roused.1.bus.resume = false) :
    p.onInterrupt.device = p.device := by
  rw [onInterrupt_of_asleep hdisconnect (asleep_roused hasleep hresume)]
  exact device_roused hpowered hresume

end Link

/-! ## Asleep -/

/-- Interrupts come to a device and none of them reports a wake-up or a pulled cable, whatever the
hardware does in between. -/
inductive Dozes {ω : Type} [Controller ω] (p : Link ω) : Link ω → Prop where
  | start : Dozes p p
  | outside {q : Link ω} (h : Dozes p q) (f : ω → ω) : Dozes p { q with hw := f q.hw }
  | interrupt {q : Link ω} (h : Dozes p q) (hdisconnect : q.roused.1.bus.disconnect = false)
      (hresume : q.roused.1.bus.resume = false) : Dozes p q.onInterrupt

section Asleep

variable {ω : Type} [Controller ω] {p q : Link ω}

/-- Nothing happens to a device that sleeps. -/
theorem Dozes.device_eq (h : Dozes p q) (hpowered : Lifecycle.powered ≤ p.device.lifecycle)
    (hasleep : p.device.suspended = true) : q.device = p.device := by
  induction h with
  | start => rfl
  | outside _ f ih => exact ih
  | interrupt _ hdisconnect hresume ih =>
    refine (Link.device_onInterrupt_of_asleep ?_ ?_ hdisconnect hresume).trans ih
    · rw [ih]
      exact hpowered
    · rw [ih]
      exact hasleep

/-- When a bus reset is served.

An interrupt reports a bus reset and no pulled cable to a device with power, on any hardware.  It
leaves the device as a reset should exactly if the device was awake or the interrupt reports a
wake-up as well.  If so, the last thing that the controller was told is to take address 0 and to set
up endpoint 0 in both directions.  If not, the reset is lost: whatever interrupts follow without a
wake-up or a pulled cable, the device stays as it was before. -/
theorem bus_reset_exact (hpowered : Lifecycle.powered ≤ p.device.lifecycle)
    (hdisconnect : p.roused.1.bus.disconnect = false) (hreset : p.roused.1.bus.reset = true) :
    (AsReset p.onInterrupt.device ↔
      p.device.suspended = false ∨ p.roused.1.bus.resume = true) ∧
    (AsReset p.onInterrupt.device → ∃ w, Used p.hw w ∧ p.onInterrupt.hw = primed w) ∧
    (¬AsReset p.onInterrupt.device → ∀ q, Dozes p.onInterrupt q → q.device = p.device) := by
  have hsuspended := p.suspended_roused
  by_cases hserved : p.device.suspended = false ∨ p.roused.1.bus.resume = true
  · have hawake : p.roused.2.device.suspended = false := by
      rw [hsuspended]
      rcases hserved with h | h <;> simp [h]
    have hafter := Link.onInterrupt_of_reset hdisconnect hawake hreset
    rw [hafter]
    have has := Link.asReset_busReset p.roused.2
    exact ⟨⟨fun _ => hserved, fun _ => has⟩, fun _ => ⟨_, p.used_roused, rfl⟩,
      fun hnot => absurd has hnot⟩
  · simp only [not_or, Bool.not_eq_false, Bool.not_eq_true] at hserved
    obtain ⟨hasleep, hresume⟩ := hserved
    have hsame := Link.device_onInterrupt_of_asleep hpowered hasleep hdisconnect hresume
    have hnot : ¬AsReset p.onInterrupt.device := by
      intro has
      have hawake := has.awake
      rw [hsame, hasleep] at hawake
      cases hawake
    refine ⟨⟨fun has => absurd has hnot, ?_⟩, fun has => absurd has hnot, ?_⟩
    · rintro (h | h)
      · rw [hasleep] at h
        cases h
      · rw [hresume] at h
        cases h
    · intro _ q hdozes
      rw [hdozes.device_eq (by rwa [hsame]) (by rwa [hsame]), hsame]

end Asleep

/-! ## On the bench -/

section Bench

open Bench

/-- A device is configured, the bus goes idle, and then something else happens on it. -/
def asleepThen (events : BusEvents) : List (Operation FifoController) :=
  addressing ++ hostSends (configurationSetup 1).toBytes ++ hostCollects ++
    [.outside (Driven.raise { bus := { suspend := true } }), .interrupt,
      .outside (Driven.raise { bus := events })]

/-- The reset comes with a wake-up. -/
theorem bus_reset_exact_woken :
    let p := Operation.runAll (asleepThen { reset := true, resume := true }) ⟨{}, {}⟩
    Lifecycle.powered ≤ p.device.lifecycle ∧ p.roused.1.bus = { reset := true, resume := true } ∧
      AsReset p.onInterrupt.device ∧ ∃ w, Used p.hw w ∧ p.onInterrupt.hw = primed w := by
  intro p
  have hpowered : Lifecycle.powered ≤ p.device.lifecycle := by decide +kernel
  have hbus : p.roused.1.bus = { reset := true, resume := true } := by decide +kernel
  obtain ⟨hserved, hprimed, _⟩ := bus_reset_exact hpowered (by rw [hbus]) (by rw [hbus])
  have has : AsReset p.onInterrupt.device := hserved.mpr (.inr (by rw [hbus]))
  exact ⟨hpowered, hbus, has, hprimed has⟩

/-- The reset comes alone.  The device had asked for it, and stays asleep, configured and at its old
address. -/
theorem reset_lost_while_asleep :
    let p := Operation.runAll (asleepThen { reset := true }) ⟨{}, {}⟩
    Lifecycle.powered ≤ p.device.lifecycle ∧ p.device.enabled.reset = true ∧
      p.roused.1.bus = { reset := true } ∧
      p.onInterrupt.device.lifecycle = .configured ∧ p.onInterrupt.device.configuration = 1 ∧
      p.onInterrupt.device.suspended = true ∧ p.onInterrupt.hw.address = 5 := by
  decide +kernel

end Bench

end FlashProgrammer.Usb

import FlashProgrammer.Proofs.Trace.Guise
import FlashProgrammer.Proofs.Trace.Traced

/-!
# Tracing is invisible

A program that runs on traced hardware returns what it returns on the hardware
itself and leaves the hardware in the same state.  That is to say that the hardware
itself is a guise of traced hardware, and `serve_untraced`, `poll_untraced` and `answer_hw` say of a
whole request or turn what follows.  So what a trace shows is what the firmware does.
-/

namespace FlashProgrammer.Trace

open Flash Protocol Usb

variable {ω : Type}

/-- A device on the hardware itself instead of on traced hardware. -/
def untraced (p : Link (Traced ω)) : Link ω := ⟨p.device, p.hw.hw⟩

/-- A device whose hardware is traced from now on. -/
def traced (p : Link ω) : Link (Traced ω) := ⟨p.device, .fresh p.hw⟩

/-- A station whose hardware is the hardware itself instead of traced. -/
def untracedStation (s : Programmer.Station (Traced ω)) : Programmer.Station ω :=
  (s.1, untraced s.2)

/-- Traced hardware shows the hardware itself. -/
theorem isView_hw [Spi.Bus ω] : IsView (Traced.hw (ω := ω)) := fun _ _ => rfl

variable [Spi.Bus ω] [Controller ω] [ResetLine ω]

/-- The hardware itself instead of traced hardware. -/
def withoutTrace : Guise (Traced ω) ω where
  device := id
  hw := Traced.hw
  lifecycle_eq := fun _ => rfl
  endpoints_eq := fun _ => rfl
  budget_eq := fun _ => rfl
  halt_eq := fun _ _ => rfl
  usb_eq := fun _ _ _ => rfl
  isView := isView_hw
  line_eq := fun _ _ => rfl

/-- What a request is answered does not depend on the trace. -/
theorem answer_hw (r : Request) (s : Programmer) (w : Traced ω) :
    s.answer r w.hw = ((s.answer r w).1, (s.answer r w).2.1, (s.answer r w).2.2.hw) :=
  withoutTrace.answer_hw r s w

/-- Serving a request does not depend on the trace. -/
theorem serve_untraced (r : Request) (s : Programmer.Station (Traced ω)) :
    Programmer.serve r (untracedStation s) = untracedStation (Programmer.serve r s) :=
  withoutTrace.serve_station r s

theorem drain_untraced (fuel : Nat) (s : Programmer.Station (Traced ω)) :
    Programmer.drain fuel (untracedStation s) = untracedStation (Programmer.drain fuel s) := by
  induction fuel generalizing s with
  | zero => rfl
  | succ fuel ih =>
    have htake : (untracedStation s).2.takeWork =
        (s.2.takeWork.1, untraced s.2.takeWork.2) := rfl
    rw [Programmer.drain, Programmer.drain, htake]
    rcases s.2.takeWork with ⟨_ | work, p⟩
    · rfl
    · simp only
      split
      · rw [← ih]
        exact congrArg (Programmer.drain fuel) (withoutTrace.service_station (s.1, p))
      · exact ih (s.1, p)

/-- A turn of the main loop does not depend on the trace. -/
theorem poll_untraced (s : Programmer.Station (Traced ω)) :
    Programmer.poll (untracedStation s) = untracedStation (Programmer.poll s) := by
  have hsame : (untracedStation s).2.device = s.2.device := rfl
  rw [Programmer.poll, Programmer.poll, hsame]
  split
  · have hdrained := drain_untraced s.2.device.queue.length s
    simp only
    rw [hdrained]
    generalize Programmer.drain s.2.device.queue.length s = t
    have hpending : (untracedStation t).2.rxPending flashEndpoint = _ :=
      withoutTrace.rxPending_link flashEndpoint t.2
    rw [hpending]
    rcases t.2.rxPending flashEndpoint with ⟨_ | _, p⟩
    · rfl
    · exact withoutTrace.service_station (t.1, p)
  · rfl

end FlashProgrammer.Trace

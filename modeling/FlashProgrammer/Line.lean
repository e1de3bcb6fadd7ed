/-!
# Lines

A line is an output that the firmware drives high or low.  The reset line of the
board under programming is low while that board is held in reset.
-/

namespace FlashProgrammer

/-- The level of a line. -/
inductive Level where
  | low
  | high
deriving DecidableEq, Repr

/-- Hardware with a reset line. -/
class ResetLine (ω : Type) where
  /-- Drives the line and says whether it could be driven. -/
  drive : Level → ω → Bool × ω

/-- Pulses the line low.  A line that cannot be driven is left at that. -/
def pulseReset {ω : Type} [ResetLine ω] (w : ω) : ω :=
  (ResetLine.drive .high (ResetLine.drive .low w).2).2

end FlashProgrammer

/-!
# Wait budgets

Every wait of the firmware is bounded by a number of iterations, not by time.
-/

namespace FlashProgrammer

/-- Upper bounds for every wait.  The defaults fit a core clock of 125 MHz. -/
structure WaitBudget where
  /-- Spins waiting for a USB FIFO to take or deliver a packet. -/
  usbSpins : Nat := 2000000
  /-- Status reads waiting for the flash to become idle. -/
  flashPolls : Nat := 200000
  /-- Spins during which the target reset line is held low. -/
  resetSpins : Nat := 125000
deriving DecidableEq, Repr

end FlashProgrammer

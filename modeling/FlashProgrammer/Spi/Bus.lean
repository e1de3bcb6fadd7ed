import FlashProgrammer.Fault
import FlashProgrammer.Slot

/-!
# The SPI bus

The flash chips share one bus.  A chip listens from the moment its slot is
selected until all slots are deselected, and the bus moves one byte each way at a
time.

`ω` is the hardware as a whole.  The firmware knows it only through the actions
below and never looks inside, so a statement about every `ω` is a statement about
every bus, however it fails.
-/

namespace FlashProgrammer.Spi

/-- What the firmware asks of the bus. -/
inductive Action where
  /-- Assert the chip select of a slot and deassert any other. -/
  | select (slot : Slot)
  /-- Release all chip selects. -/
  | deselect
  /-- Shift one byte out and one byte in. -/
  | exchange (out : UInt8)
deriving DecidableEq, Repr

/-- What the bus answers. -/
@[reducible] def Action.Reply : Action → Type
  | .select _ => Unit
  | .deselect => Unit
  | .exchange _ => Except Fault UInt8

/-- Hardware with an SPI bus.  Every wait of the bus is bounded and ends in a fault. -/
class Bus (ω : Type) where
  /-- The answer to an action and the hardware after it. -/
  perform : (a : Action) → ω → a.Reply × ω

variable {ω : Type} [Bus ω]

def select (slot : Slot) (w : ω) : ω := (Bus.perform (.select slot) w).2

def deselect (w : ω) : ω := (Bus.perform .deselect w).2

def exchange (out : UInt8) (w : ω) : Except Fault UInt8 × ω := Bus.perform (.exchange out) w

/-- Shifts bytes out and drops what comes in.  Stops at the first fault. -/
def send : List UInt8 → ω → Except Fault Unit × ω
  | [], w => (.ok (), w)
  | b :: bs, w =>
    match exchange b w with
    | (.ok _, w) => send bs w
    | (.error e, w) => (.error e, w)

/-- Shifts `n` bytes in, after bytes that came before, newest first. -/
def receiveAfter : (newest : List UInt8) → (n : Nat) → ω → Except Fault (List UInt8) × ω
  | newest, 0, w => (.ok newest.reverse, w)
  | newest, n + 1, w =>
    match exchange 0xFF w with
    | (.ok b, w) => receiveAfter (b :: newest) n w
    | (.error e, w) => (.error e, w)

/-- Shifts `n` bytes in while the line out is held high.  Stops at the first fault. -/
def receive (n : Nat) (w : ω) : Except Fault (List UInt8) × ω := receiveAfter [] n w

@[simp] theorem send_nil (w : ω) : send [] w = (.ok (), w) := rfl

@[simp] theorem receive_zero (w : ω) : receive 0 w = (.ok [], w) := rfl

/-- Bytes that came before stand in front and change nothing else. -/
theorem receiveAfter_eq (newest : List UInt8) (n : Nat) (w : ω) :
    receiveAfter newest n w =
      ((receive n w).1.map fun bs => newest.reverse ++ bs, (receive n w).2) := by
  have key : ∀ (n : Nat) (front back : List UInt8) (w : ω), receiveAfter (back ++ front) n w =
      ((receiveAfter back n w).1.map fun bs => front.reverse ++ bs, (receiveAfter back n w).2) := by
    intro n
    induction n with
    | zero =>
      intro front back w
      simp [receiveAfter, Except.map]
    | succ n ih =>
      intro front back w
      simp only [receiveAfter]
      split
      · next b w' _ => exact ih front (b :: back) w'
      · rfl
  exact key n newest [] w

/-- One byte comes, and then the others. -/
theorem receive_succ (n : Nat) (w : ω) :
    receive (n + 1) w =
      match exchange 0xFF w with
      | (.ok b, w) => ((receive n w).1.map fun bs => b :: bs, (receive n w).2)
      | (.error e, w) => (.error e, w) := by
  rw [receive, receiveAfter]
  split
  · next b w' _ => exact receiveAfter_eq [b] n w'
  · rfl

end FlashProgrammer.Spi

import FlashProgrammer.Line
import FlashProgrammer.Slot

/-!
# The pins of the board

How the board wires the microcontroller to the flash chips and to the board under
programming.  `peripherals` is what is set up at the start, in order.
-/

namespace FlashProgrammer.Rp2040

/-- The clock edge at which the SPI block samples. -/
inductive Phase where
  | captureOnFirst
  | captureOnSecond
deriving DecidableEq, Repr

/-- The level of the SPI clock between bytes. -/
inductive Polarity where
  | idleLow
  | idleHigh
deriving DecidableEq, Repr

/-- How the SPI block is set up. -/
structure SpiSettings where
  clock : Nat
  dataOut : Nat
  dataIn : Nat
  /-- Clock cycles in a second. -/
  hertz : Nat
  /-- When it samples. -/
  phase : Phase
  /-- How it rests. -/
  polarity : Polarity
deriving DecidableEq, Repr

/-- Something that is set up at the start. -/
inductive Peripheral where
  | spi (settings : SpiSettings)
  /-- A pin that becomes an output at some level. -/
  | output (pin : Nat) (level : Level)
deriving DecidableEq, Repr

def slotPin : Slot → Nat
  | .local1 => 17
  | .local2 => 20
  | .external => 21

def resetPin : Nat := 22

/-- The SPI block at 30 MHz. -/
def spiSettings : SpiSettings where
  clock := 18
  dataOut := 19
  dataIn := 16
  hertz := 30000000
  phase := .captureOnFirst
  polarity := .idleLow

/-- What is set up at the start: the SPI block, the chip selects and the reset line, all high. -/
def peripherals : List Peripheral :=
  .spi spiSettings :: (Slot.all.map fun slot => .output (slotPin slot) .high) ++
    [.output resetPin .high]

end FlashProgrammer.Rp2040

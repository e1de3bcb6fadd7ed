/-!
# Faults

What can go wrong between the firmware and its hardware.  A fault never reaches
the host as such: the request being served turns it into a status code or a
stalled endpoint.
-/

namespace FlashProgrammer

/-- Why an operation on the hardware failed. -/
inductive Fault where
  /-- The SPI bus reported a failure. -/
  | spi
  /-- The SPI bus never became ready. -/
  | spiTimeout
  /-- The flash kept its busy bit set past the poll budget. -/
  | flashBusy
  /-- A FIFO did not drain or fill in time. -/
  | usbTimeout (endpoint : UInt8)
  /-- The endpoint is halted, and the host must clear it first. -/
  | stalled (endpoint : UInt8)
  /-- Bulk traffic was asked for before the device was configured. -/
  | notConfigured
deriving DecidableEq, Repr

namespace Fault

/-- The text of a fault. -/
def message : Fault → String
  | spi => "spi transfer failed"
  | spiTimeout => "spi transfer timed out"
  | flashBusy => "flash stayed busy"
  | usbTimeout ep => s!"usb fifo timed out on endpoint {ep.toNat}"
  | stalled ep => s!"endpoint {ep.toNat} is stalled"
  | notConfigured => "device is not configured"

end Fault

end FlashProgrammer

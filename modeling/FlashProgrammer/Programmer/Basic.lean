import FlashProgrammer.Flash.Identify
import FlashProgrammer.Protocol.Request
import FlashProgrammer.Protocol.Response
import FlashProgrammer.WaitBudget

/-!
# The programmer

What the programmer remembers between requests: the chip that the host has
targeted, the erase or write it has started, and the page it wrote last.

One operation may be outstanding at a time.  The host polls until it is done, so
no request waits for the flash to erase or program.
-/

namespace FlashProgrammer

open Flash Protocol

/-- The operation that was started and has not been seen to end. -/
inductive Job where
  | idle
  /-- Block `current` is being erased, and the blocks from `next` to `last` follow. -/
  | erase (current next last : Nat)
  | write (page : Nat)
deriving DecidableEq, Repr

namespace Job

/-- The block or page that the operation is at. -/
def at? : Job → Option Nat
  | idle => none
  | erase current _ _ => some current
  | write page => some page

/-- The block or page that the operation is at, or 0. -/
def position (j : Job) : Nat := j.at?.getD 0

end Job

/-- The page that was programmed last. -/
structure Written where
  page : Nat
  /-- How many bytes were written to it. -/
  length : Nat
deriving DecidableEq, Repr

/-- What the programmer remembers between requests. -/
structure Programmer where
  target : Option Slot := none
  geometry : Option Geometry := none
  job : Job := .idle
  /-- The page that was programmed last. -/
  written : Option Written := none
  /-- The bytes of the last write. -/
  page : List UInt8 := List.replicate maxPageLength 0
  budget : WaitBudget := {}
deriving DecidableEq, Repr

namespace Programmer

/-- The targeted chip. -/
def selected (s : Programmer) : Option (Slot × Geometry) := do
  let slot ← s.target
  let geometry ← s.geometry
  return (slot, geometry)

end Programmer

/-- How an erase or write stands at a block or page. -/
def eraseResponse (status : EraseStatus) (position : Nat) : Response :=
  .erase status (.ofNat position)

/-- What the host is told of where a geometry came from. -/
def provenanceFlags : Provenance → DeviceFlags
  | .table => {}
  | .sfdp => { fromSfdp := true }
  | .synthesized => { bestGuess := true }

/-- What the host is told of a chip.  An erase size past 24 bits is cut to the largest one. -/
def deviceInfo (g : Geometry) : DeviceInfo where
  size := UInt32.ofNat g.capacity
  manufacturer := g.manufacturer
  deviceType := g.deviceType
  pageSize := .ofNat g.pageLength
  eraseSize := .ofNat (min g.eraseSize PageNumber.max)
  flags := provenanceFlags g.provenance

end FlashProgrammer

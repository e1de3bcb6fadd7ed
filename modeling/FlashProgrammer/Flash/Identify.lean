import FlashProgrammer.Flash.Access
import FlashProgrammer.Flash.Catalogue
import FlashProgrammer.Sfdp.Discover

/-!
# Identifying a chip

An id is looked up in the catalogue, then the chip is asked for its description
of itself, then a geometry is guessed.  Identification always ends in a geometry.
-/

namespace FlashProgrammer.Flash

namespace Geometry

/-- The geometry that a chip described itself. -/
def ofParameters (id : JedecId) (p : Sfdp.Parameters) : Geometry where
  manufacturer := id.manufacturer
  deviceType := id.deviceType
  reportedCapacity := id.capacity
  capacity := p.capacityBytes
  eraseOpcode := p.eraseOpcode
  eraseSize := p.eraseSize
  pageSize := p.pageSize
  provenance := .sfdp

end Geometry

/-- The geometry of an id.  The description is read only if the catalogue does not know the id. -/
def resolve {ω : Type} (read : Sfdp.Reader ω) (id : JedecId) (w : ω) : Geometry × ω :=
  match catalogued? id with
  | some g => (g, w)
  | none =>
    match Sfdp.discover read w with
    | (.ok p, w) => (.ofParameters id p, w)
    | (.error _, w) => (.guess id, w)

variable {ω : Type} [Spi.Bus ω]

/-- The geometry of the chip in a slot.  An id that could not be read counts as unreadable. -/
def identify (slot : Slot) (w : ω) : Geometry × ω :=
  match readId slot w with
  | (.ok id, w) => resolve (readSfdp slot) id w
  | (.error _, w) => resolve (readSfdp slot) .unreadable w

end FlashProgrammer.Flash

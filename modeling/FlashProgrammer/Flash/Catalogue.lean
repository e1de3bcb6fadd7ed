import FlashProgrammer.Flash.Geometry

/-!
# The catalogue of known parts

The parts whose geometry is known from their id alone.  Most report the logarithm
of their size as capacity code; the parts of two makers encode the part number
there, and the catalogue gives the true code beside the reported one.
-/

namespace FlashProgrammer.Flash

/-- One known part of a maker. -/
structure Part where
  /-- The device type it reports. -/
  deviceType : UInt8
  /-- The capacity code it reports. -/
  reported : UInt8
  /-- The capacity code it should report. -/
  actual : UInt8
  eraseOpcode : UInt8
  /-- Bytes in an erase block. -/
  eraseSize : Nat
deriving DecidableEq, Repr

namespace Part

/-- A part whose capacity code is not the logarithm of its size.  It erases sectors of 4 KiB. -/
def coded (deviceType reported actual : UInt8) : Part :=
  ⟨deviceType, reported, actual, Instruction.sectorEraseOpcode, 4096⟩

/-- A part that erases sectors of 4 KiB. -/
def sectored (deviceType capacity : UInt8) : Part :=
  coded deviceType capacity capacity

/-- A part that erases only blocks of 64 KiB. -/
def blocked (deviceType capacity : UInt8) : Part :=
  ⟨deviceType, capacity, capacity, Instruction.blockEraseOpcode, 64 * 1024⟩

/-- The geometry of a part with the id it reported. -/
def geometry (p : Part) (id : JedecId) : Geometry where
  manufacturer := id.manufacturer
  deviceType := id.deviceType
  reportedCapacity := id.capacity
  capacity := capacityOfCode p.actual
  eraseOpcode := p.eraseOpcode
  eraseSize := p.eraseSize
  pageSize := 256
  provenance := .table

end Part

/-- A maker of flash parts. -/
structure Maker where
  id : UInt8
  name : String
  parts : List Part
deriving Repr

/-- Every known maker with its parts. -/
def makers : List Maker :=
  [ { id := 0xEF, name := "Winbond",
      parts :=
        [ .sectored 0x40 0x14, .sectored 0x40 0x15, .sectored 0x40 0x16, .sectored 0x40 0x17,
          .sectored 0x40 0x18, .sectored 0x40 0x19,
          .sectored 0x60 0x15, .sectored 0x60 0x16, .sectored 0x60 0x17,
          .sectored 0x30 0x13, .sectored 0x30 0x14, .sectored 0x30 0x15, .sectored 0x30 0x16,
          .sectored 0x30 0x17 ] },
    { id := 0xC2, name := "Macronix",
      parts :=
        [ .sectored 0x20 0x14, .sectored 0x20 0x15, .sectored 0x20 0x16, .sectored 0x20 0x17,
          .sectored 0x20 0x18, .sectored 0x20 0x19,
          .sectored 0x25 0x36, .sectored 0x25 0x37 ] },
    { id := 0x20, name := "Micron",
      parts :=
        [ .blocked 0x20 0x14, .blocked 0x20 0x15, .blocked 0x20 0x16, .blocked 0x20 0x17,
          .sectored 0xBA 0x16, .sectored 0xBA 0x17, .sectored 0xBA 0x18, .sectored 0xBA 0x19 ] },
    { id := 0x01, name := "Spansion",
      parts :=
        [ .blocked 0x02 0x14, .blocked 0x02 0x15, .blocked 0x02 0x16, .blocked 0x02 0x17,
          .sectored 0x40 0x15, .sectored 0x40 0x16, .sectored 0x40 0x17 ] },
    { id := 0xC8, name := "GigaDevice",
      parts :=
        [ .sectored 0x40 0x14, .sectored 0x40 0x15, .sectored 0x40 0x16, .sectored 0x40 0x17,
          .sectored 0x40 0x18,
          .sectored 0x60 0x16, .sectored 0x60 0x17 ] },
    { id := 0xBF, name := "SST",
      parts :=
        [ .coded 0x25 0x8E 0x14, .coded 0x25 0x41 0x15, .coded 0x25 0x4A 0x16,
          .coded 0x25 0x4B 0x17,
          .coded 0x26 0x41 0x15, .coded 0x26 0x42 0x16, .coded 0x26 0x43 0x17 ] },
    { id := 0x1F, name := "Atmel",
      parts :=
        [ .coded 0x45 0x01 0x14, .coded 0x46 0x02 0x15, .coded 0x47 0x00 0x16,
          .coded 0x47 0x01 0x16, .coded 0x48 0x00 0x17 ] },
    { id := 0x9D, name := "ISSI",
      parts :=
        [ .sectored 0x60 0x14, .sectored 0x60 0x15, .sectored 0x60 0x16, .sectored 0x60 0x17,
          .sectored 0x60 0x18,
          .sectored 0x40 0x15, .sectored 0x40 0x16 ] },
    { id := 0x1C, name := "EON",
      parts :=
        [ .sectored 0x30 0x14, .sectored 0x30 0x15, .sectored 0x30 0x16, .sectored 0x30 0x17,
          .sectored 0x70 0x16, .sectored 0x70 0x17 ] } ]

def findMaker? (manufacturer : UInt8) : Option Maker :=
  makers.find? fun m => m.id == manufacturer

def makerName? (manufacturer : UInt8) : Option String :=
  (findMaker? manufacturer).map Maker.name

/-- The part that reports an id. -/
def findPart? (id : JedecId) : Option Part := do
  let maker ← findMaker? id.manufacturer
  maker.parts.find? fun p => p.deviceType == id.deviceType && p.reported == id.capacity

/-- The geometry of a part that the catalogue lists. -/
def catalogued? (id : JedecId) : Option Geometry :=
  (findPart? id).map fun p => p.geometry id

example : (catalogued? ⟨0xBF, 0x25, 0x41⟩).map Geometry.capacity = some (2 * 1024 * 1024) := by
  decide

end FlashProgrammer.Flash

import FlashProgrammer.Fault
import FlashProgrammer.LittleEndian

/-!
# SFDP headers

A chip that describes itself does so in a space of its own.  It starts with a
header, and parameter headers that point at tables follow.  Each is eight bytes.
-/

namespace FlashProgrammer.Sfdp

/-- Why a chip's description of itself was refused. -/
inductive Refusal where
  /-- The space does not start with the signature. -/
  | badSignature
  /-- The description is of another major revision. -/
  | unsupportedRevision (major : UInt8)
  /-- No parameter header points at a basic table. -/
  | noBasicTable
  /-- The basic table makes no sense. -/
  | invalidParameters
  /-- The chip could not be read. -/
  | read (fault : Fault)
deriving DecidableEq, Repr

namespace Refusal

def message : Refusal → String
  | badSignature => "missing SFDP signature"
  | unsupportedRevision major => s!"unsupported SFDP major revision {major.toNat}"
  | noBasicTable => "no JEDEC basic flash parameter table"
  | invalidParameters => "invalid parameter in basic flash parameter table"
  | read _ => "spi read of SFDP data failed"

end Refusal

/-- The letters SFDP, read as a little-endian number. -/
def signature : Nat := 0x50444653

def basicTableId : Nat := 0xFF00

/-- Bytes in a header of either kind. -/
def headerLength : Nat := 8

/-- One byte of a header or table. -/
def byteAt (bs : List UInt8) (i : Nat) : UInt8 := bs.getD i 0

/-- The header at the start of the space. -/
structure Header where
  minor : UInt8
  major : UInt8
  /-- How many parameter headers follow. -/
  parameterHeaders : Nat
deriving DecidableEq, Repr

namespace Header

/-- Reads a header.  The field for the number of parameter headers holds one less. -/
def parse (bs : List UInt8) : Except Refusal Header :=
  if LittleEndian.field bs 0 4 = signature then
    .ok { minor := byteAt bs 4, major := byteAt bs 5, parameterHeaders := (byteAt bs 6).toNat + 1 }
  else
    .error .badSignature

end Header

/-- A header that points at one table. -/
structure ParameterHeader where
  id : Nat
  minor : UInt8
  major : UInt8
  /-- The length of the table in words of four bytes. -/
  lengthWords : Nat
  pointer : Nat
deriving DecidableEq, Repr

namespace ParameterHeader

/-- Reads a parameter header.  The low byte of the id comes first and its high byte last. -/
def parse (bs : List UInt8) : ParameterHeader where
  id := LittleEndian.decode [byteAt bs 0, byteAt bs 7]
  minor := byteAt bs 1
  major := byteAt bs 2
  lengthWords := (byteAt bs 3).toNat
  pointer := LittleEndian.field bs 4 3

/-- The header points at a basic table that can be read. -/
def isBasic (h : ParameterHeader) : Bool := h.id == basicTableId && h.major == 1

end ParameterHeader

example : LittleEndian.encode 4 signature = [0x53, 0x46, 0x44, 0x50] := by decide

end FlashProgrammer.Sfdp

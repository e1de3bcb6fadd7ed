import FlashProgrammer.Bench.Record
import FlashProgrammer.Sfdp.Discover

/-!
# A description on the bench

A chip's description of itself kept as a list of bytes, and the description that a
plain chip would give.
-/

namespace FlashProgrammer.Bench

/-- A description, with a count of how it was read.  Bytes past its end read as ones. -/
structure SfdpImage where
  bytes : List UInt8 := []
  /-- The read that fails, counted from zero. -/
  failAt : Option Nat := none
  fault : Fault := .spi
  /-- The address and length of every read. -/
  reads : Record (Nat × Nat) := {}
deriving DecidableEq, Repr

namespace SfdpImage

def slice (image : SfdpImage) (address length : Nat) : List UInt8 :=
  let kept := (image.bytes.drop address).take length
  kept ++ List.replicate (length - kept.length) 0xFF

def read : Sfdp.Reader SfdpImage := fun address length image =>
  let after := { image with reads := image.reads.push (address, length) }
  if image.failAt = some image.reads.toList.length then (.error image.fault, after)
  else (.ok (image.slice address length), after)

end SfdpImage

/-- Where the basic table of a plain description begins. -/
def tableOffset : Nat := 0x30

/-- The words of the basic table of a plain chip: erase types of 4, 32 and 64 KiB, pages of 256
bytes, and ones elsewhere. -/
def plainTable (density : Nat) (opcode : UInt8) : List Nat :=
  let ones := 0xFFFFFFFF
  [0xFFFF00E1 + opcode.toNat * 256, density, ones, ones, ones, ones, ones,
    LittleEndian.decode [12, 0x20, 15, 0x52], LittleEndian.decode [16, 0xD8, 0, 0], ones, 0x80,
    ones, ones, ones, ones, ones]

/-- The description of a plain chip: revision 1.6 and one table of `words` words. -/
def plainDescription (density : Nat) (opcode : UInt8) (words : Nat) : List UInt8 :=
  LittleEndian.encode 4 Sfdp.signature ++ [0x06, 0x01, 0x00, 0xFF] ++
    [0x00, 0x06, 0x01, UInt8.ofNat words, UInt8.ofNat tableOffset, 0x00, 0x00, 0xFF] ++
    List.replicate (tableOffset - 16) 0xFF ++
    ((plainTable density opcode).take words).flatMap (LittleEndian.encode 4)

end FlashProgrammer.Bench

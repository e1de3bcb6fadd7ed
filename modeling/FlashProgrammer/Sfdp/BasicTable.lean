import FlashProgrammer.Sfdp.Header

/-!
# The basic flash parameter table

Of the table only the density, the erase opcode with its size and the page size
are read.  Words of four bytes are numbered from one, as in the standard.
-/

namespace FlashProgrammer.Sfdp

/-- What the programmer takes from a basic table. -/
structure Parameters where
  capacityBits : Nat
  eraseOpcode : UInt8
  /-- Bytes in an erase block. -/
  eraseSize : Nat
  /-- Bytes in a page. -/
  pageSize : Nat
deriving DecidableEq, Repr

def wordCount (table : List UInt8) : Nat := table.length / 4

/-- Word `n` of a table, counted from one. -/
def word (table : List UInt8) (n : Nat) : Nat := LittleEndian.field table (4 * (n - 1)) 4

/-- A density with its top bit clear is one less than the size in bits.  Otherwise the rest is the
logarithm of the size, which must be below 64. -/
def capacityBits? (density : Nat) : Option Nat :=
  if density < 0x80000000 then some (density + 1)
  else if density - 0x80000000 < 64 then some (1 <<< (density - 0x80000000))
  else none

/-- The erase opcode that the table declares. -/
def declaredOpcode (table : List UInt8) : UInt8 := byteAt table 1

/-- The four erase types of words 8 and 9: the size's logarithm and the opcode. -/
def eraseTypes (table : List UInt8) : List (Nat × UInt8) :=
  [28, 30, 32, 34].map fun i => ((byteAt table i).toNat, byteAt table (i + 1))

/-- The size of the first erase type that has the declared opcode. -/
def eraseTypeSize? (table : List UInt8) : Option Nat :=
  ((eraseTypes table).find? fun t => t.1 != 0 && t.1 < 32 && t.2 == declaredOpcode table).map
    fun t => 1 <<< t.1

/-- The table says that the declared opcode erases 4 KiB. -/
def declaresSectors (table : List UInt8) : Bool :=
  word table 1 % 4 == 1 && declaredOpcode table != 0xFF

/-- The erase size of the declared opcode: of its erase type if the table is long enough to have
them, else 4 KiB if the table says so. -/
def eraseSize? (table : List UInt8) : Option Nat :=
  (if 9 ≤ wordCount table then eraseTypeSize? table else none).or
    (if declaresSectors table then some 4096 else none)

/-- Word 11 gives the page size, and a shorter table means 256 bytes. -/
def pageSizeOf (table : List UInt8) : Nat :=
  if 11 ≤ wordCount table then 1 <<< (word table 11 / 16 % 16) else 256

namespace Parameters

def parse (table : List UInt8) : Except Refusal Parameters :=
  if wordCount table < 2 then .error .invalidParameters
  else
    match capacityBits? (word table 2), eraseSize? table with
    | some capacityBits, some eraseSize =>
      .ok
        { capacityBits
          eraseOpcode := declaredOpcode table
          eraseSize
          pageSize := pageSizeOf table }
    | _, _ => .error .invalidParameters

/-- Size in bytes, at most what 32 bits can name. -/
def capacityBytes (p : Parameters) : Nat := min (p.capacityBits / 8) 0xFFFFFFFF

end Parameters

end FlashProgrammer.Sfdp

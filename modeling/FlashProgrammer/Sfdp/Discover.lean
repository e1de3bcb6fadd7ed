import FlashProgrammer.Sfdp.BasicTable

/-!
# The SFDP walk

The walk reads the header, then the parameter headers in order until one points
at a basic table, then that table once.  Nothing more is read after the read that
decides the result.
-/

namespace FlashProgrammer.Sfdp

/-- Reads bytes of a description: an address, a length, and the hardware before. -/
abbrev Reader (ω : Type) := (address length : Nat) → ω → Except Fault (List UInt8) × ω

/-- Words read of a basic table.  The last one used is the eleventh. -/
def maxTableWords : Nat := 16

variable {ω : Type}

/-- Reads up to `n` parameter headers, the first at `address`, until one points at a basic table. -/
def findBasic (read : Reader ω) : (n address : Nat) → ω → Except Refusal ParameterHeader × ω
  | 0, _, w => (.error .noBasicTable, w)
  | n + 1, address, w =>
    match read address headerLength w with
    | (.error e, w) => (.error (.read e), w)
    | (.ok bs, w) =>
      let header := ParameterHeader.parse bs
      if header.isBasic then (.ok header, w) else findBasic read n (address + headerLength) w

/-- Reads the basic table that a parameter header points at. -/
def readTable (read : Reader ω) (header : ParameterHeader) (w : ω) :
    Except Refusal Parameters × ω :=
  match read header.pointer (4 * min header.lengthWords maxTableWords) w with
  | (.error e, w) => (.error (.read e), w)
  | (.ok table, w) => (Parameters.parse table, w)

/-- Walks the description of a chip. -/
def discover (read : Reader ω) (w : ω) : Except Refusal Parameters × ω :=
  match read 0 headerLength w with
  | (.error e, w) => (.error (.read e), w)
  | (.ok bs, w) =>
    match Header.parse bs with
    | .error e => (.error e, w)
    | .ok header =>
      if header.major = 1 then
        match findBasic read header.parameterHeaders headerLength w with
        | (.error e, w) => (.error e, w)
        | (.ok basic, w) => readTable read basic w
      else
        (.error (.unsupportedRevision header.major), w)

end FlashProgrammer.Sfdp

import FlashProgrammer.Line
import FlashProgrammer.Programmer.Basic

/-!
# Requests with a response

Every request but a read and a write is answered with one frame.  An erase is
only started here; the host polls its status, and the poll that finds one block of
a range done starts the next.
-/

namespace FlashProgrammer.Programmer

open Flash Protocol

variable {ω : Type} [Spi.Bus ω]

/-! ## Listing and targeting -/

/-- What the chip of a slot is. -/
def listDevice (number bus : UInt8) (w : ω) : Response × ω :=
  match Slot.find? number bus with
  | none => (.listDevice .missing, w)
  | some slot =>
    let (g, w) := identify slot w
    (.listDevice (deviceInfo g), w)

/-- Targets the chip of a slot, or none, and forgets what was done to the last target. -/
def targetDevice (number bus : UInt8) (s : Programmer) (w : ω) : Programmer × ω :=
  let s := { s with job := .idle, written := none }
  match Slot.find? number bus with
  | none => ({ s with target := none, geometry := none }, w)
  | some slot =>
    let (g, w) := identify slot w
    ({ s with target := some slot, geometry := some g }, w)

/-! ## Erasing -/

def startBlock (slot : Slot) (g : Geometry) (block : Nat) (w : ω) : Except Fault Unit × ω :=
  startBlockErase slot g.eraseOpcode (g.blockAddress block) w

/-- Polls the running operation, and starts the next block of a range once one is done. -/
def eraseStatus (slot : Slot) (g : Geometry) (s : Programmer) (w : ω) :
    Response × Programmer × ω :=
  match isBusy slot w with
  | (.error _, w) => (eraseResponse .invalid s.job.position, s, w)
  | (.ok true, w) => (eraseResponse .inProgress s.job.position, s, w)
  | (.ok false, w) =>
    let done : Response × Programmer × ω :=
      (eraseResponse .complete s.job.position, { s with job := .idle }, w)
    match s.job with
    | .erase _ next last =>
      if next ≤ last then
        match startBlock slot g next w with
        | (.ok _, w) =>
          (eraseResponse .inProgress next, { s with job := .erase next (next + 1) last }, w)
        | (.error _, w) => (eraseResponse .invalid next, { s with job := .idle }, w)
      else done
    | _ => done

/-- Starts erasing the blocks from `first` to `last`, unless something is outstanding or there are
no such blocks.  A refusal names `position`. -/
def startErase (g : Geometry) (first last position : Nat)
    (start : ω → Except Fault Unit × ω) (s : Programmer) (w : ω) : Response × Programmer × ω :=
  match s.job.at? with
  | some active => (eraseResponse .inProgress active, s, w)
  | none =>
    if last < first || g.eraseBlocks ≤ last then (eraseResponse .invalid position, s, w)
    else
      match start w with
      | (.ok _, w) =>
        (eraseResponse .inProgress first, { s with job := .erase first (first + 1) last }, w)
      | (.error _, w) => (eraseResponse .invalid first, s, w)

/-- Serves an erase request.  Erasing the whole chip is one step, as if block 0 were all. -/
def erase (operation : EraseOperation) (first last : Nat) (s : Programmer) (w : ω) :
    Response × Programmer × ω :=
  match s.selected with
  | none => (eraseResponse .invalid first, s, w)
  | some (slot, g) =>
    match operation with
    | .status => eraseStatus slot g s w
    | .all => startErase g 0 0 first (startChipErase slot) s w
    | .page => startErase g first first first (startBlock slot g first) s w
    | .pageRange => startErase g first last first (startBlock slot g first) s w

/-! ## Verifying -/

/-- Waits for the chip and reads its memory. -/
def readIdle (slot : Slot) (polls address length : Nat) (w : ω) : Except Fault (List UInt8) × ω :=
  match waitIdle slot polls w with
  | (.ok _, w) => readData slot address length w
  | (.error e, w) => (.error e, w)

/-- Compares the page that was programmed last with the bytes of the last write. -/
def verify (s : Programmer) (w : ω) : VerifyStatus × ω :=
  match s.selected, s.written with
  | some (slot, g), some written =>
    match readIdle slot s.budget.flashPolls (g.pageAddress written.page) written.length w with
    | (.ok bs, w) => (if bs = s.page.take written.length then .agrees else .differs, w)
    | (.error _, w) => (.invalid, w)
  | _, _ => (.invalid, w)

/-! ## Answering -/

/-- Serves a request that is answered with one frame.  A read and a write are not. -/
def answer [ResetLine ω] (r : Request) (s : Programmer) (w : ω) :
    Option Response × Programmer × ω :=
  match r with
  | .deviceCount => (some (.deviceCount Slot.internalCount Slot.externalCount), s, w)
  | .listDevice number bus =>
    let (response, w) := listDevice number bus w
    (some response, s, w)
  | .targetDevice number bus =>
    let (s, w) := s.targetDevice number bus w
    (some .targetDevice, s, w)
  | .erase operation first last =>
    let (response, s, w) := s.erase operation first.val last.val w
    (some response, s, w)
  | .verify =>
    let (status, w) := s.verify w
    (some (.verify status), s, w)
  | .resetTarget => (some .resetTarget, s, pulseReset w)
  | .read _ => (none, s, w)
  | .write _ _ => (none, s, w)

end FlashProgrammer.Programmer

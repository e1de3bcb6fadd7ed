import FlashProgrammer.Programmer.Answer
import FlashProgrammer.Usb.Bulk

/-!
# Serving the host

The main loop takes the work that the interrupt handler queued.  A packet on the
flash endpoint is a request: it is read, decoded and served, and its answer goes
out on the same endpoint.  What cannot be served halts the endpoint, IN for a
request that asks for data and OUT for one that brings it.
-/

namespace FlashProgrammer.Programmer

open Flash Protocol Usb

variable {ω : Type} [Spi.Bus ω] [ResetLine ω] [Controller ω]

/-- The programmer and its link to the host. -/
abbrev Station (ω : Type) := Programmer × Link ω

/-- Halts the flash endpoint in one direction. -/
def refuse (dir : Direction) (s : Station ω) : Station ω :=
  (s.1, s.2.stallEndpoint flashEndpoint dir)

/-- Sends one page to the host. -/
def servePage (page : Nat) (s : Station ω) : Station ω :=
  match s.1.selected with
  | none => refuse .toHost s
  | some (slot, g) =>
    if page < g.pageCount then
      match readIdle slot s.1.budget.flashPolls (g.pageAddress page) g.pageLength s.2.hw with
      | (.error _, hw) => refuse .toHost (s.1, { s.2 with hw })
      | (.ok bs, hw) => (s.1, ({ s.2 with hw }.write flashEndpoint bs).2)
    else refuse .toHost s

/-- Programs the bytes in the page buffer. -/
def program (slot : Slot) (g : Geometry) (page count : Nat) (s : Station ω) : Station ω :=
  match startPageProgram slot (g.pageAddress page) (s.1.page.take count) s.2.hw with
  | (.ok _, hw) =>
    ({ s.1 with job := .write page, written := some ⟨page, count⟩ }, { s.2 with hw })
  | (.error _, hw) => ({ s.1 with written := none }, { s.2 with hw })

/-- Takes the bytes of one page from the host and programs them. -/
def acceptPage (page count : Nat) (s : Station ω) : Station ω :=
  match s.1.selected, s.1.job.at? with
  | some (slot, g), none =>
    if count = 0 || g.pageLength < count || g.pageCount ≤ page then refuse .toDevice s
    else
      match s.2.fill flashEndpoint (s.1.page.take count) with
      | (outcome, bytes, link) =>
        let s : Station ω := ({ s.1 with page := bytes ++ s.1.page.drop count }, link)
        match outcome with
        | .ok _ => program slot g page count s
        | .error _ => refuse .toDevice s
  | _, _ => refuse .toDevice s

/-- Serves a request that is answered with one frame.  A frame that cannot be sent is lost. -/
def respond (r : Request) (s : Station ω) : Station ω :=
  match s.1.answer r s.2.hw with
  | (some response, programmer, hw) =>
    (programmer, ({ s.2 with hw }.write flashEndpoint response.encode).2)
  | (none, programmer, hw) => (programmer, { s.2 with hw })

def serve (r : Request) (s : Station ω) : Station ω :=
  match r with
  | .read page => servePage page.val s
  | .write page count => acceptPage page.val count.val s
  | r => respond r s

/-- Serves the packet that waits on the flash endpoint, if there is one. -/
def service (s : Station ω) : Station ω :=
  match s.2.rxPending flashEndpoint with
  | (false, link) => (s.1, link)
  | (true, link) =>
    match link.readPacket flashEndpoint maxPacket with
    | (.error _, link) => (s.1, link)
    | (.ok frame, link) =>
      match Request.decode frame with
      | .ok r => serve r (s.1, link)
      | .error _ => refuse .toHost (s.1, link)

/-- Takes the queued work, at most `fuel` items, and serves the flash endpoint for each of its
OUT items. -/
def drain : (fuel : Nat) → Station ω → Station ω
  | 0, s => s
  | fuel + 1, s =>
    match s.2.takeWork with
    | (none, link) => (s.1, link)
    | (some work, link) =>
      if work = ⟨flashEndpoint, .toDevice⟩ then drain fuel (service (s.1, link))
      else drain fuel (s.1, link)

/-- One turn of the main loop: the queued work, and then a packet whose interrupt was merged with
an earlier one. -/
def poll (s : Station ω) : Station ω :=
  if s.2.device.isConfigured then
    let s := drain s.2.device.queue.length s
    match s.2.rxPending flashEndpoint with
    | (true, link) => service (s.1, link)
    | (false, link) => (s.1, link)
  else s

end FlashProgrammer.Programmer

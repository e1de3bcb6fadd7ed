import FlashProgrammer.Bench.FifoController

/-!
# A controller with a script

The plain controller of the bench is always ready.  Here a waiting packet can be
held back: it answers ready for a while, then not ready for a while, and then
ready for good.  An endpoint can be busy sending for a number of questions.
-/

namespace FlashProgrammer.Bench

open Usb

/-- How a waiting packet is held back. -/
structure Hold where
  /-- How often it is announced before it is held back. -/
  lead : Nat := 0
  /-- How often it is then denied. -/
  delay : Nat := 0
deriving DecidableEq, Repr

/-- A controller of FIFOs that are not always ready. -/
structure ScriptedController where
  fifo : FifoController := {}
  /-- How each waiting packet is held back. -/
  holds : PerEndpoint (List Hold) := .replicate []
  /-- How often each endpoint is still busy sending. -/
  busy : PerEndpoint Nat := .replicate 0
  /-- The accesses to each OUT FIFO since a packet was released. -/
  readWidths : PerEndpoint (Record Width) := .replicate {}
  /-- The accesses to each IN FIFO since a packet was committed. -/
  writeWidths : PerEndpoint (Record Width) := .replicate {}
deriving DecidableEq, Repr

namespace ScriptedController

/-- The host sends a packet that is held back. -/
def queue (c : ScriptedController) (ep : Endpoint) (packet : List UInt8) (hold : Hold) :
    ScriptedController :=
  { c with
    fifo := c.fifo.queue ep packet
    holds := c.holds.modify ep (· ++ [hold]) }

def setHolds (c : ScriptedController) (ep : Endpoint) (holds : List Hold) : ScriptedController :=
  { c with holds := c.holds.set ep holds }

def setBusy (c : ScriptedController) (ep : Endpoint) (n : Nat) : ScriptedController :=
  { c with busy := c.busy.set ep n }

/-- Asks whether a packet waits. -/
def rxReady (c : ScriptedController) (ep : Endpoint) : Bool × ScriptedController :=
  match c.holds.get ep with
  | [] => (false, c)
  | hold :: rest =>
    if 0 < hold.lead then
      (true, c.setHolds ep ({ hold with lead := hold.lead - 1 } :: rest))
    else if 0 < hold.delay then
      (false, c.setHolds ep ({ hold with delay := hold.delay - 1 } :: rest))
    else (true, c)

/-- Passes an action on to the FIFOs. -/
def pass (c : ScriptedController) (a : Action) : a.Reply × ScriptedController :=
  let (reply, fifo) := Controller.perform a c.fifo
  (reply, { c with fifo })

instance : Controller ScriptedController where
  perform
    | .rxReady ep, c => c.rxReady ep
    | .rxDone ep dataEnd, c =>
      { c.setHolds ep (c.holds.get ep).tail with
        readWidths := c.readWidths.set ep {} }.pass (.rxDone ep dataEnd)
    | .fifoRead ep width, c =>
      { c with
        readWidths := c.readWidths.modify ep (·.push width) }.pass
          (.fifoRead ep width)
    | .fifoWrite ep width value, c =>
      { c with
        writeWidths := c.writeWidths.modify ep (·.push width) }.pass
          (.fifoWrite ep width value)
    | .txBusy ep, c => (0 < c.busy.get ep, c.setBusy ep (c.busy.get ep - 1))
    | .txReady ep last, c =>
      { c with writeWidths := c.writeWidths.set ep {} }.pass (.txReady ep last)
    | .clearStall ep .toDevice, c =>
      (c.setHolds ep []).pass (.clearStall ep .toDevice)
    | .clearStall ep .toHost, c => c.pass (.clearStall ep .toHost)
    | a, c => c.pass a

end ScriptedController

end FlashProgrammer.Bench

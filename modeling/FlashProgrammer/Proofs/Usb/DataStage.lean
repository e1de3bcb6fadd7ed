import FlashProgrammer.Usb.ControlTransfer

/-!
# One packet of a data stage

`continueIn` sends a packet when the last one has been collected, and `continueOut` drops a
packet that waits.  Which packet is sent, which packet is the last one and where it leaves
the device is settled by the record of endpoint 0 alone.  `continueIn_eq` and
`continueOut_eq` keep that apart from what the controller is told.
-/

namespace FlashProgrammer.Usb

namespace Device

/-- The next packet for the host. -/
def nextPacket (d : Device) : List UInt8 :=
  let record := d.endpoints.get .control .toHost
  record.payload.slice record.count (min (record.total - record.count) maxPacket)

/-- The bytes sent once the next packet is. -/
def nextCount (d : Device) : Nat :=
  (d.endpoints.get .control .toHost).count + d.nextPacket.length

/-- The next packet is the last one. -/
def nextIsLast (d : Device) : Bool :=
  d.nextPacket.length < maxPacket ||
    d.nextCount == d.setup.elim 0 fun s => s.length.toNat

/-- The device once the next packet is sent. -/
def advanced (d : Device) : Device :=
  if d.nextIsLast then
    { d with
      endpoints := d.endpoints.modify .control .toHost EndpointStatus.finish
      stage := .status }
  else
    { d with
      endpoints := d.endpoints.modify .control .toHost fun s => { s with count := d.nextCount } }

/-- The device once `n` more bytes have come from the host. -/
def receiving (n : Nat) (d : Device) : Device :=
  { d with
    endpoints := d.endpoints.modify .control .toDevice fun s =>
      { s with count := min (s.count + n) 65535 } }

/-- With `n` more bytes the host has sent all its data. -/
def receivesLast (n : Nat) (d : Device) : Bool :=
  let record := (d.receiving n).endpoints.get .control .toDevice
  record.total ≤ record.count || n < maxPacket

end Device

namespace Link

variable {ω : Type} [Controller ω]

/-- Commits the next packet of the data stage. -/
def sendNext (p : Link ω) : Link ω where
  device := p.device.advanced
  hw := Usb.tell (.txReady .control p.device.nextIsLast)
    (writeFifo .control p.device.nextPacket p.hw)

/-- Nothing is sent while the last packet waits to be collected. -/
theorem continueIn_eq (p : Link ω) :
    p.continueIn =
      if (p.ask (.txBusy .control)).1 then (p.ask (.txBusy .control)).2
      else (p.ask (.txBusy .control)).2.sendNext := by
  rw [continueIn]
  generalize p.ask (.txBusy .control) = asked
  obtain ⟨_ | _, q⟩ := asked
  · cases hlast : q.device.nextIsLast with
    | true =>
      have hadvanced : q.device.advanced = _ := if_pos hlast
      refine (if_pos hlast).trans ?_
      simp only [Bool.false_eq_true, if_false, sendNext, hadvanced]
      rfl
    | false =>
      have hmore : ¬q.device.nextIsLast = true := by simp [hlast]
      have hadvanced : q.device.advanced = _ := if_neg hmore
      refine (if_neg hmore).trans ?_
      simp only [Bool.false_eq_true, if_false, sendNext, hadvanced]
      rfl
  · rfl

/-- Drops `n` bytes of data from the host and releases their packet. -/
def receiveNext (n : Nat) (p : Link ω) : Link ω where
  device := p.device.receiving n
  hw := Usb.tell (.rxDone .control (p.device.receivesLast n)) (readFifo .control n p.hw).2

/-- The link when a packet that waits has been counted, with the bytes of it that matter. -/
def counted (p : Link ω) : Nat × Link ω :=
  let (available, p) := p.ask (.rxCount .control)
  (min available.toNat maxPacket, p)

theorem continueOut_eq (p : Link ω) :
    p.continueOut =
      if (p.ask (.rxReady .control)).1 then
        let (n, q) := (p.ask (.rxReady .control)).2.counted
        if q.device.receivesLast n then (q.receiveNext n).dataOutComplete else q.receiveNext n
      else (p.ask (.rxReady .control)).2 := by
  rw [continueOut]
  generalize p.ask (.rxReady .control) = asked
  obtain ⟨_ | _, q⟩ := asked
  · rfl
  · rfl

end Link

end FlashProgrammer.Usb

import FlashProgrammer.Proofs.Trace.CommittedPackets
import FlashProgrammer.Proofs.Trace.TracedOperations
import FlashProgrammer.Proofs.Trace.Waiting
import FlashProgrammer.Proofs.Usb.Packets

/-!
# The packets of a write

Bytes are written packet by packet.  Each packet waits until the one before it has been
collected, goes into the FIFO as a whole and is committed.  If a wait runs out of spins the
write ends there, so what was committed is always a number of whole packets from the front.

`Sent` lists the events of packets that went out, and `WriteOutcome` those of a whole write for each
way it can end.
-/

namespace FlashProgrammer.Usb

open Trace

/-! ## Packets that went out -/

/-- The events of packets that went out one after the other. -/
inductive Sent (e : Endpoint) (spins : Nat) : List (List UInt8) → List Event → Prop where
  | nil : Sent e spins [] []
  /-- The last packet was collected in time, and this one was added and committed. -/
  | packet {packet : List UInt8} {packets : List (List UInt8)} {waited told events : List Event}
      (hwaited : Waited (.usb (.txBusy e) true) (.usb (.txBusy e) false) spins true waited)
      (htold : Queries (fifoWrites e packet ++ [.txReady e false]) told)
      (hsent : Sent e spins packets events) :
      Sent e spins (packet :: packets) (waited ++ told ++ events)

namespace Sent

variable {e : Endpoint} {spins : Nat} {packets : List (List UInt8)} {events : List Event}

/-- Asking whether a packet was collected sends nothing. -/
theorem quiet_of_waited {came : Bool} {es : List Event}
    (h : Waited (.usb (.txBusy e) true) (.usb (.txBusy e) false) spins came es) :
    ∀ a ∈ controllerActions es, sendsOn e a = false := by
  intro a ha
  rw [h.controllerActions_eq] at ha
  rw [List.eq_of_mem_replicate ha]
  rfl

/-- Each packet was committed once, in order, and not as the last of a data stage. -/
theorem committed_eq (h : Sent e spins packets events) :
    committed e [] (controllerActions events) = packets.map fun packet => (packet, false) := by
  induction h with
  | nil => rfl
  | packet hwaited htold _ ih =>
    rw [controllerActions_append, controllerActions_append, List.append_assoc,
      committed_of_quiet (quiet_of_waited hwaited), htold.controllerActions_eq, committed_packet,
      ih]
    rfl

/-- No byte was left in the FIFO. -/
theorem uncommitted_eq (h : Sent e spins packets events) :
    uncommitted e [] (controllerActions events) = [] := by
  induction h with
  | nil => rfl
  | packet hwaited htold _ ih =>
    rw [controllerActions_append, controllerActions_append, uncommitted_append,
      htold.controllerActions_eq, ← List.append_assoc, uncommitted_txReady, ih]

end Sent

/-! ## Ways a write ends -/

/-- What a write of some packets to an endpoint does, with its outcome. -/
inductive WriteOutcome (d : Device) (ep : UInt8) (packets : List (List UInt8)) :
    Except Fault Unit → List Event → Prop where
  /-- All packets went out. -/
  | sent {e : Endpoint} {events : List Event} (hready : d.Ready ep .toHost e)
      (hsent : Sent e d.budget.usbSpins packets events) : WriteOutcome d ep packets (.ok ()) events
  /-- Some packets went out, and then the last of them was not collected in time. -/
  | timeout {e : Endpoint} {before after : List (List UInt8)} {events : List Event}
      (hready : d.Ready ep .toHost e) (hpackets : packets = before ++ after) (hafter : after ≠ [])
      (hsent : Sent e d.budget.usbSpins before events) :
      WriteOutcome d ep packets (.error (.usbTimeout ep))
        (events ++ List.replicate (d.budget.usbSpins + 1) (.usb (.txBusy e) true))
  /-- Nothing was tried. -/
  | denied {fault : Fault} (h : d.Denies ep .toHost fault) :
      WriteOutcome d ep packets (.error fault) []

/-- Whatever came of a write, whole packets from the front were committed.  Packets are missing
only after a timeout. -/
theorem WriteOutcome.committed_eq {d : Device} {ep : UInt8} {packets : List (List UInt8)}
    {outcome : Except Fault Unit} {events : List Event}
    (h : WriteOutcome d ep packets outcome events) {e : Endpoint}
    (he : Endpoint.ofByte? ep = some e) :
    ∃ before after, packets = before ++ after ∧
      committed e [] (controllerActions events) = before.map (fun packet => (packet, false)) ∧
      uncommitted e [] (controllerActions events) = [] ∧
      (outcome = .ok () → after = []) ∧
      (outcome = .error (.usbTimeout ep) → after ≠ []) ∧
      (outcome ≠ .ok () → outcome ≠ .error (.usbTimeout ep) → before = []) := by
  have hsame : ∀ {e'}, d.Ready ep .toHost e' → e' = e := by
    intro e' hready
    exact Option.some.inj (hready.named.symm.trans he)
  cases h with
  | sent hready hsent =>
    obtain rfl := hsame hready
    refine ⟨packets, [], (List.append_nil packets).symm, hsent.committed_eq, hsent.uncommitted_eq,
      fun _ => rfl, ?_, ?_⟩
    · intro hok
      cases hok
    · intro hfailed
      exact absurd rfl hfailed
  | @timeout e' before after events hready hpackets hafter hsent =>
    obtain rfl := hsame hready
    have hspent : Waited (.usb (.txBusy e') true) (.usb (.txBusy e') false) d.budget.usbSpins false
        (List.replicate (d.budget.usbSpins + 1) (.usb (.txBusy e') true)) := .spent
    have hquiet := Sent.quiet_of_waited hspent
    refine ⟨before, after, hpackets, ?_, ?_, ?_, fun _ => hafter, ?_⟩
    · have hnone := committed_of_quiet hquiet [] []
      rw [List.append_nil] at hnone
      rw [controllerActions_append, committed_append, hsent.committed_eq, hsent.uncommitted_eq,
        hnone]
      exact List.append_nil _
    · rw [controllerActions_append, uncommitted_append, hsent.uncommitted_eq,
        uncommitted_of_quiet hquiet]
    · intro hok
      cases hok
    · intro _ hfailed
      exact absurd rfl hfailed
  | denied hdenies =>
    refine ⟨[], packets, rfl, rfl, rfl, ?_, ?_, fun _ _ => rfl⟩
    · intro hok
      cases hok
    · intro htimeout
      cases htimeout
      cases hdenies

section Writing

variable {ω : Type} [Controller ω]

/-- Packets go out until one of them waits too long. -/
theorem sendPackets_sent (ep : UInt8) (e : Endpoint) (packets : List (List UInt8))
    (p : Link (Traced ω)) :
    ((Link.sendPackets ep e packets p).1 = .ok () ∧
      ∃ events, Sent e p.device.budget.usbSpins packets events ∧
        Adds events p.hw (Link.sendPackets ep e packets p).2.hw) ∨
    ((Link.sendPackets ep e packets p).1 = .error (.usbTimeout ep) ∧
      ∃ before after events, packets = before ++ after ∧ after ≠ [] ∧
        Sent e p.device.budget.usbSpins before events ∧
        Adds (events ++ List.replicate (p.device.budget.usbSpins + 1) (.usb (.txBusy e) true)) p.hw
          (Link.sendPackets ep e packets p).2.hw) := by
  induction packets generalizing p with
  | nil => exact .inl ⟨rfl, [], .nil, adds_refl p.hw⟩
  | cons packet rest ih =>
    obtain ⟨waited, hwaited, hawait⟩ := waited_awaitCollected e p.device.budget.usbSpins p
    have hdevice := (talks_awaitCollected e p.device.budget.usbSpins p).device_eq
    rw [Link.sendPackets]
    generalize Link.awaitCollected e p.device.budget.usbSpins p = awaited
      at hwaited hawait hdevice ⊢
    obtain ⟨_ | _, q⟩ := awaited
    · cases hwaited
      exact .inr ⟨rfl, [], packet :: rest, [], rfl, List.cons_ne_nil _ _, .nil, hawait⟩
    · obtain ⟨bytes, hbytes, hwrite⟩ := queries_writeFifo e packet q.hw
      have hcommit := adds_perform (.txReady e false) (writeFifo e packet q.hw)
      have htold := hbytes.append (.cons (.txReady e false) () .nil)
      have hpacket := hawait.trans (hwrite.trans hcommit)
      simp only
      generalize hr : Link.tell (.txReady e false) { q with hw := writeFifo e packet q.hw } = r
      have hlater : r.device = p.device := by rw [← hr, ← hdevice]; rfl
      have hhw : (Controller.perform (.txReady e false) (writeFifo e packet q.hw)).2 = r.hw := by
        rw [← hr]
        rfl
      rw [hhw] at hpacket
      have hrest := ih r
      rw [hlater] at hrest
      rcases hrest with ⟨hok, events, hsent, hadds⟩ |
        ⟨hfailed, before, after, events, hpackets, hafter, hsent, hadds⟩
      · exact .inl ⟨hok, _, .packet hwaited htold hsent, hpacket.trans hadds⟩
      · refine .inr ⟨hfailed, packet :: before, after, _, ?_, hafter,
          .packet hwaited htold hsent, ?_⟩
        · rw [hpackets, List.cons_append]
        · rw [List.append_assoc]
          exact hpacket.trans hadds

/-- What a write does to the controller.  One that is denied does nothing at all. -/
theorem write_outcome (ep : UInt8) (data : List UInt8) (p : Link (Traced ω)) :
    ∃ events, WriteOutcome p.device ep (packets data) (p.write ep data).1 events ∧
      Adds events p.hw (p.write ep data).2.hw ∧
      ((p.write ep data).1 ≠ .ok () → (p.write ep data).1 ≠ .error (.usbTimeout ep) →
        (p.write ep data).2 = p) := by
  rw [Link.write]
  cases hbulk : p.bulkEndpoint ep .toHost with
  | error fault =>
    exact ⟨[], .denied (Link.denies_of_bulkEndpoint hbulk), adds_refl p.hw, fun _ _ => rfl⟩
  | ok e =>
    have hready := Link.bulkEndpoint_eq_ok_iff.mp hbulk
    rcases sendPackets_sent ep e (packets data) p with ⟨hok, events, hsent, hadds⟩ |
      ⟨hfailed, before, after, events, hpackets, hafter, hsent, hadds⟩
    · exact ⟨events, hok ▸ .sent hready hsent, hadds, fun h => absurd hok h⟩
    · exact ⟨_, hfailed ▸ .timeout hready hpackets hafter hsent, hadds,
        fun _ h => absurd hfailed h⟩

/-- A write sends the pieces of its bytes, each as one packet and the last one possibly shorter.
Each is committed once its predecessor was seen collected.  If one is not seen collected in all
of the spins and once more, the write ends there with a timeout and leaves nothing in the FIFO. -/
theorem written_packets_exact (ep : UInt8) (data : List UInt8) (p : Link ω) :
    ((packets data).flatten = data ∧
      (∀ packet ∈ packets data, packet ≠ [] ∧ packet.length ≤ maxPacket) ∧
      ∀ i, (packets data)[i]? =
        if i * maxPacket < data.length then some ((data.drop (i * maxPacket)).take maxPacket)
        else none) ∧
    ∃ outcome q, (traced p).write ep data = (outcome, q) ∧
      p.write ep data = (outcome, untraced q) ∧ q.device = p.device ∧
      WriteOutcome p.device ep (packets data) outcome q.hw.events ∧
      (outcome ≠ .ok () → outcome ≠ .error (.usbTimeout ep) → untraced q = p) ∧
      ∀ e, Endpoint.ofByte? ep = some e →
        ∃ before after, packets data = before ++ after ∧
          committed e [] (controllerActions q.hw.events) =
            before.map (fun packet => (packet, false)) ∧
          uncommitted e [] (controllerActions q.hw.events) = [] ∧
          (outcome = .ok () → after = []) ∧
          (outcome = .error (.usbTimeout ep) → after ≠ []) ∧
          (outcome ≠ .ok () → outcome ≠ .error (.usbTimeout ep) → before = []) := by
  have hpackets : ∀ packet ∈ packets data, packet ≠ [] ∧ packet.length ≤ maxPacket :=
    fun _ hpacket => ⟨ne_nil_of_mem_packets hpacket, length_le_of_mem_packets hpacket⟩
  refine ⟨⟨flatten_packets data, hpackets, getElem?_packets data⟩, ?_⟩
  obtain ⟨events, hwritten, hadds, hdenied⟩ := write_outcome ep data (traced p)
  have huntraced := Link.write_untraced ep data (traced p)
  have hdevice := (talks_write ep data (traced p)).device_eq
  generalize (traced p).write ep data = written at hwritten hadds hdenied huntraced hdevice ⊢
  obtain ⟨outcome, q⟩ := written
  obtain rfl : q.hw.events = events := hadds.events_eq
  refine ⟨outcome, q, rfl, huntraced, hdevice, hwritten, ?_, fun e he => hwritten.committed_eq he⟩
  intro hok htimeout
  exact congrArg untraced (hdenied hok htimeout)

end Writing

end FlashProgrammer.Usb

import FlashProgrammer.Proofs.Bench.FifoPackets

/-!
# Bytes put together from packets

A buffer is filled from the packets that wait, one after the other, until it is full.  An empty
packet ends it too early, and so does the end of the queue.

`Gathers` says which packets are taken for some bytes and whether they were enough.  It follows the
loop of the firmware, and what the loop comes to is read off it by induction: the shortest packets
from the front that suffice if there are any, and else all of them up to the first empty one.
-/

namespace FlashProgrammer.Bench

open Usb

/-! ## Enough packets -/

/-- Packets that bring as many bytes as are needed, and none of them is empty. -/
structure Suffices (need : Nat) (packets : List (List UInt8)) : Prop where
  nonempty : [] ∉ packets
  enough : need ≤ packets.flatten.length

theorem suffices_cons {need : Nat} {packet : List UInt8} {packets : List (List UInt8)} :
    Suffices need (packet :: packets) ↔
      packet ≠ [] ∧ Suffices (need - packet.length) packets := by
  constructor
  · intro h
    obtain ⟨hpacket, hrest⟩ := List.ne_and_not_mem_of_not_mem_cons h.nonempty
    have henough := h.enough
    rw [List.flatten_cons, List.length_append] at henough
    exact ⟨hpacket.symm, hrest, by omega⟩
  · rintro ⟨hpacket, hrest⟩
    have henough := hrest.enough
    refine ⟨List.not_mem_cons_of_ne_of_not_mem hpacket.symm hrest.nonempty, ?_⟩
    rw [List.flatten_cons, List.length_append]
    omega

/-- No packets bring no bytes. -/
theorem not_suffices_nil {need : Nat} (h : 0 < need) : ¬Suffices need [] :=
  fun hs => absurd hs.enough (Nat.not_le.mpr h)

/-- The packets that are taken of a queue for some bytes, those that are left, and whether the
bytes came. -/
inductive Gathers : (need : Nat) → (queue taken rest : List (List UInt8)) → (came : Bool) →
    Prop where
  /-- All bytes have come. -/
  | full (queue : List (List UInt8)) : Gathers 0 queue [] queue true
  /-- No packet waits. -/
  | dry {need : Nat} (hneed : 0 < need) : Gathers need [] [] [] false
  /-- An empty packet is taken, and no more. -/
  | empty {need : Nat} (hneed : 0 < need) (rest : List (List UInt8)) :
      Gathers need ([] :: rest) [[]] rest false
  /-- A packet brings bytes. -/
  | more {need : Nat} {packet : List UInt8} {queue taken rest : List (List UInt8)} {came : Bool}
      (hneed : 0 < need) (hpacket : packet ≠ [])
      (h : Gathers (need - packet.length) queue taken rest came) :
      Gathers need (packet :: queue) (packet :: taken) rest came

namespace Gathers

variable {need : Nat} {queue taken rest : List (List UInt8)} {came : Bool}

/-- The packets are taken from the front. -/
theorem queue_eq (h : Gathers need queue taken rest came) : queue = taken ++ rest := by
  induction h with
  | full | dry | empty => rfl
  | more _ _ _ ih => exact congrArg _ ih

/-- What was enough is what was needed. -/
theorem suffices_of_came (h : Gathers need queue taken rest true) : Suffices need taken := by
  generalize hcame : true = came at h
  induction h with
  | full => exact ⟨List.not_mem_nil, Nat.le_refl 0⟩
  | dry | empty => cases hcame
  | more _ hpacket _ ih => exact suffices_cons.mpr ⟨hpacket, ih hcame⟩

/-- Fewer packets would not have been enough. -/
theorem shortest (h : Gathers need queue taken rest came) {front : List (List UInt8)}
    (hfront : front <+: queue) (hs : Suffices need front) : came = true ∧ taken <+: front := by
  induction h generalizing front with
  | full => exact ⟨rfl, List.nil_prefix⟩
  | dry hneed =>
    rw [List.prefix_nil.mp hfront] at hs
    exact absurd hs (not_suffices_nil hneed)
  | empty hneed rest =>
    rcases List.prefix_cons_iff.mp hfront with rfl | ⟨front, rfl, -⟩
    · exact absurd hs (not_suffices_nil hneed)
    · exact absurd rfl (suffices_cons.mp hs).1
  | more hneed _ _ ih =>
    rcases List.prefix_cons_iff.mp hfront with rfl | ⟨front, rfl, hrest⟩
    · exact absurd hs (not_suffices_nil hneed)
    · obtain ⟨hcame, htaken⟩ := ih hrest (suffices_cons.mp hs).2
      exact ⟨hcame, List.cons_prefix_cons.mpr ⟨rfl, htaken⟩⟩

/-- What was not enough ends with an empty packet or with the queue, and brings fewer bytes. -/
theorem of_not_came (h : Gathers need queue taken rest false) :
    taken.flatten.length < need ∧
      (([] ∉ taken ∧ rest = []) ∨ ∃ before, taken = before ++ [[]] ∧ [] ∉ before) := by
  generalize hcame : false = came at h
  induction h with
  | full => cases hcame
  | dry hneed => exact ⟨hneed, .inl ⟨List.not_mem_nil, rfl⟩⟩
  | empty hneed rest => exact ⟨hneed, .inr ⟨[], rfl, List.not_mem_nil⟩⟩
  | @more need packet _ taken rest _ hneed hpacket _ ih =>
    obtain ⟨hshort, hend⟩ := ih hcame
    refine ⟨?_, ?_⟩
    · rw [List.flatten_cons, List.length_append]
      omega
    · rcases hend with ⟨hsome, hrest⟩ | ⟨before, rfl, hbefore⟩
      · exact .inl ⟨List.not_mem_cons_of_ne_of_not_mem hpacket.symm hsome, hrest⟩
      · exact .inr ⟨packet :: before, rfl, List.not_mem_cons_of_ne_of_not_mem hpacket.symm hbefore⟩

end Gathers

/-! ## Filling a buffer -/

variable {ep : UInt8} {e : Endpoint} {p : Link FifoController} {queue : List (List UInt8)}

/-- The outcome of gathering. -/
def gathered (ep : UInt8) (came : Bool) : Except Fault Unit :=
  if came then .ok () else .error (.usbTimeout ep)

/-- What is gathered from the packets that wait. -/
theorem gather_gathers (hready : p.device.Ready ep .toDevice e)
    (hqueue : p.hw.out.get e = ⟨queue.map List.toArray, 0⟩)
    (hfits : ∀ packet ∈ queue, packet.length ≤ maxPacket) {fuel need : Nat} (hfuel : need ≤ fuel) :
    ∃ taken rest came widths, Gathers need queue taken rest came ∧
      p.gather ep fuel need =
        (⟨taken.flatten.take need, gathered ep came⟩,
          { p with hw := p.hw.taken e ⟨rest.map List.toArray, 0⟩ widths }) := by
  have hsame : p = { p with hw := p.hw.taken e ⟨queue.map List.toArray, 0⟩ [] } := by
    rw [← hqueue, FifoController.taken_self]
  induction fuel generalizing p queue need with
  | zero =>
    obtain rfl : need = 0 := Nat.le_zero.mp hfuel
    exact ⟨[], queue, true, [], .full queue, Prod.ext rfl hsame⟩
  | succ fuel ih =>
    rw [Link.gather]
    by_cases hneed : need = 0
    · subst hneed
      rw [if_pos rfl]
      exact ⟨[], queue, true, [], .full queue, Prod.ext rfl hsame⟩
    · have hpos : 0 < need := Nat.pos_of_ne_zero hneed
      rw [if_neg hneed]
      cases queue with
      | nil =>
        rw [readPacket_of_nil hready hqueue]
        refine ⟨[], [], false, [], .dry hpos, ?_⟩
        rw [List.flatten_nil, List.take_nil]
        exact Prod.ext rfl hsame
      | cons packet queue =>
        obtain ⟨widths, hread⟩ :=
          readPacket_of_cons hready hqueue (hfits packet List.mem_cons_self) need
        rw [hread]
        simp only
        by_cases hpacket : packet = []
        · -- An empty packet ends it.
          subst hpacket
          refine ⟨[[]], queue, false, widths, .empty hpos queue, ?_⟩
          rw [List.flatten_singleton, List.take_nil]
          rfl
        · have hsome : (packet.take need).isEmpty = false := by
            rw [List.isEmpty_eq_false_iff, ← List.length_pos_iff, List.length_take]
            have hbytes := List.length_pos_iff.mpr hpacket
            omega
          have hleft : need - (packet.take need).length = need - packet.length := by
            rw [List.length_take]
            omega
          rw [if_neg (by simp [hsome]), hleft]
          have hbytes := List.length_pos_iff.mpr hpacket
          have hfits' : ∀ packet ∈ queue, packet.length ≤ maxPacket :=
            fun packet hin => hfits packet (List.mem_cons_of_mem _ hin)
          have hless : need - packet.length ≤ fuel := by omega
          have hqueue' : (p.hw.taken e ⟨queue.map List.toArray, 0⟩ widths).out.get e =
              ⟨queue.map List.toArray, 0⟩ := FifoController.get_out_taken ..
          obtain ⟨taken, rest, came, widths', hgathers, hrest⟩ :=
            ih (p := { p with hw := p.hw.taken e ⟨queue.map List.toArray, 0⟩ widths }) hready
              hqueue' hfits' hless (by rw [FifoController.taken_taken, List.append_nil])
          refine ⟨packet :: taken, rest, came, widths ++ widths', .more hpos hpacket hgathers, ?_⟩
          rw [hrest, FifoController.taken_taken, List.flatten_cons, List.take_append]

/-- A buffer is filled with the packets that wait.  It becomes full exactly if some packets from the
front bring enough bytes and none of them is empty.  Then the fewest such packets are taken, the
buffer holds the first of their bytes, and the others of the last packet are lost.  Else the packets
up to the first empty one are taken, or all if none is empty, and their bytes stand in front of what
the buffer held.

The packet in front is whole.  By `cursor_runAll` it is so between any two operations. -/
theorem reassembled_exact (hready : p.device.Ready ep .toDevice e)
    (hqueue : p.hw.out.get e = ⟨queue.map List.toArray, 0⟩)
    (hfits : ∀ packet ∈ queue, packet.length ≤ maxPacket) (buffer : List UInt8) :
    ∃ outcome bytes taken rest widths,
      p.fill ep buffer =
        (outcome, bytes, { p with hw := p.hw.taken e ⟨rest.map List.toArray, 0⟩ widths }) ∧
      queue = taken ++ rest ∧
      (outcome = .ok () ∨ outcome = .error (.usbTimeout ep)) ∧
      (outcome = .ok () ↔ ∃ front, front <+: queue ∧ Suffices buffer.length front) ∧
      (outcome = .ok () →
        Suffices buffer.length taken ∧
        (∀ front, front <+: queue → Suffices buffer.length front → taken <+: front) ∧
        bytes = taken.flatten.take buffer.length) ∧
      (outcome = .error (.usbTimeout ep) →
        (([] ∉ taken ∧ rest = []) ∨ ∃ before, taken = before ++ [[]] ∧ [] ∉ before) ∧
        bytes = taken.flatten ++ buffer.drop taken.flatten.length) := by
  obtain ⟨taken, rest, came, widths, hgathers, hgather⟩ :=
    gather_gathers hready hqueue hfits (Nat.le_refl buffer.length)
  have hsplit := hgathers.queue_eq
  have hfill : p.fill ep buffer = (gathered ep came,
      taken.flatten.take buffer.length ++
        buffer.drop (taken.flatten.take buffer.length).length,
      { p with hw := p.hw.taken e ⟨rest.map List.toArray, 0⟩ widths }) := by
    rw [Link.fill, hgather]
  refine ⟨_, _, taken, rest, widths, hfill, hsplit, ?_⟩
  cases came with
  | true =>
    have hs := hgathers.suffices_of_came
    have hfull : (taken.flatten.take buffer.length).length = buffer.length :=
      List.length_take_of_le hs.enough
    refine ⟨.inl rfl, ⟨fun _ => ⟨taken, ⟨rest, hsplit.symm⟩, hs⟩, fun _ => rfl⟩,
      fun _ => ⟨hs, fun front hfront hsf => (hgathers.shortest hfront hsf).2, ?_⟩, ?_⟩
    · rw [hfull, List.drop_length, List.append_nil]
    · intro htimeout
      cases htimeout
  | false =>
    obtain ⟨hshort, hend⟩ := hgathers.of_not_came
    refine ⟨.inr rfl, ⟨?_, ?_⟩, ?_, fun _ => ⟨hend, ?_⟩⟩
    · intro hok
      cases hok
    · rintro ⟨front, hfront, hs⟩
      cases (hgathers.shortest hfront hs).1
    · intro hok
      cases hok
    · rw [List.take_of_length_le (Nat.le_of_lt hshort)]

/-- Three packets that wait on the flash endpoint of a configured device. -/
def threeWaiting : Link FifoController where
  device := { lifecycle := .configured }
  hw := ((({} : FifoController).queue .flash [1, 2, 3]).queue .flash [4, 5, 6]).queue .flash [7]

/-- Four bytes take two packets.  The rest of the second is lost and the third still waits. -/
theorem reassembled_exact_two_packets :
    ∃ q, threeWaiting.fill flashEndpoint [0, 0, 0, 0] = (.ok (), [1, 2, 3, 4], q) ∧
      q.hw.out.get .flash = ⟨[#[7]], 0⟩ := by
  have hready : threeWaiting.device.Ready flashEndpoint .toDevice .flash :=
    ⟨rfl, rfl, rfl, by decide⟩
  have hqueue : threeWaiting.hw.out.get .flash =
      ⟨[[1, 2, 3], [4, 5, 6], [7]].map List.toArray, 0⟩ := by decide
  obtain ⟨outcome, bytes, taken, rest, widths, hfill, hsplit, -, hiff, hok, -⟩ :=
    reassembled_exact hready hqueue (by decide) [0, 0, 0, 0]
  have houtcome : outcome = .ok () :=
    hiff.mpr ⟨[[1, 2, 3], [4, 5, 6]], ⟨[[7]], rfl⟩, ⟨by decide, by decide⟩⟩
  obtain ⟨hs, hfewest, hbytes⟩ := hok houtcome
  -- One packet is too few, and two are enough.
  have htaken : taken = [[1, 2, 3], [4, 5, 6]] := by
    obtain ⟨later, hlater⟩ :=
      hfewest [[1, 2, 3], [4, 5, 6]] ⟨[[7]], rfl⟩ ⟨by decide, by decide⟩
    match taken, hs, hlater with
    | [], hs, _ => exact absurd hs.enough (by decide)
    | [_], hs, hlater =>
      cases hlater
      exact absurd hs.enough (by decide)
    | [_, _], _, hlater =>
      cases hlater
      rfl
    | _ :: _ :: _ :: _, _, hlater => cases hlater
  subst htaken houtcome hbytes
  have hrest : [[1, 2, 3], [4, 5, 6]] ++ [[7]] = [[1, 2, 3], [4, 5, 6]] ++ rest := hsplit
  obtain rfl := List.append_cancel_left hrest
  exact ⟨_, hfill, FifoController.get_out_taken ..⟩

end FlashProgrammer.Bench

import FlashProgrammer.Proofs.Usb.WrittenPackets

/-!
# How often a transfer asks

A read asks whether a packet has come, and a write whether the last packet was collected, once more
than there are spins at the most.  A controller that always says no is given up.

Filling a buffer reads packets with no count of its own.  `Filled` is that loop as it stands,
without fuel, so to be in the relation is to have come to an end.  All packets but the last bring a
byte, so `gather` is this loop.
-/

namespace FlashProgrammer.Usb

open Trace

/-! ## Reading -/

/-- The action asks whether a packet has come. -/
def Action.asksReady : Action → Bool
  | rxReady _ => true
  | _ => false

/-- The action releases a packet. -/
def Action.releases : Action → Bool
  | rxDone .. => true
  | _ => false

namespace Link

variable {ω : Type} [Controller ω]

/-- How a buffer is filled: packet by packet, until all bytes that it needs have come, a packet is
empty or a packet fails.  It says how many packets were taken. -/
inductive Filled (ep : UInt8) :
    (need : Nat) → Link ω → (taken : Nat) → Received → Link ω → Prop where
  | done (p : Link ω) : Filled ep 0 p 0 ⟨[], .ok ()⟩ p
  | failed {need : Nat} {p q : Link ω} {e : Fault} (hneed : need ≠ 0)
      (h : p.readPacket ep need = (.error e, q)) : Filled ep need p 0 ⟨[], .error e⟩ q
  | empty {need : Nat} {p q : Link ω} (hneed : need ≠ 0)
      (h : p.readPacket ep need = (.ok [], q)) :
      Filled ep need p 1 ⟨[], .error (.usbTimeout ep)⟩ q
  | packet {need taken : Nat} {p q r : Link ω} {bs : List UInt8} {rest : Received}
      (hneed : need ≠ 0) (h : p.readPacket ep need = (.ok bs, q)) (hbs : bs ≠ [])
      (hrest : Filled ep (need - bs.length) q taken rest r) :
      Filled ep need p (taken + 1) ⟨bs ++ rest.bytes, rest.outcome⟩ r

/-- A trace changes nothing. -/
theorem Filled.untraced {ep : UInt8} {need taken : Nat} {p q : Link (Traced ω)}
    {received : Received} (h : Filled ep need p taken received q) :
    Filled ep need (Trace.untraced p) taken received (Trace.untraced q) := by
  have hsame : ∀ {need} {p q : Link (Traced ω)} {outcome : Except Fault (List UInt8)},
      p.readPacket ep need = (outcome, q) →
        (Trace.untraced p).readPacket ep need = (outcome, Trace.untraced q) := by
    intro need p q outcome hread
    rw [readPacket_untraced, hread]
  induction h with
  | done p => exact .done (Trace.untraced p)
  | failed hneed hread => exact .failed hneed (hsame hread)
  | empty hneed hread => exact .empty hneed (hsame hread)
  | packet hneed hread hbs _ ih => exact .packet hneed (hsame hread) hbs ih

/-- There is fuel enough, because all packets but the last bring a byte. -/
theorem filled_gather (ep : UInt8) {fuel need : Nat} (hfuel : need ≤ fuel) (p : Link ω) :
    ∃ taken ≤ need, Filled ep need p taken (gather ep fuel need p).1 (gather ep fuel need p).2 := by
  induction fuel generalizing need p with
  | zero =>
    obtain rfl := Nat.le_zero.mp hfuel
    exact ⟨0, Nat.le_refl 0, .done p⟩
  | succ fuel ih =>
    rw [gather]
    by_cases hneed : need = 0
    · subst hneed
      exact ⟨0, Nat.le_refl 0, .done p⟩
    · rw [if_neg hneed]
      have hpos : 1 ≤ need := Nat.one_le_iff_ne_zero.mpr hneed
      cases hread : p.readPacket ep need with
      | mk outcome q =>
        cases outcome with
        | error e => exact ⟨0, Nat.zero_le _, .failed hneed hread⟩
        | ok bs =>
          cases bs with
          | nil => exact ⟨1, hpos, .empty hneed hread⟩
          | cons b bs =>
            have hless : need - (b :: bs).length ≤ fuel := by
              rw [List.length_cons]
              omega
            obtain ⟨taken, hle, hfilled⟩ := ih hless q
            refine ⟨taken + 1, ?_, .packet hneed hread (List.cons_ne_nil b bs) hfilled⟩
            rw [List.length_cons] at hle
            omega

section Asking

/-- Reading a packet asks for it once more than there are spins, at the most. -/
theorem asked_readPacket (ep : UInt8) (room : Nat) (p : Link (Traced ω)) :
    ∃ as, Sees Action.asksReady as p.hw (p.readPacket ep room).2.hw ∧
      as.length ≤ p.device.budget.usbSpins + 1 := by
  rw [readPacket]
  split
  · exact ⟨[], sees_refl p.hw, Nat.zero_le _⟩
  · next e _ =>
    obtain ⟨es, hwaited, hadds⟩ := waited_awaitPacket e p.device.budget.usbSpins p
    have hawait := hadds.drives.sees Action.asksReady
    have hlength : ((controllerActions es).filter Action.asksReady).length ≤
        p.device.budget.usbSpins + 1 := by
      refine Nat.le_trans (List.length_filter_le _ _) ?_
      rw [hwaited.controllerActions_eq, List.length_replicate]
      exact hwaited.length_le
    generalize awaitPacket e p.device.budget.usbSpins p = awaited at hawait ⊢
    obtain ⟨_ | _, q⟩ := awaited
    · exact ⟨_, hawait, hlength⟩
    · have htaken : Sees Action.asksReady [] q.hw (q.takePacket e room).2.hw :=
        sees_takePacket rfl (fun _ => rfl) room q
      have hboth := hawait.trans htaken
      rw [List.append_nil] at hboth
      exact ⟨_, hboth, hlength⟩

/-- A packet that is read is released once, and nothing is released if none is read. -/
theorem released_readPacket (ep : UInt8) (room : Nat) (p : Link (Traced ω)) :
    ∃ as, Sees Action.releases as p.hw (p.readPacket ep room).2.hw ∧
      as.length = (p.readPacket ep room).1.isOk.toNat := by
  rw [readPacket]
  split
  · exact ⟨[], sees_refl p.hw, rfl⟩
  · next e _ =>
    have hawait : Sees Action.releases [] p.hw (awaitPacket e p.device.budget.usbSpins p).2.hw :=
      unseen_awaitPacket rfl p.device.budget.usbSpins p
    generalize awaitPacket e p.device.budget.usbSpins p = awaited at hawait ⊢
    obtain ⟨_ | _, q⟩ := awaited
    · exact ⟨[], hawait, rfl⟩
    · have htaken : Sees Action.releases [.rxDone e false] q.hw (q.takePacket e room).2.hw :=
        sees_takePacket rfl (fun _ => rfl) room q
      exact ⟨_, htaken.after hawait, rfl⟩

/-- As many packets are released as are taken. -/
theorem Filled.released {ep : UInt8} {need taken : Nat} {p q : Link (Traced ω)}
    {received : Received} (h : Filled ep need p taken received q) :
    ∃ as, Sees Action.releases as p.hw q.hw ∧ as.length = taken := by
  induction h with
  | done p => exact ⟨[], sees_refl p.hw, rfl⟩
  | @failed need p q e _ hread | @empty need p q _ hread =>
    obtain ⟨as, hsees, hlength⟩ := released_readPacket ep need p
    rw [hread] at hsees hlength
    exact ⟨as, hsees, hlength⟩
  | @packet need taken p q r bs rest _ hread _ _ ih =>
    obtain ⟨as, hsees, hlength⟩ := released_readPacket ep need p
    obtain ⟨bs, hrest, htaken⟩ := ih
    rw [hread] at hsees hlength
    refine ⟨as ++ bs, hsees.trans hrest, ?_⟩
    rw [List.length_append, hlength, htaken]
    exact Nat.add_comm 1 _

end Asking

end Link

/-! ## Writing -/

/-- The action asks whether the last packet was collected. -/
def Action.asksBusy : Action → Bool
  | txBusy _ => true
  | _ => false

/-- The action commits a packet. -/
def Action.commits : Action → Bool
  | txReady .. => true
  | _ => false

/-- How often it is asked whether the last packet was collected, before each packet that is
committed and after the last of them.  So far it was asked `n` times. -/
def asksPerPacket : (n : Nat) → List Action → List Nat
  | n, [] => [n]
  | n, a :: as =>
    if a.commits then n :: asksPerPacket 0 as
    else asksPerPacket (if a.asksBusy then n + 1 else n) as

/-- Until a packet is committed the questions add up. -/
theorem asksPerPacket_append {as : List Action} (h : ∀ a ∈ as, a.commits = false) (n : Nat)
    (bs : List Action) :
    asksPerPacket n (as ++ bs) = asksPerPacket (n + as.countP Action.asksBusy) bs := by
  induction as generalizing n with
  | nil => rfl
  | cons a as ih =>
    obtain ⟨ha, has⟩ := List.forall_mem_cons.mp h
    rw [List.cons_append, asksPerPacket, ha, List.countP_cons]
    simp only [Bool.false_eq_true, if_false]
    rw [ih has]
    congr 1
    split <;> omega

namespace Sent

variable {e : Endpoint} {spins : Nat}

/-- Waiting for one packet, and nothing after it. -/
theorem asks_of_waited {came : Bool} {es : List Event}
    (h : Waited (.usb (.txBusy e) true) (.usb (.txBusy e) false) spins came es) (as : List Action) :
    asksPerPacket 0 (controllerActions es ++ as) = asksPerPacket es.length as := by
  have hquiet : ∀ a ∈ controllerActions es, a.commits = false := by
    intro a ha
    rw [h.controllerActions_eq] at ha
    rw [List.eq_of_mem_replicate ha]
    rfl
  rw [asksPerPacket_append hquiet, h.controllerActions_eq, List.countP_replicate, Nat.zero_add]
  rfl

/-- Adding a packet asks nothing, and committing it ends the count. -/
theorem asks_of_told (n : Nat) (packet : List UInt8) (as : List Action) :
    asksPerPacket n (fifoWrites e packet ++ [.txReady e false] ++ as) =
      n :: asksPerPacket 0 as := by
  have hquiet : ∀ a ∈ fifoWrites e packet, a.commits = false ∧ a.asksBusy = false := by
    intro a ha
    obtain ⟨_, _, rfl⟩ := eq_of_mem_fifoWrites ha
    exact ⟨rfl, rfl⟩
  have hnone : (fifoWrites e packet).countP Action.asksBusy = 0 := by
    refine List.countP_eq_zero.mpr ?_
    intro a ha
    rw [(hquiet a ha).2]
    exact Bool.false_ne_true
  rw [List.append_assoc, asksPerPacket_append fun a ha => (hquiet a ha).1, hnone]
  rfl

/-- Each packet that goes out is asked for once more than there are spins, at the most. -/
theorem asks_le {packets : List (List UInt8)} {events : List Event}
    (h : Sent e spins packets events) {as : List Action}
    (has : ∀ n ∈ asksPerPacket 0 as, n ≤ spins + 1) :
    ∀ n ∈ asksPerPacket 0 (controllerActions events ++ as), n ≤ spins + 1 := by
  induction h with
  | nil => exact has
  | packet hwaited htold _ ih =>
    rw [controllerActions_append, controllerActions_append, List.append_assoc, List.append_assoc,
      asks_of_waited hwaited, htold.controllerActions_eq, asks_of_told]
    exact List.forall_mem_cons.mpr ⟨hwaited.length_le, ih⟩

end Sent

/-- So is each packet of a write, also the one that is given up. -/
theorem WriteOutcome.asks_le {d : Device} {ep : UInt8} {packets : List (List UInt8)}
    {outcome : Except Fault Unit} {events : List Event}
    (h : WriteOutcome d ep packets outcome events) :
    ∀ n ∈ asksPerPacket 0 (controllerActions events), n ≤ d.budget.usbSpins + 1 := by
  have hnone : ∀ n ∈ asksPerPacket 0 [], n ≤ d.budget.usbSpins + 1 :=
    List.forall_mem_singleton.mpr (Nat.zero_le _)
  cases h with
  | sent _ hsent =>
    have hall := hsent.asks_le hnone
    rwa [List.append_nil] at hall
  | @timeout e _ _ _ _ _ _ hsent =>
    have hspent : Waited (.usb (.txBusy e) true) (.usb (.txBusy e) false) d.budget.usbSpins false
        (List.replicate (d.budget.usbSpins + 1) (.usb (.txBusy e) true)) := .spent
    have hasks := Sent.asks_of_waited hspent []
    rw [List.append_nil, List.length_replicate] at hasks
    rw [controllerActions_append]
    refine hsent.asks_le ?_
    rw [hasks]
    exact List.forall_mem_singleton.mpr (Nat.le_refl _)
  | denied => exact hnone

/-! ## Whole operations -/

section Operations

variable {ω : Type} [Controller ω]

theorem asksReady_readPacket (ep : UInt8) (room : Nat) (p : Link ω) :
    (Operation.asked [.readPacket ep room] p).countP Action.asksReady ≤
      p.device.budget.usbSpins + 1 := by
  obtain ⟨as, hsees, hlength⟩ := Link.asked_readPacket ep room (traced p)
  exact Nat.le_trans (Nat.le_of_eq hsees.countP_eq) hlength

theorem asksBusy_write (ep : UInt8) (data : List UInt8) (p : Link ω) :
    ∀ n ∈ asksPerPacket 0 (Operation.asked [.write ep data] p),
      n ≤ p.device.budget.usbSpins + 1 := by
  obtain ⟨events, hwritten, hadds, _⟩ := write_outcome ep data (traced p)
  obtain rfl : ((traced p).write ep data).2.hw.events = events := hadds.events_eq
  exact hwritten.asks_le

/-- A buffer is filled from at most as many packets as it has bytes, and each is released. -/
theorem filled_fill (ep : UInt8) (buffer : List UInt8) (p : Link ω) :
    ∃ taken ≤ buffer.length, ∃ received q,
      Link.Filled ep buffer.length p taken received q ∧
      p.fill ep buffer =
        (received.outcome, received.bytes ++ buffer.drop received.bytes.length, q) ∧
      (Operation.asked [.fill ep buffer] p).countP Action.releases = taken := by
  obtain ⟨taken, hle, hfilled⟩ := Link.filled_gather ep (Nat.le_refl buffer.length) (traced p)
  obtain ⟨as, hsees, htaken⟩ := hfilled.released
  refine ⟨taken, hle, _, _, hfilled.untraced, ?_, hsees.countP_eq.trans htaken⟩
  exact (traced p).fill_untraced ep buffer

end Operations

end FlashProgrammer.Usb

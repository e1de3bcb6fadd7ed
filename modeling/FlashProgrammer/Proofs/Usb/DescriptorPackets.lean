import FlashProgrammer.Proofs.Trace.CommittedPackets
import FlashProgrammer.Proofs.Usb.AwaitingHandshake
import FlashProgrammer.Proofs.Usb.Packets

/-!
# The packets of a descriptor

A descriptor goes to the host one packet at a time, whenever an interrupt finds that the last
packet was collected.  A short packet ends the data stage, and so does the last byte that the
host asked for.  If neither comes by itself, a packet without bytes is sent.

`answerPackets` is what is to be sent.  `Answering` says what of it is left at a moment: each
packet that is sent is the first of what is left, so what was sent and what is left are always
the whole answer.  `descriptor_packets_exact` follows by counting the interrupts that could
send.
-/

namespace FlashProgrammer.Usb

open Trace

/-! ## The answer -/

/-- The packets that answer a host that asked for some bytes.  A packet without bytes ends an
answer that is shorter and does not end in a short packet. -/
def answerPackets (data : List UInt8) (asked : Nat) : List (List UInt8) :=
  packets data ++ if data.length < asked ∧ maxPacket ∣ data.length then [[]] else []

/-- Packets of which the last one is marked. -/
def marked : List (List UInt8) → List (List UInt8 × Bool)
  | [] => []
  | [packet] => [(packet, true)]
  | packet :: rest => (packet, false) :: marked rest

theorem marked_cons_of_ne_nil {rest : List (List UInt8)} (h : rest ≠ []) (packet : List UInt8) :
    marked (packet :: rest) = (packet, false) :: marked rest := by
  cases rest with
  | nil => exact absurd rfl h
  | cons next rest => rfl

theorem marked_eq_nil {packets : List (List UInt8)} : marked packets = [] ↔ packets = [] := by
  cases packets with
  | nil => exact ⟨fun _ => rfl, fun _ => rfl⟩
  | cons packet rest => cases rest <;> exact ⟨nofun, nofun⟩

theorem marked_concat (front : List (List UInt8)) (final : List UInt8) :
    marked (front ++ [final]) = front.map (fun packet => (packet, false)) ++ [(final, true)] := by
  induction front with
  | nil => rfl
  | cons packet front ih =>
    rw [List.cons_append, marked_cons_of_ne_nil (by simp), ih]
    rfl

section Answers

variable {data : List UInt8} {asked : Nat}

theorem answerPackets_of_short (hshort : data.length < maxPacket) (hasked : 0 < asked) :
    answerPackets data asked = [data] := by
  by_cases hnil : data = []
  · subst hnil
    rw [answerPackets, if_pos ⟨hasked, Nat.dvd_zero _⟩]
    rfl
  · have hno : ¬maxPacket ∣ data.length := fun h =>
      Nat.not_le_of_lt hshort (Nat.le_of_dvd (List.length_pos_iff.mpr hnil) h)
    rw [answerPackets, if_neg fun h => hno h.2, packets_of_fits hnil (Nat.le_of_lt hshort),
      List.append_nil]

/-- A full packet changes nothing about how the answer ends. -/
theorem drop_ends_iff (hlong : maxPacket ≤ data.length) :
    (data.drop maxPacket).length < asked - maxPacket ∧ maxPacket ∣ (data.drop maxPacket).length ↔
      data.length < asked ∧ maxPacket ∣ data.length := by
  rw [List.length_drop]
  simp only [maxPacket] at hlong ⊢
  omega

theorem answerPackets_of_long (hlong : maxPacket ≤ data.length) :
    answerPackets data asked =
      data.take maxPacket :: answerPackets (data.drop maxPacket) (asked - maxPacket) := by
  have hnil : data ≠ [] := by
    rintro rfl
    exact absurd hlong (by decide)
  simp only [answerPackets, packets_cons hnil, List.cons_append, drop_ends_iff hlong]

theorem answerPackets_ne_nil (hasked : 0 < asked) : answerPackets data asked ≠ [] := by
  by_cases hshort : data.length < maxPacket
  · rw [answerPackets_of_short hshort hasked]
    exact List.cons_ne_nil _ _
  · rw [answerPackets_of_long (Nat.le_of_not_lt hshort)]
    exact List.cons_ne_nil _ _

/-- The first packet carries what fits.  It is the last one if it is short or all that was asked
for, and else the others carry the rest. -/
theorem marked_answerPackets (hfits : data.length ≤ asked) (hasked : 0 < asked) :
    marked (answerPackets data asked) =
      let packet := data.take maxPacket
      let last := packet.length < maxPacket || packet.length == asked
      (packet, last) ::
        if last then [] else marked (answerPackets (data.drop maxPacket) (asked - maxPacket)) := by
  by_cases hshort : data.length < maxPacket
  · rw [answerPackets_of_short hshort hasked, List.take_of_length_le (Nat.le_of_lt hshort)]
    simp [marked, hshort]
  · have hlong := Nat.le_of_not_lt hshort
    have hfull : (data.take maxPacket).length = maxPacket := by
      rw [List.length_take, Nat.min_eq_left hlong]
    rw [answerPackets_of_long hlong]
    simp only [hfull, Nat.lt_irrefl, decide_false, Bool.false_or]
    by_cases hall : maxPacket = asked
    · have hrest : data.drop maxPacket = [] := List.drop_eq_nil_of_le (hall ▸ hfits)
      rw [hrest, ← hall, Nat.sub_self]
      simp [answerPackets, marked]
    · have hmore : 0 < asked - maxPacket := by omega
      rw [marked_cons_of_ne_nil (answerPackets_ne_nil hmore)]
      simp [hall]

/-- All packets but the last one are full, and they carry the bytes in order. -/
theorem answerPackets_shape (hfits : data.length ≤ asked) (hasked : 0 < asked) :
    ∃ front final, answerPackets data asked = front ++ [final] ∧
      (front ++ [final]).flatten = data ∧ (∀ packet ∈ front, packet.length = maxPacket) ∧
      final.length ≤ maxPacket ∧
      (final = [] ↔ data.length < asked ∧ maxPacket ∣ data.length) := by
  induction data using packets_induction generalizing asked with
  | nil =>
    exact ⟨[], [], answerPackets_of_short (by decide) hasked, rfl, by simp, by decide,
      by simp [hasked]⟩
  | cons data hdata ih =>
    have hpos : 0 < data.length := List.length_pos_iff.mpr hdata
    by_cases hshort : data.length < maxPacket
    · refine ⟨[], data, answerPackets_of_short hshort hasked, by simp, by simp,
        Nat.le_of_lt hshort, ?_⟩
      refine ⟨fun h => absurd h hdata, fun h => absurd (Nat.le_of_dvd hpos h.2) ?_⟩
      exact Nat.not_le_of_lt hshort
    · have hlong := Nat.le_of_not_lt hshort
      rw [answerPackets_of_long hlong]
      by_cases hall : asked ≤ maxPacket
      · have hone : data.length ≤ maxPacket := Nat.le_trans hfits hall
        have hrest : data.drop maxPacket = [] := List.drop_eq_nil_of_le hone
        refine ⟨[], data.take maxPacket, ?_, ?_, by simp, List.length_take_le _ _, ?_⟩
        · rw [hrest, answerPackets, Nat.sub_eq_zero_of_le hall]
          rfl
        · simp [List.take_of_length_le hone]
        · simp only [List.take_eq_nil_iff, hdata, or_false]
          exact ⟨fun h => absurd h (by decide), fun h => absurd h.1 (by omega)⟩
      · have hless : (data.drop maxPacket).length ≤ asked - maxPacket := by
          rw [List.length_drop]
          omega
        obtain ⟨front, final, heq, hflat, hfull, hroom, hend⟩ := ih hless (by omega)
        refine ⟨data.take maxPacket :: front, final, by rw [heq, List.cons_append], ?_, ?_,
          hroom, hend.trans (drop_ends_iff hlong)⟩
        · rw [List.cons_append, List.flatten_cons, hflat, List.take_append_drop]
        · intro packet hmem
          rcases List.mem_cons.mp hmem with rfl | hlater
          · rw [List.length_take, Nat.min_eq_left hlong]
          · exact hfull packet hlater

end Answers

/-! ## What is left to send -/

/-- The bytes of a payload that a SETUP packet asks for. -/
def Setup.answer (s : Setup) (payload : Payload) : List UInt8 :=
  payload.toList.take s.length.toNat

/-- An answer is under way, with the events since it began and the packets that are left. -/
inductive Answering (s : Setup) (payload : Payload) :
    List TransferEvent → List (List UInt8 × Bool) → Transfer → Prop where
  | sending {t : Transfer} (count : Nat) (stage_eq : t.stage = .dataIn) (setup_eq : t.setup = some s)
    (sending_eq : t.sending = ⟨payload, count, min payload.length s.length.toNat⟩)
    (count_le : count ≤ payload.length) (count_lt : count < s.length.toNat) :
    Answering s payload []
      (marked (answerPackets ((s.answer payload).drop count) (s.length.toNat - count))) t
  | sent {t : Transfer} (stage_eq : t.stage = .status) : Answering s payload [] [] t
  | ended {t : Transfer} (stage_eq : t.stage = .idle) : Answering s payload [.completed] [] t

/-- The stage of a device says whether anything is left, and whether the transfer is over. -/
theorem Answering.stage_iff {s : Setup} {payload : Payload} {past : List TransferEvent}
    {left : List (List UInt8 × Bool)} {t : Transfer} (h : Answering s payload past left t) :
    (t.stage = .dataIn ↔ left ≠ []) ∧ (t.stage = .status ↔ left = [] ∧ past = []) ∧
      (t.stage = .idle ↔ left = [] ∧ past ≠ []) := by
  cases h with
  | sending count hstage _ _ _ hlt =>
    have hleft : answerPackets ((s.answer payload).drop count) (s.length.toNat - count) ≠ [] :=
      answerPackets_ne_nil (Nat.sub_pos_of_lt hlt)
    simp [hstage, marked_eq_nil, hleft]
  | sent hstage => simp [hstage]
  | ended hstage => simp [hstage]

section Sending

variable {s : Setup} {payload : Payload} {count : Nat} {d : Device}

theorem length_answer (s : Setup) (payload : Payload) :
    (s.answer payload).length = min s.length.toNat payload.length := by
  rw [Setup.answer, List.length_take, Payload.length_toList]

/-- The next packet is the first of what is left. -/
theorem nextPacket_eq
    (h : (d.endpoints.get .control .toHost).movement =
      ⟨payload, count, min payload.length s.length.toNat⟩) :
    d.nextPacket = ((s.answer payload).drop count).take maxPacket := by
  have hpayload : (d.endpoints.get .control .toHost).payload = payload :=
    congrArg Movement.payload h
  have hcount : (d.endpoints.get .control .toHost).count = count := congrArg Movement.count h
  have htotal : (d.endpoints.get .control .toHost).total = min payload.length s.length.toNat :=
    congrArg Movement.total h
  simp only [Device.nextPacket, hpayload, hcount, htotal, Payload.slice_eq, Setup.answer,
    List.drop_take, List.take_take]
  rw [List.take_eq_take_iff, List.length_drop, Payload.length_toList]
  omega

/-- The next packet is the last one if it is short or all that was asked for. -/
theorem nextIsLast_eq (hsetup : d.setup = some s)
    (hcount : (d.endpoints.get .control .toHost).count = count) (hle : count ≤ s.length.toNat) :
    d.nextIsLast =
      (d.nextPacket.length < maxPacket || d.nextPacket.length == s.length.toNat - count) := by
  have hall : (d.nextCount == s.length.toNat) =
      (d.nextPacket.length == s.length.toNat - count) := by
    rw [Device.nextCount, hcount]
    by_cases heq : count + d.nextPacket.length = s.length.toNat
    · rw [beq_iff_eq.mpr heq, beq_iff_eq.mpr (by omega)]
    · rw [beq_eq_false_iff_ne.mpr heq, beq_eq_false_iff_ne.mpr (by omega)]
  rw [Device.nextIsLast, hsetup, Option.elim_some, hall]

/-- Sending a packet leaves the others. -/
theorem answering_advanced (hstage : d.stage = .dataIn) (hsetup : d.setup = some s)
    (hsending : (d.endpoints.get .control .toHost).movement =
      ⟨payload, count, min payload.length s.length.toNat⟩)
    (hle : count ≤ payload.length) (hlt : count < s.length.toNat) :
    ∃ left, marked (answerPackets ((s.answer payload).drop count) (s.length.toNat - count)) =
        (d.nextPacket, d.nextIsLast) :: left ∧
      Answering s payload [] left d.advanced.transfer := by
  have hpacket := nextPacket_eq hsending
  have hcount : (d.endpoints.get .control .toHost).count = count :=
    congrArg Movement.count hsending
  have hlength : ((s.answer payload).drop count).length =
      min s.length.toNat payload.length - count := by
    rw [List.length_drop, length_answer]
  have hlast := nextIsLast_eq hsetup hcount (Nat.le_of_lt hlt)
  have hfits : ((s.answer payload).drop count).length ≤ s.length.toNat - count := by
    rw [hlength]
    omega
  rw [marked_answerPackets hfits (by omega)]
  simp only [← hpacket, ← hlast]
  refine ⟨_, rfl, ?_⟩
  rw [Device.advanced]
  cases hfinal : d.nextIsLast with
  | true => exact .sent rfl
  | false =>
    simp only [Bool.false_eq_true, if_false]
    rw [hlast, Bool.or_eq_false_iff, decide_eq_false_iff_not, beq_eq_false_iff_ne] at hfinal
    obtain ⟨hfull, hmore⟩ := hfinal
    have hsize : d.nextPacket.length = maxPacket := by
      rw [hpacket, List.length_take] at hfull ⊢
      omega
    have hroom : maxPacket ≤ ((s.answer payload).drop count).length := by
      rw [hpacket, List.length_take] at hsize
      omega
    rw [hlength] at hroom
    rw [List.drop_drop, Nat.sub_sub]
    refine .sending (count + maxPacket) hstage hsetup ?_ (by omega) (by omega)
    simp only [Device.transfer, PerDirection.get_modify, and_self, if_true, Device.nextCount, hcount,
      hsize]
    rw [← hcount] at hsending ⊢
    exact congrArg (fun m : Movement => { m with count := m.count + maxPacket }) hsending

end Sending

/-! ## Sending it -/

/-- The next packet, and whether it is the last one. -/
def Device.next (d : Device) : List UInt8 × Bool := (d.nextPacket, d.nextIsLast)

section Serving

variable {ω : Type} [Controller ω] {s : Setup} {payload : Payload} {past : List TransferEvent}
  {left : List (List UInt8 × Bool)} {p : Link ω}

theorem Answering.continueIn (h : Answering s payload past left p.device.transfer)
    (hstage : p.device.stage = .dataIn) :
    ∃ left', left = (p.freeToSend?.map Device.next).toList ++ left' ∧
      Answering s payload past left' p.continueIn.device.transfer := by
  have hcontinued := p.continueIn_eq
  rw [Link.freeToSend?]
  cases hbusy : (p.ask (.txBusy .control)).1 with
  | true =>
    rw [hbusy, if_pos rfl] at hcontinued
    rw [hcontinued]
    exact ⟨left, rfl, h⟩
  | false =>
    rw [hbusy, if_neg (by decide)] at hcontinued
    rw [hcontinued]
    cases h with
    | sending count hdata hsetup hsending hle hlt =>
      exact answering_advanced hdata hsetup hsending hle hlt
    | sent hstatus => cases hstage.symm.trans hstatus
    | ended hidle => cases hstage.symm.trans hidle

/-- Serving endpoint 0 takes no SETUP packet if it does nothing to a transfer but complete it. -/
theorem takenSetup?_of_completed (hevents : ∀ e ∈ p.controlEvents, e = .completed) :
    p.takenSetup? = none := by
  refine Option.eq_none_iff_forall_ne_some.mpr fun taken htaken => ?_
  have hbegan : TransferEvent.began taken.1
      (decide (Lifecycle.addressed ≤ taken.2.device.lifecycle)) ∈ p.controlEvents := by
    refine List.mem_append_right _ ?_
    rw [Link.takenEvents, htaken]
    exact List.mem_singleton.mpr rfl
  cases hevents _ hbegan

/-- What was latched about endpoint 0 completes the transfer or changes nothing. -/
theorem Answering.caughtUp (h : Answering s payload past left p.device.transfer)
    (hevents : ∀ e ∈ p.caughtEvents, e = .completed) :
    Answering s payload (past ++ p.caughtEvents) left p.caughtUp.device.transfer := by
  rcases p.caughtUp_cases with ⟨hcut, _⟩ | ⟨hcompleted, hstatus, hcaught⟩ | ⟨hquiet, _, hcaught⟩
  · cases hevents .cut (by simp [hcut])
  · have hidle : p.caughtUp.device.transfer.stage = .idle := by
      rw [hcaught, Link.transfer_completeStatus]
    rw [hcompleted]
    cases h with
    | sending count hdata => cases hstatus.symm.trans hdata
    | sent => exact .ended hidle
    | ended hnone => cases hstatus.symm.trans hnone
  · rw [hquiet, hcaught, List.append_nil]
    exact h

/-- Serving endpoint 0 sends the first packet of what is left, or completes the transfer. -/
theorem Answering.serviceControl (h : Answering s payload past left p.device.transfer)
    (hevents : ∀ e ∈ p.controlEvents, e = .completed) :
    ∃ left', left = (p.sender?.map Device.next).toList ++ left' ∧
      Answering s payload (past ++ p.controlEvents) left' p.serviceControl.device.transfer := by
  have htaken := takenSetup?_of_completed hevents
  have hcaught := h.caughtUp fun e he => hevents e (List.mem_append_left _ he)
  have hcontrol : p.controlEvents = p.caughtEvents := by
    rw [Link.controlEvents, Link.takenEvents, htaken, List.append_nil]
  rw [hcontrol, Link.sender?, Link.sends?, htaken]
  generalize past ++ p.caughtEvents = past' at hcaught ⊢
  rcases p.serviceControl_shapes with ⟨hstage, _, hserved⟩ | ⟨hstage, _, _⟩ |
      ⟨hstage, _, hserved⟩ | ⟨_, s', q, hsome, _⟩
  · rw [if_pos hstage, hserved]
    exact hcaught.continueIn hstage
  · cases hcaught with
    | sending count hdata => cases hstage.symm.trans hdata
    | sent hstatus => cases hstage.symm.trans hstatus
    | ended hidle => cases hstage.symm.trans hidle
  · have hafter : p.serviceControl.device.transfer.stage = .idle := by
      rcases hserved with hserved | hserved
      · rw [hserved]
        exact hstage
      · rw [hserved, Link.transfer_stallControl]
    rw [if_neg (by rw [hstage]; decide)]
    cases hcaught with
    | sending count hdata => cases hstage.symm.trans hdata
    | sent hstatus => cases hstage.symm.trans hstatus
    | ended => exact ⟨[], rfl, .ended hafter⟩
  · rw [htaken] at hsome
    cases hsome

end Serving

/-! ## Operations -/

namespace Link

variable {ω : Type} [Controller ω]

/-- The device that sends a packet on endpoint 0 at an interrupt, if one is sent. -/
def interruptSender? (p : Link ω) : Option Device := p.atControl?.bind sender?

theorem transfer_dozed (p : Link ω) : p.dozed.device.transfer = p.device.transfer := by
  rw [dozed]
  split
  · exact p.transfer_roused
  · exact p.transfer_roused

/-- Of what an interrupt tells, the packet is what it commits. -/
theorem committed_interruptActions (p : Link ω) (as : List Action) :
    committed .control [] (p.interruptActions ++ as) =
      (p.interruptSender?.map Device.next).toList ++ committed .control [] as := by
  have hpacket : ∀ (sender : Option Device) (bs : List Action),
      committed .control [] (sender.elim [] Device.packetActions ++ bs) =
        (sender.map Device.next).toList ++ committed .control [] bs := by
    intro sender bs
    cases sender with
    | none => rfl
    | some d => exact committed_packet .control d.nextPacket d.nextIsLast bs
  have hhandshake : ∀ d : Device, ∀ a ∈ d.handshakeActions, sendsOn .control a = false := by
    intro d a ha
    rcases List.mem_append.mp ha with haddress | harm
    · obtain ⟨address, _, rfl⟩ := Option.map_eq_some_iff.mp (Option.mem_toList.mp haddress)
      rfl
    · obtain ⟨e, _, rfl⟩ := List.mem_map.mp harm
      rfl
  rw [interruptActions, interruptSender?]
  rcases p.onInterrupt_cases with ⟨hreset, hcontrol, _⟩ | ⟨hreset, hcontrol, _⟩ |
      ⟨hreset, hcontrol, _⟩ | ⟨q, _, hreset, hcontrol, _⟩
  · rw [hreset, hcontrol]
    rfl
  · rw [hreset, hcontrol]
    have hquiet : ∀ a ∈ resetActions, sendsOn .control a = false := by decide
    exact committed_of_quiet hquiet [] as
  · rw [hreset, hcontrol]
    rfl
  · rw [hreset, hcontrol]
    simp only [Bool.false_eq_true, if_false, Option.elim_some, Option.bind_some, controlActions,
      List.append_assoc]
    split
    · rw [committed_of_quiet (hhandshake q.device)]
      exact hpacket q.sender? as
    · exact hpacket q.sender? as

end Link

namespace Operation

variable {ω : Type} [Controller ω]

/-- The device that sends a packet on endpoint 0, if one is sent. -/
def sender? (op : Operation ω) (p : Link ω) : Option Device :=
  match op with
  | interrupt => p.interruptSender?
  | _ => none

/-- The packet that an operation sends on endpoint 0, if it sends one. -/
def sends (op : Operation ω) (p : Link ω) : List (List UInt8 × Bool) :=
  ((op.sender? p).map Device.next).toList

/-- The packets that some operations send on endpoint 0. -/
def sent : List (Operation ω) → Link ω → List (List UInt8 × Bool)
  | [], _ => []
  | op :: ops, p => op.sends p ++ sent ops (op.run p)

/-- How often a data stage to the host may go on, because the last packet was collected. -/
def chances : List (Operation ω) → Link ω → Nat
  | [], _ => 0
  | op :: ops, p => (if (op.sender? p).isSome then 1 else 0) + chances ops (op.run p)

theorem length_sent (ops : List (Operation ω)) (p : Link ω) :
    (sent ops p).length = chances ops p := by
  induction ops generalizing p with
  | nil => rfl
  | cons op ops ih =>
    rw [sent, chances, List.length_append, ih, sends]
    cases op.sender? p <;> rfl

/-- What is sent is what the controller was asked to commit. -/
theorem committed_asked (ops : List (Operation ω)) (p : Link ω) :
    committed .control [] (asked ops p) = sent ops p := by
  have hnotable : ∀ a, sendsOn .control a = true → a.notable = true := by
    intro a ha
    cases a <;> first | exact ha | cases ha
  rw [← committed_filter hnotable, notable_asked]
  induction ops generalizing p with
  | nil => rfl
  | cons op ops ih =>
    rw [told, sent, ← ih]
    cases op with
    | interrupt => exact p.committed_interruptActions _
    | _ => rfl

/-- Only an interrupt advances a transfer, and only a reset clears it otherwise. -/
theorem transfer_run {op : Operation ω} (hspares : op.SparesControl) (p : Link ω) :
    op = .interrupt ∨ op.events p = [.reset] ∨
      (op.events p = [] ∧ op.sends p = [] ∧ (op.run p).device.transfer = p.device.transfer) := by
  cases op with
  | interrupt => exact .inl rfl
  | detach => exact .inr (.inl rfl)
  | attach | takeWork | outside => exact .inr (.inr ⟨rfl, rfl, rfl⟩)
  | rxPending | readPacket | fill | write =>
    have htalks : ∀ q : Link ω, Talks p q → q.device.transfer = p.device.transfer :=
      fun q hq => congrArg Device.transfer hq.device_eq
    exact .inr (.inr ⟨rfl, rfl, htalks _ (talks_run (by trivial) p)⟩)
  | stallEndpoint ep dir =>
    refine .inr (.inr ⟨rfl, rfl, ?_⟩)
    have hrun : (stallEndpoint ep dir).run p = p.stallEndpoint ep dir := rfl
    rw [hrun, Link.stallEndpoint]
    split
    · rfl
    · next e he =>
      have hbulk : e ≠ .control :=
        fun hcontrol => hspares (Endpoint.ofByte?_eq_control (hcontrol ▸ he))
      exact Link.transfer_halt hbulk dir p

end Operation

section Running

variable {ω : Type} [Controller ω] {s : Setup} {payload : Payload} {past : List TransferEvent}
  {left : List (List UInt8 × Bool)} {p : Link ω}

/-- An operation sends the first packet of what is left, or none. -/
theorem Answering.run (h : Answering s payload past left p.device.transfer)
    {op : Operation ω} (hspares : op.SparesControl) (hevents : ∀ e ∈ op.events p, e = .completed) :
    ∃ left', left = op.sends p ++ left' ∧
      Answering s payload (past ++ op.events p) left' (op.run p).device.transfer := by
  rcases op.transfer_run hspares p with rfl | hreset | ⟨hquiet, hsends, hsame⟩
  · have hsends : Operation.interrupt.sends p = (p.interruptSender?.map Device.next).toList := rfl
    simp only [Operation.events] at hevents
    rw [hsends, Link.interruptSender?, Operation.events, Operation.run]
    rcases p.onInterrupt_cases with ⟨_, _, hreset, _⟩ | ⟨_, _, hreset, _⟩ |
        ⟨_, hcontrol, hquiet, q, works, hq, hserved⟩ |
        ⟨q, works, _, hcontrol, _, hq, hserves, hserved⟩
    · cases hevents .reset (by simp [hreset])
    · cases hevents .reset (by simp [hreset])
    · have hsame : q.device.transfer = p.device.transfer := by
        rcases hq with rfl | rfl
        · exact p.transfer_roused
        · exact p.transfer_dozed
      rw [hcontrol, hquiet, hserved, Link.transfer_note, hsame, List.append_nil]
      exact ⟨left, rfl, h⟩
    · have hsame : q.device.transfer = p.device.transfer := by
        rw [hq]
        exact p.transfer_dozed
      rw [hserves] at hevents ⊢
      rw [hcontrol, hserved, Link.transfer_note]
      rw [← hsame] at h
      exact h.serviceControl hevents
  · cases hevents .reset (by simp [hreset])
  · rw [hsends, hquiet, hsame, List.append_nil]
    exact ⟨left, rfl, h⟩

/-- What is sent and what is left are always the whole answer. -/
theorem Answering.runAll (h : Answering s payload past left p.device.transfer)
    {ops : List (Operation ω)} (hspares : ∀ op ∈ ops, op.SparesControl)
    (hevents : ∀ e ∈ Operation.history ops p, e = .completed) :
    ∃ left', left = Operation.sent ops p ++ left' ∧
      Answering s payload (past ++ Operation.history ops p) left'
        (Operation.runAll ops p).device.transfer := by
  induction ops generalizing past left p with
  | nil =>
    rw [Operation.history, List.append_nil]
    exact ⟨left, rfl, h⟩
  | cons op ops ih =>
    obtain ⟨left', hleft, hnext⟩ := h.run (hspares op List.mem_cons_self)
      fun e he => hevents e (List.mem_append_left _ he)
    obtain ⟨left'', hleft', hlast⟩ := ih hnext
      (fun op' hop' => hspares op' (List.mem_cons_of_mem op hop'))
      fun e he => hevents e (List.mem_append_right _ he)
    refine ⟨left'', ?_, ?_⟩
    · rw [hleft, hleft', Operation.sent, List.append_assoc]
    · rw [Operation.history, ← List.append_assoc]
      exact hlast

/-- When a data stage begins the whole answer is left. -/
theorem answering_dataInStage (hsetup : p.device.setup = some s) (hsize : payload.length < 65536)
    (hasked : 0 < s.length) :
    Answering s payload [] (marked (answerPackets (s.answer payload) s.length.toNat))
      (p.dataInStage s payload).device.transfer := by
  rw [Link.transfer_dataInStage, Nat.mod_eq_of_lt hsize]
  exact .sending 0 rfl hsetup rfl (Nat.zero_le _) hasked

/-- A SETUP packet is taken when endpoint 0 is served, with nothing in flight. -/
theorem takenSetup?_of_setup? {q : Link ω} (hsetup : p.setup? = some (s, q)) :
    ∃ r, p.atControl? = some r ∧ r.takenSetup? = some (s, q) ∧ r.caughtUp.device.stage = .idle := by
  obtain ⟨r, hcontrol, htaken⟩ : ∃ r, p.atControl? = some r ∧ r.takenSetup? = some (s, q) := by
    rw [Link.setup?] at hsetup
    rw [Link.atControl?]
    split at hsetup
    · cases hsetup
    · next reached hreached =>
      split at hsetup
      · next hpending =>
        refine ⟨_, ?_, hsetup⟩
        rw [hreached, Option.bind_some]
        exact if_pos hpending
      · cases hsetup
  refine ⟨r, hcontrol, htaken, ?_⟩
  rw [Link.takenSetup?] at htaken
  cases hstage : r.caughtUp.device.stage with
  | idle => rfl
  | dataIn | dataOut | status => simp [hstage] at htaken

/-- A request for a descriptor that the device has is answered with it. -/
theorem answers?_of_found (hkind : s.kind = .standard)
    (hrequest : StandardRequest.ofByte? s.request = some .getDescriptor)
    (hfound : p.device.descriptors.find? s.valueHigh s.valueLow = some payload)
    (hasked : 0 < s.length) :
    p.answers? s = some (({ p with device.setup := some s } : Link ω).dataInStage s payload) := by
  have hanswered : ({ p with device.setup := some s } : Link ω).standardRequest s =
      (.data payload, { p with device.setup := some s }) := by
    simp only [Link.standardRequest, hrequest, hfound]
  rw [Link.answers?, hkind, hanswered]
  exact if_neg (UInt16.pos_iff_ne_zero.mp hasked)

/-- The SETUP packet of a descriptor is answered at once, unless the last packet on endpoint 0 still
waits to be collected. -/
theorem answering_onInterrupt {q : Link ω} (hsetup : p.setup? = some (s, q))
    (hkind : s.kind = .standard)
    (hrequest : StandardRequest.ofByte? s.request = some .getDescriptor)
    (hfound : q.device.descriptors.find? s.valueHigh s.valueLow = some payload)
    (hsize : payload.length < 65536) (hasked : 0 < s.length) :
    ∃ left, marked (answerPackets (s.answer payload) s.length.toNat) =
        Operation.interrupt.sends p ++ left ∧
      Answering s payload [] left p.onInterrupt.device.transfer := by
  obtain ⟨status, hserved⟩ := Link.onInterrupt_of_setup hsetup
  obtain ⟨r, hcontrol, htaken, hidle⟩ := takenSetup?_of_setup? hsetup
  have hanswers := answers?_of_found hkind hrequest hfound hasked
  have hsends : Operation.interrupt.sends p =
      ((({ q with device.setup := some s } : Link ω).dataInStage s payload).freeToSend?.map
        Device.next).toList := by
    rw [Operation.sends, Operation.sender?, Link.interruptSender?, hcontrol, Option.bind_some,
      Link.sender?, Link.sends?, if_neg (by rw [hidle]; decide), htaken, Option.bind_some]
    simp only [hanswers, Option.bind_some]
  rw [hsends, hserved, Link.transfer_note, Link.handleSetup_of_answers hanswers]
  exact (answering_dataInStage rfl hsize hasked).continueIn rfl

end Running

/-- The packets of a descriptor.

An interrupt at `p`, on any hardware, takes a SETUP packet that asks for a descriptor of less than
65536 bytes.  Then come some operations that do nothing to a transfer but complete it, and none of
them but the host's requests halts endpoint 0.

The packets that are committed on endpoint 0 are the first of `answerPackets`, as many as there
were chances to send one.  The data stage lasts while any is left.  After it the device waits for
the closing handshake, and after that it is idle. -/
theorem descriptor_packets_exact {ω : Type} [Controller ω] {p q : Link ω} {s : Setup}
    {payload : Payload} {later : List (Operation ω)} (hsetup : p.setup? = some (s, q))
    (hkind : s.kind = .standard)
    (hrequest : StandardRequest.ofByte? s.request = some .getDescriptor)
    (hfound : q.device.descriptors.find? s.valueHigh s.valueLow = some payload)
    (hsize : payload.length < 65536) (hasked : 0 < s.length)
    (hspares : ∀ op ∈ later, op.SparesControl)
    (hundisturbed : ∀ e ∈ Operation.history later p.onInterrupt, e = .completed) :
    let total := min payload.length s.length.toNat
    let all := marked (answerPackets (s.answer payload) s.length.toNat)
    let sent := committed .control [] (Operation.asked (.interrupt :: later) p)
    let past := Operation.history later p.onInterrupt
    let stage := (Operation.runAll later p.onInterrupt).device.stage
    sent = all.take (Operation.chances (.interrupt :: later) p) ∧
    Operation.chances (.interrupt :: later) p ≤ all.length ∧
    (stage = .dataIn ↔ sent ≠ all) ∧
    (stage = .status ↔ sent = all ∧ past = []) ∧
    (stage = .idle ↔ sent = all ∧ past ≠ []) ∧
    ∃ front final,
      all = front.map (fun packet => (packet, false)) ++ [(final, true)] ∧
      (front ++ [final]).flatten = payload.toList.take total ∧
      (∀ packet ∈ front, packet.length = 64) ∧ final.length ≤ 64 ∧
      (final = [] ↔ total < s.length.toNat ∧ 64 ∣ total) := by
  intro total all sent past stage
  obtain ⟨first, hfirst, hstarted⟩ :=
    answering_onInterrupt hsetup hkind hrequest hfound hsize hasked
  obtain ⟨left, hleft, hlast⟩ := hstarted.runAll hspares hundisturbed
  have hsent : sent = Operation.sent (.interrupt :: later) p := Operation.committed_asked _ p
  have hall : all = sent ++ left := by
    rw [hsent, Operation.sent, List.append_assoc]
    exact hfirst.trans (congrArg _ hleft)
  have hchances : sent.length = Operation.chances (.interrupt :: later) p := by
    rw [hsent, Operation.length_sent]
  have hdone : sent = all ↔ left = [] := by rw [hall, List.self_eq_append_right]
  obtain ⟨hdata, hstatus, hidle⟩ := hlast.stage_iff
  have htotal : (s.answer payload).length = total := by rw [length_answer, Nat.min_comm]
  have hfits : (s.answer payload).length ≤ s.length.toNat := htotal ▸ Nat.min_le_right _ _
  obtain ⟨front, final, heq, hflat, hfull, hroom, hend⟩ := answerPackets_shape hfits hasked
  refine ⟨?_, ?_, hdata.trans (not_congr hdone).symm, ?_, ?_, front, final, ?_, ?_, hfull, hroom,
    htotal ▸ hend⟩
  · rw [← hchances, hall, List.take_left]
  · rw [← hchances, hall, List.length_append]
    exact Nat.le_add_right _ _
  · rw [hdone]
    exact hstatus
  · rw [hdone]
    exact hidle
  · rw [← marked_concat, ← heq]
  · rw [hflat, Setup.answer, List.take_eq_take_iff, Payload.length_toList]
    omega

/-! ## On the bench -/

section Bench

open Bench

/-- The host asks for the text, and the next interrupt takes its SETUP packet. -/
def beforeText : List (Operation FifoController) :=
  addressing ++
    [.outside (Driven.deliver .control textSetup.toBytes), .outside (Driven.raise { rx := 1 })]

/-- A text of a hundred bytes takes two packets, and the host collects both and sees the transfer
through. -/
theorem descriptor_packets_exact_text :
    let p := Operation.runAll beforeText ⟨wordy, {}⟩
    let later := hostCollects ++ hostCollects
    ∃ q, p.setup? = some (textSetup, q) ∧
      (∀ op ∈ later, op.SparesControl) ∧
      (∀ e ∈ Operation.history later p.onInterrupt, e = .completed) ∧
      ∃ payload, q.device.descriptors.find? textSetup.valueHigh textSetup.valueLow = some payload ∧
        payload.length = 100 ∧
        committed .control [] (Operation.asked (.interrupt :: later) p) =
          (marked (answerPackets (textSetup.answer payload) textSetup.length.toNat)).take 2 := by
  intro p later
  have hspares : ∀ op ∈ later, op.SparesControl := by decide
  have hundisturbed : ∀ e ∈ Operation.history later p.onInterrupt, e = .completed := by
    decide +kernel
  have hsome : (p.setup?.map fun taken => (taken.1, taken.2.device.descriptors.find?
      textSetup.valueHigh textSetup.valueLow)) =
      some (textSetup, some (.bytes (List.replicate 100 0x41))) := by
    decide +kernel
  obtain ⟨⟨s, q⟩, hsetup, hboth⟩ := Option.map_eq_some_iff.mp hsome
  obtain ⟨rfl, hfound⟩ := Prod.mk.inj hboth
  have hchances : Operation.chances (.interrupt :: later) p = 2 := by decide +kernel
  obtain ⟨hsent, _⟩ := descriptor_packets_exact hsetup (by decide) (by decide) hfound (by decide)
    (by decide) hspares hundisturbed
  rw [hchances] at hsent
  exact ⟨q, hsetup, hspares, hundisturbed, _, hfound, rfl, hsent⟩

end Bench

end FlashProgrammer.Usb

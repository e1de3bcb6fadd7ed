import FlashProgrammer.Proofs.Usb.AwaitingHandshake

/-!
# The address of a device

A device answers to address 0 after a bus reset, and takes another address when the transfer
that names it completes.  The address is kept from the SETUP packet to the handshake, and
what cuts the transfer off in between takes it away again.

`Named` ties the address that waits to the transfer that named it, and `Answers` ties the
lifecycle to the address that was issued last.  `issued_address_exact` puts them together.
-/

namespace FlashProgrammer.Usb

/-- The address that an action issues. -/
def Action.address? : Action → Option UInt8
  | setAddress a => some a
  | _ => none

/-! ## The address that waits -/

/-- An address waits only for the handshake of the transfer that named it, which began last. -/
structure Named (past : List TransferEvent) (a : Awaiting) : Prop where
  quiet : a.stage ≠ .status → a.address = none
  named : a.stage ≠ .idle → ∃ before s addressed,
    past = before ++ [.began s addressed] ∧ a.address = s.address?

section Naming

variable {past : List TransferEvent} {a b : Awaiting}

/-- With nothing in flight no address waits. -/
theorem Named.of_idle (hidle : a.stage = .idle) (hnone : a.address = none) : Named past a :=
  ⟨fun _ => hnone, fun h => absurd hidle h⟩

/-- A transfer that goes on named no address. -/
theorem Named.advances (h : Named past a) (hstatus : a.stage ≠ .status) (hab : a.Advances b)
    (hidle : a.stage = .idle → b.stage = .idle) : Named past b := by
  have hnone := h.quiet hstatus
  rcases hab with rfl | rfl | rfl
  · exact h
  · refine ⟨fun hno => absurd rfl hno, fun _ => h.named fun hstage => ?_⟩
    cases hidle hstage
  · exact .of_idle rfl rfl

variable {ω : Type} [Controller ω] {p : Link ω}

theorem Named.caughtUp (h : Named past p.device.awaiting) :
    Named (past ++ p.caughtEvents) p.caughtUp.device.awaiting := by
  rcases p.caughtUp_cases with ⟨_, hcaught⟩ | ⟨_, _, hcaught⟩ | ⟨hevents, _, hcaught⟩
  · rw [hcaught, Link.awaiting_abortControl]
    exact .of_idle rfl rfl
  · obtain ⟨hidle, hnone⟩ := (p.ask .controlEvents).2.awaiting_completeStatus
    rw [hcaught]
    exact .of_idle hidle hnone
  · rw [hevents, hcaught, List.append_nil]
    exact h

theorem Named.serviceControl (h : Named past p.device.awaiting) :
    Named (past ++ p.controlEvents) p.serviceControl.device.awaiting := by
  have hcaught := h.caughtUp
  have hstatus := p.stage_caughtUp
  rw [Link.controlEvents, ← List.append_assoc]
  rcases p.serviceControl_advances with ⟨htaken, hadvances, hidle⟩ |
      ⟨hidle, s, q, hq, htaken, hserved⟩
  · rw [htaken, List.append_nil]
    exact hcaught.advances hstatus hadvances hidle
  · have hnone : q.device.pendingAddress = none := by
      rw [hq]
      exact hcaught.quiet hstatus
    obtain ⟨stage, address, hhandled, hkept, hnamed⟩ := q.awaiting_handleSetup s
    have haddress : address = s.address? := by
      rcases hkept with hleft | ⟨hrefused, rfl⟩
      · rw [hleft]
        exact (congrArg s.address?.or hnone).trans Option.or_none
      · cases hset : s.address? with
        | none => rfl
        | some _ => exact absurd (hrefused.symm.trans (hnamed (by simp [hset]))) (by decide)
    rw [htaken, hserved, hhandled, haddress]
    refine ⟨fun hno => ?_, fun _ => ⟨_, s, _, rfl, rfl⟩⟩
    cases hset : s.address? with
    | none => rfl
    | some _ => exact absurd (hnamed (by simp [hset])) hno

/-- Whatever happens to a device, an address waits only for the transfer that named it. -/
theorem Operation.named_run (op : Operation ω) (h : Named past p.device.awaiting) :
    Named (past ++ op.events p) (op.run p).device.awaiting := by
  cases op.effect p with
  | cleared _ _ hawaiting =>
    rw [hawaiting]
    exact .of_idle rfl rfl
  | kept _ _ hevents _ hawaiting =>
    rw [hevents, hawaiting, List.append_nil]
    exact h
  | served q _ _ hq _ hevents _ hawaiting =>
    rw [hevents, hawaiting]
    rw [← hq] at h
    exact h.serviceControl

theorem Operation.named_history (ops : List (Operation ω)) (h : Named past p.device.awaiting) :
    Named (past ++ history ops p) (runAll ops p).device.awaiting := by
  induction ops generalizing past p with
  | nil =>
    rw [history, List.append_nil]
    exact h
  | cons op ops ih =>
    rw [history, ← List.append_assoc]
    exact ih (op.named_run h)

end Naming

/-! ## The addresses that are issued -/

/-- The addresses that some actions issue, in order. -/
def issued (as : List Action) : List UInt8 := as.filterMap Action.address?

theorem issued_append (as bs : List Action) : issued (as ++ bs) = issued as ++ issued bs :=
  List.filterMap_append

theorem mem_issued {as : List Action} {a : UInt8} : a ∈ issued as ↔ .setAddress a ∈ as := by
  rw [issued, List.mem_filterMap]
  constructor
  · rintro ⟨action, hmem, haction⟩
    cases action with
    | setAddress b =>
      cases haction
      exact hmem
    | _ => cases haction
  · exact fun hmem => ⟨_, hmem, rfl⟩

/-- An address is notable. -/
theorem issued_notable (as : List Action) : issued (as.filter Action.notable) = issued as := by
  rw [issued, List.filterMap_filter]
  refine congrArg (fun f => as.filterMap f) ?_
  funext a
  cases a with
  | fifoWrite | txReady => exact ite_self _
  | _ => rfl

theorem issued_resetActions : issued resetActions = [0] := rfl

/-- The closing handshake issues the address that waited. -/
theorem issued_handshakeActions (d : Device) :
    issued d.handshakeActions = d.pendingAddress.toList := by
  have harms : ∀ es : List (Endpoint × Direction),
      issued (es.map fun e => .configure e.1 e.2 maxPacket true) = [] := by
    intro es
    rw [issued, List.filterMap_map]
    exact List.filterMap_eq_nil_iff.mpr fun _ _ => rfl
  rw [Device.handshakeActions, issued_append, harms, List.append_nil]
  cases d.pendingAddress <;> rfl

/-- A packet issues none. -/
theorem issued_packetActions (d : Device) : issued d.packetActions = [] := by
  refine List.filterMap_eq_nil_iff.mpr fun a ha => ?_
  rcases List.mem_append.mp ha with hbyte | hlast
  · obtain ⟨_, _, rfl⟩ := Trace.eq_of_mem_fifoWrites hbyte
    rfl
  · rw [List.mem_singleton.mp hlast]
    rfl

section Issuing

variable {ω : Type} [Controller ω]

theorem Link.head_controlEvents (p : Link ω) :
    p.controlEvents.head? = some .completed ↔ p.caughtEvents = [.completed] := by
  rw [controlEvents]
  rcases p.caughtUp_cases with ⟨hevents, _⟩ | ⟨hevents, _⟩ | ⟨hevents, _⟩
  · simp [hevents]
  · simp [hevents]
  · rw [hevents, takenEvents]
    split <;> simp

theorem Link.issued_controlActions (p : Link ω) :
    issued p.controlActions =
      if p.controlEvents.head? = some .completed then p.device.pendingAddress.toList else [] := by
  have hpacket : issued (p.sender?.elim [] Device.packetActions) = [] := by
    cases p.sender? with
    | none => rfl
    | some d => exact issued_packetActions d
  simp only [controlActions, issued_append, hpacket, List.append_nil, head_controlEvents]
  split
  · exact issued_handshakeActions p.device
  · rfl

/-- A bus reset issues address 0, and a transfer that completes the address that waited. -/
theorem Operation.issued_tells (op : Operation ω) (p : Link ω) :
    issued (op.tells p) =
      if op.servesReset p then [0]
      else if (op.events p).head? = some .completed then p.device.pendingAddress.toList
      else [] := by
  cases op.effect p with
  | cleared hevents htells =>
    rw [htells, hevents]
    split <;> rfl
  | kept _ hreset hevents htells =>
    rw [htells, hevents, hreset]
    rfl
  | served q hreset _ hq _ hevents htells =>
    have hpending : q.device.pendingAddress = p.device.pendingAddress :=
      congrArg Awaiting.address hq
    rw [htells, hevents, hreset, q.issued_controlActions, hpending]
    rfl

end Issuing

/-! ## The address that is answered to -/

/-- A device that was reset answers to the address that was issued last, and is addressed exactly
if that is not 0. -/
def Answers (as : List UInt8) (lifecycle : Lifecycle) : Prop :=
  Lifecycle.waiting ≤ lifecycle → ∃ a, as.getLast? = some a ∧ (lifecycle = .waiting ↔ a = 0)

/-- The closing handshake leaves a device at the address that it takes or has. -/
theorem Answers.settled {as : List UInt8} {d : Device} (h : Answers as d.lifecycle)
    (hreset : Lifecycle.waiting ≤ d.lifecycle) :
    Answers (as ++ d.pendingAddress.toList) d.settled := by
  intro _
  have hsettled : ∀ lifecycle, d.readdressed = lifecycle → Lifecycle.waiting ≤ lifecycle →
      (d.settled = .waiting ↔ lifecycle = .waiting) := by
    rintro lifecycle rfl hle
    rw [Device.settled]
    generalize d.readdressed = lifecycle at hle ⊢
    cases lifecycle with
    | detached | attached | powered => exact absurd hle (by decide)
    | waiting => simp [show ¬Lifecycle.addressed ≤ Lifecycle.waiting by decide]
    | addressed =>
      rw [if_pos (by decide)]
      split <;> simp
    | configured =>
      rw [if_pos (by decide)]
      split <;> simp
  cases hpending : d.pendingAddress with
  | none =>
    obtain ⟨a, hlast, ha⟩ := h hreset
    have hsame : d.readdressed = d.lifecycle := by rw [Device.readdressed, hpending]
    refine ⟨a, by simpa using hlast, (hsettled _ hsame hreset).trans ha⟩
  | some a =>
    refine ⟨a, by simp, ?_⟩
    by_cases hzero : a = 0
    · have hback : d.readdressed = .waiting := by
        rw [Device.readdressed, hpending]
        exact if_pos hzero
      simp [hsettled _ hback (by decide), hzero]
    · have hgiven : d.readdressed = .addressed := by
        rw [Device.readdressed, hpending]
        exact if_neg hzero
      simp [hsettled _ hgiven (by decide), hzero]

section Answering

variable {ω : Type} [Controller ω] {as : List UInt8} {p : Link ω}

theorem Answers.serviceControl (h : Answers as p.device.lifecycle)
    (hreset : Lifecycle.waiting ≤ p.device.lifecycle) :
    Answers (as ++ issued p.controlActions) p.serviceControl.device.lifecycle := by
  have hafter : p.serviceControl.device.lifecycle = p.caughtUp.device.lifecycle := by
    rcases p.progress_serviceControl with ⟨_, _, stage, hserved⟩ | ⟨_, s, stage, _, hserved, _⟩
    · exact congrArg Progress.lifecycle hserved
    · exact congrArg Progress.lifecycle hserved
  simp only [hafter, p.issued_controlActions, p.head_controlEvents]
  rcases p.progress_caughtUp with
    ⟨hevents, hcaught⟩ | ⟨hevents, _, hcaught⟩ | ⟨hevents, _, hcaught⟩
  · have hsame : p.caughtUp.device.lifecycle = p.device.lifecycle :=
      congrArg Progress.lifecycle hcaught
    simpa [hevents, hsame] using h
  · have hsettled : p.caughtUp.device.lifecycle = p.device.settled :=
      congrArg Progress.lifecycle hcaught
    rw [hevents, hsettled, if_pos rfl]
    exact h.settled hreset
  · have hsame : p.caughtUp.device.lifecycle = p.device.lifecycle :=
      congrArg Progress.lifecycle hcaught
    simpa [hevents, hsame] using h

/-- Whatever happens to a device, it answers to the address that was issued last. -/
theorem Operation.answers_run (op : Operation ω) (h : Answers as p.device.lifecycle) :
    Answers (as ++ issued (op.tells p)) (op.run p).device.lifecycle := by
  cases op.effect p with
  | cleared _ htells _ hprogress =>
    have hafter : (op.run p).device.lifecycle =
        if op.servesReset p then .waiting else .detached :=
      congrArg Progress.lifecycle hprogress
    rw [htells, hafter]
    cases op.servesReset p with
    | true => exact fun _ => ⟨0, by simp [issued_resetActions], by simp⟩
    | false => exact fun hdetached => absurd hdetached (by decide)
  | kept lifecycle _ _ htells _ hlifecycle hprogress =>
    have hafter : (op.run p).device.lifecycle = lifecycle := congrArg Progress.lifecycle hprogress
    have hnone : as ++ issued ([] : List Action) = as := List.append_nil as
    rw [htells, hafter, hnone]
    rcases hlifecycle with rfl | hbelow
    · exact h
    · exact fun hle => absurd hle (Nat.not_le_of_lt hbelow)
  | served q _ hwaiting _ hq _ htells _ hprogress =>
    have hafter : (op.run p).device.lifecycle = q.serviceControl.device.lifecycle :=
      congrArg Progress.lifecycle hprogress
    have hsame : q.device.lifecycle = p.device.lifecycle := congrArg Progress.lifecycle hq
    rw [htells, hafter]
    rw [← hsame] at h hwaiting
    exact h.serviceControl (Nat.le_of_not_lt hwaiting)

theorem Operation.answers_told (ops : List (Operation ω)) (h : Answers as p.device.lifecycle) :
    Answers (as ++ issued (told ops p)) (runAll ops p).device.lifecycle := by
  induction ops generalizing as p with
  | nil =>
    rw [told, show issued ([] : List Action) = [] from rfl, List.append_nil]
    exact h
  | cons op ops ih =>
    rw [told, issued_append, ← List.append_assoc]
    exact ih (op.answers_run h)

/-- A completed transfer was in its closing handshake. -/
theorem Operation.status_of_completed (op : Operation ω)
    (h : (op.events p).head? = some .completed) : p.device.stage = .status := by
  cases op.effect p with
  | cleared hevents | kept _ _ hevents =>
    rw [hevents] at h
    cases h
  | served q _ _ hq _ hevents =>
    rw [hevents, q.head_controlEvents] at h
    have hstage : q.device.stage = p.device.stage := congrArg Awaiting.stage hq
    rcases q.caughtUp_cases with ⟨hcut, _⟩ | ⟨_, hstatus, _⟩ | ⟨hquiet, _⟩
    · rw [hcut] at h
      cases h
    · exact hstage.symm.trans hstatus
    · rw [hquiet] at h
      cases h

end Answering

/-- The addresses of a device.

From power-on some operations led to `p`, on any hardware, with the history `past`.  The next one
issues an address exactly if it serves a bus reset, which issues 0, or completes the transfer that
began last, and that is an accepted SET_ADDRESS for the address.  A device that was reset waits for
an address exactly if the one that was issued last is 0, and has an address exactly if it is not. -/
theorem issued_address_exact {ω : Type} [Controller ω] (descriptors : Descriptors)
    (budget : WaitBudget) (w : ω) (ops : List (Operation ω)) (op : Operation ω) :
    let off : Link ω := ⟨{ descriptors, budget }, w⟩
    let p := Operation.runAll ops off
    let past := Operation.history ops off
    (∀ a, .setAddress a ∈ Operation.asked [op] p ↔
      (op.servesReset p = true ∧ a = 0) ∨
      ∃ before s addressed rest, past = before ++ [.began s addressed] ∧
        op.events p = .completed :: rest ∧ s.address? = some a) ∧
    (Lifecycle.waiting ≤ p.device.lifecycle →
      ∃ a, (issued (Operation.asked ops off)).getLast? = some a ∧
        (p.device.lifecycle = .waiting ↔ a = 0) ∧
        (p.device.lifecycle = .addressed ∨ p.device.lifecycle = .configured ↔ a ≠ 0)) := by
  intro off p past
  have hnamed : Named ([] ++ past) p.device.awaiting :=
    Operation.named_history ops (.of_idle rfl rfl)
  have hanswers : Answers ([] ++ issued (Operation.told ops off)) p.device.lifecycle :=
    Operation.answers_told ops fun h =>
      absurd (show Lifecycle.waiting ≤ .detached from h) (by decide)
  rw [List.nil_append] at hnamed hanswers
  refine ⟨fun a => ?_, fun hreset => ?_⟩
  · have htold : Operation.told [op] p = op.tells p := List.append_nil _
    rw [← mem_issued, ← issued_notable, Operation.notable_asked, htold, op.issued_tells p]
    cases hreset : op.servesReset p with
    | true =>
      obtain ⟨hevents, _⟩ := Operation.cleared_of_servesReset hreset
      simp [hevents]
    | false =>
      simp only [Bool.false_eq_true, if_false, false_and, false_or]
      by_cases hcompleted : (op.events p).head? = some .completed
      · have hstage := op.status_of_completed hcompleted
        obtain ⟨before, s, addressed, hpast, hpending⟩ := hnamed.named fun hidle =>
          nomatch hstage.symm.trans hidle
        obtain ⟨rest, hevents⟩ := List.head?_eq_some_iff.mp hcompleted
        rw [if_pos hcompleted, Option.mem_toList,
          show p.device.pendingAddress = s.address? from hpending]
        constructor
        · exact fun haddress => ⟨before, s, addressed, rest, hpast, hevents, haddress⟩
        · rintro ⟨before', s', addressed', _, hpast', _, haddress⟩
          rw [hpast] at hpast'
          cases List.singleton_inj.mp (List.append_inj' hpast' rfl).2
          exact haddress
      · rw [if_neg hcompleted]
        constructor
        · exact fun hnil => absurd hnil List.not_mem_nil
        · rintro ⟨_, _, _, rest, _, hevents, _⟩
          rw [hevents] at hcompleted
          exact absurd rfl hcompleted
  · obtain ⟨a, hlast, hzero⟩ := hanswers hreset
    rw [← issued_notable, Operation.notable_asked]
    refine ⟨a, hlast, hzero, ?_⟩
    rw [ne_eq, ← hzero]
    generalize p.device.lifecycle = lifecycle at hreset ⊢
    cases lifecycle with
    | detached | attached | powered => exact absurd hreset (by decide)
    | waiting | addressed | configured => simp

end FlashProgrammer.Usb

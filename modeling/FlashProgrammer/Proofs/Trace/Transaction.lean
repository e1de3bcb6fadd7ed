import FlashProgrammer.Proofs.Trace.Calls

/-!
# Transactions

A chip listens from the moment its slot is selected until another one is selected
or all are released.  So the events on the SPI bus fall into transactions:
`transactions` cuts a trace into them, and a `Transaction` keeps the slot, the bytes
that went out and came in, and the fault if a byte failed.

`Issues ts w w'` says that the firmware issued the transactions `ts` on the way from
`w` to `w'` and left none open.  What it asked of the USB controller in between does
not count.
-/

namespace FlashProgrammer.Trace

/-- What was said to one chip while it was selected. -/
structure Transaction where
  slot : Slot
  /-- The bytes that went out, the first one first. -/
  sent : List UInt8
  /-- The bytes that came in. -/
  received : List UInt8
  /-- Why a byte failed, if one did. -/
  fault : Option Fault
deriving DecidableEq, Repr

namespace Transaction

/-- No byte yet. -/
def opened (slot : Slot) : Transaction := ⟨slot, [], [], none⟩

/-- More bytes went out and came in, and then maybe one failed. -/
def extend (t : Transaction) (sent received : List UInt8) (fault : Option Fault) : Transaction :=
  { t with sent := t.sent ++ sent, received := t.received ++ received, fault := t.fault.or fault }

@[simp] theorem extend_nil (t : Transaction) : t.extend [] [] none = t := by
  simp [extend]

end Transaction

/-! ## Cutting a trace -/

/-- The transactions of a trace, the first of which may already be open.  A byte that is moved
while no slot is selected belongs to none. -/
def transactionsAfter : (current : Option Transaction) → List Event → List Transaction
  | current, [] => current.toList
  | current, .spi (.select slot) _ :: es =>
    current.toList ++ transactionsAfter (some (.opened slot)) es
  | current, .spi .deselect _ :: es => current.toList ++ transactionsAfter none es
  | current, .spi (.exchange out) (.ok b) :: es =>
    transactionsAfter (current.map fun t => t.extend [out] [b] none) es
  | current, .spi (.exchange _) (.error e) :: es =>
    transactionsAfter (current.map fun t => t.extend [] [] (some e)) es
  | current, .usb .. :: es => transactionsAfter current es
  | current, .line .. :: es => transactionsAfter current es

/-- The transactions of a trace. -/
def transactions (es : List Event) : List Transaction := transactionsAfter none es

theorem transactionsAfter_moves (t : Transaction) (moves : List Spi.Move) (rest : List Event) :
    transactionsAfter (some t) (moves.map moveEvent ++ rest) =
      transactionsAfter
        (some (t.extend (Spi.movedOut moves) (Spi.movedIn moves) (Spi.moveFault moves))) rest := by
  induction moves generalizing t with
  | nil => exact congrArg (fun t => transactionsAfter (some t) rest) t.extend_nil.symm
  | cons m moves ih =>
    obtain ⟨out, e | b⟩ := m
    · refine (ih (t.extend [] [] (some e))).trans ?_
      simp [Transaction.extend, Spi.movedOut, Spi.movedIn, Spi.moveFault, Except.toOption]
    · refine (ih (t.extend [out] [b] none)).trans ?_
      simp [Transaction.extend, Spi.movedOut, Spi.movedIn, Spi.moveFault, Except.toOption]

variable {ω : Type}

/-! ## Issuing transactions -/

/-- Between two moments, transactions were issued and none was left open. -/
def Issues (ts : List Transaction) (w w' : Traced ω) : Prop :=
  ∃ es, w'.events = w.events ++ es ∧ ∀ rest, transactions (es ++ rest) = ts ++ transactions rest

theorem issues_refl (w : Traced ω) : Issues [] w w :=
  ⟨[], by simp, fun _ => rfl⟩

theorem Issues.trans {ts us : List Transaction} {u v w : Traced ω} (huv : Issues ts u v)
    (hvw : Issues us v w) : Issues (ts ++ us) u w := by
  obtain ⟨es, hes, hts⟩ := huv
  obtain ⟨fs, hfs, hus⟩ := hvw
  refine ⟨es ++ fs, by rw [hfs, hes, List.append_assoc], fun rest => ?_⟩
  rw [List.append_assoc, hts, hus, List.append_assoc]

/-- What came in between without a transaction does not count. -/
theorem Issues.quiet {ts : List Transaction} {u v w : Traced ω} (huv : Issues ts u v)
    (hvw : Issues [] v w) : Issues ts u w := by
  simpa using huv.trans hvw

/-- The transactions of a trace that began when nothing was remembered. -/
theorem Issues.transactions_eq {ts : List Transaction} {w : ω} {w' : Traced ω}
    (h : Issues ts (.fresh w) w') : transactions w'.events = ts := by
  obtain ⟨es, hes, hts⟩ := h
  have hnil := hts []
  rw [List.append_nil] at hnil
  rw [hes]
  show transactions es = ts
  rw [hnil]
  exact List.append_nil ts

/-! ## Moving bytes -/

/-- While a chip is selected, bytes went out and came in, and then maybe one failed. -/
def Moves (out into : List UInt8) (fault : Option Fault) (w w' : Traced ω) : Prop :=
  ∃ es, w'.events = w.events ++ es ∧ ∀ t rest,
    transactionsAfter (some t) (es ++ rest) = transactionsAfter (some (t.extend out into fault)) rest

/-- Of the bytes that are to move, a transaction shows those that moved. -/
theorem moves_of_adds {moves : List Spi.Move} {w w' : Traced ω}
    (h : Adds (moves.map moveEvent) w w') :
    Moves (Spi.movedOut moves) (Spi.movedIn moves) (Spi.moveFault moves) w w' :=
  ⟨_, h, fun t rest => transactionsAfter_moves t moves rest⟩

/-- Selecting a chip, moving bytes and releasing it is one transaction. -/
theorem issues_of_moves [Spi.Bus ω] {slot : Slot} {out into : List UInt8} {fault : Option Fault}
    {w w' : Traced ω} (h : Moves out into fault (Spi.select slot w) w') :
    Issues [⟨slot, out, into, fault⟩] w (Spi.deselect w') := by
  obtain ⟨es, hes, hmoves⟩ := h
  refine ⟨.spi (.select slot) () :: es ++ [.spi .deselect ()], ?_, fun rest => ?_⟩
  · show w'.events ++ [_] = _
    rw [hes]
    show (w.events ++ [.spi (.select slot) ()]) ++ es ++ [_] = _
    simp
  · show transactionsAfter (some (.opened slot)) (es ++ [.spi .deselect ()] ++ rest) = _
    rw [List.append_assoc, hmoves]
    rfl

/-! ## What does not count -/

theorem issues_pulseReset [ResetLine ω] (w : Traced ω) : Issues [] w (pulseReset w) := by
  refine ⟨[.line .low (ResetLine.drive .low w.hw).1,
    .line .high (ResetLine.drive .high (ResetLine.drive .low w.hw).2).1], ?_, fun _ => rfl⟩
  show (w.events ++ [_]) ++ [_] = _
  rw [List.append_assoc]
  rfl

/-- Using the controller is no transaction. -/
theorem issues_of_used [Usb.Controller ω] {w w' : Traced ω} (h : Usb.Used w w') :
    Issues [] w w' := by
  induction h with
  | refl => exact issues_refl w
  | @step v _ a ih => exact ih.quiet ⟨[.usb a (Usb.Controller.perform a v.hw).1], rfl, fun _ => rfl⟩

end FlashProgrammer.Trace

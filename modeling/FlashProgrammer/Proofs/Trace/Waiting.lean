import FlashProgrammer.Proofs.Trace.Sightings

/-!
# Waiting for an answer

A wait asks the controller one question again and again until the answer is the awaited
one, as often as the wait budget allows.  A trace shows how often that was: `Waited no
yes spins came es` says that `es` are the questions of one wait.

What the answers are is up to the controller.
-/

namespace FlashProgrammer.Trace

open Usb

variable {ω : Type}

/-! ## What is asked -/

theorem adds_ask [Controller ω] (a : Usb.Action) (p : Link (Traced ω)) :
    Adds [.usb a (p.ask a).1] p.hw (p.ask a).2.hw := adds_perform a p.hw

theorem controllerActions_append (es fs : List Event) :
    controllerActions (es ++ fs) = controllerActions es ++ controllerActions fs :=
  List.filterMap_append

theorem Adds.drives {es : List Event} {w w' : Traced ω} (h : Adds es w w') :
    Drives (controllerActions es) w w' := by
  rw [Drives, h, controllerActions_append]

/-- The controller was asked for actions in this order, whatever it answered. -/
inductive Queries : List Usb.Action → List Event → Prop where
  | nil : Queries [] []
  | cons (a : Usb.Action) (reply : a.Reply) {as : List Usb.Action} {es : List Event}
      (h : Queries as es) : Queries (a :: as) (.usb a reply :: es)

theorem Queries.append {as bs : List Usb.Action} {es fs : List Event} (has : Queries as es)
    (hbs : Queries bs fs) : Queries (as ++ bs) (es ++ fs) := by
  induction has with
  | nil => exact hbs
  | cons a reply _ ih => exact .cons a reply ih

theorem Queries.controllerActions_eq {as : List Usb.Action} {es : List Event} (h : Queries as es) :
    controllerActions es = as := by
  induction h with
  | nil => rfl
  | cons a reply _ ih => exact congrArg (a :: ·) ih

/-- The bytes of a packet are added access by access. -/
theorem queries_writeFifo [Controller ω] (ep : Endpoint) (data : List UInt8) (w : Traced ω) :
    ∃ es, Queries (fifoWrites ep data) es ∧ Adds es w (writeFifo ep data w) := by
  have hput : ∀ width bs (w : Traced ω),
      ∃ es, Queries [.fifoWrite ep width (valueOfBytes width bs)] es ∧
        Adds es w (put ep width bs w) :=
    fun width bs w => ⟨_, .cons _ _ .nil, adds_perform (.fifoWrite ep width _) w⟩
  fun_induction writeFifo ep data w with
  | case1 w => exact ⟨[], .nil, adds_refl w⟩
  | case2 | case3 => exact hput _ _ _
  | case4 a b c w =>
    obtain ⟨es, hes, hhalf⟩ := hput .half [a, b] w
    obtain ⟨fs, hfs, hbyte⟩ := hput .byte [c] (put ep .half [a, b] w)
    exact ⟨es ++ fs, hes.append hfs, hhalf.trans hbyte⟩
  | case5 a b c d rest w ih =>
    obtain ⟨es, hes, hword⟩ := hput .word [a, b, c, d] w
    obtain ⟨fs, hfs, hrest⟩ := ih
    exact ⟨es ++ fs, hes.append hfs, hword.trans hrest⟩

/-! ## Waits -/

/-- The questions of one wait: how they are answered while there is nothing yet, how once there
is, how often the answer may be put off, and whether it came. -/
inductive Waited (no yes : Event) (spins : Nat) : (came : Bool) → List Event → Prop where
  /-- The awaited answer came after some others. -/
  | came {n : Nat} (hn : n ≤ spins) : Waited no yes spins true (.replicate n no ++ [yes])
  /-- It never came. -/
  | spent : Waited no yes spins false (.replicate (spins + 1) no)

section Waits

variable {no yes : Event} {spins : Nat} {came : Bool} {es : List Event}

/-- With one more spin, one more answer may be put off. -/
theorem Waited.later (h : Waited no yes spins came es) :
    Waited no yes (spins + 1) came (no :: es) := by
  cases h with
  | @came n hn => exact .came (n := n + 1) (by omega)
  | spent => exact .spent

/-- The question is asked once more than there are spins, at the most. -/
theorem Waited.length_le (h : Waited no yes spins came es) : es.length ≤ spins + 1 := by
  cases h with
  | came hn =>
    rw [List.length_append, List.length_replicate]
    exact Nat.succ_le_succ hn
  | spent => exact Nat.le_of_eq List.length_replicate

theorem Waited.mem (h : Waited no yes spins came es) {e : Event} (he : e ∈ es) :
    e = no ∨ e = yes := by
  cases h with
  | came hn =>
    rcases List.mem_append.mp he with hno | hyes
    · exact .inl (List.eq_of_mem_replicate hno)
    · exact .inr (List.mem_singleton.mp hyes)
  | spent => exact .inl (List.eq_of_mem_replicate he)

/-- What is asked in a wait is asked again and again. -/
theorem Waited.controllerActions_eq {a : Usb.Action} {reply reply' : a.Reply}
    (h : Waited (.usb a reply) (.usb a reply') spins came es) :
    controllerActions es = List.replicate es.length a := by
  refine List.eq_replicate_iff.mpr ⟨?_, ?_⟩
  · refine List.filterMap_length_eq_length.mpr ?_
    intro e he
    rcases h.mem he with rfl | rfl <;> rfl
  · intro b hb
    obtain ⟨e, he, hasked⟩ := List.mem_filterMap.mp hb
    rcases h.mem he with rfl | rfl <;> exact (Option.some.inj hasked).symm

end Waits

variable [Controller ω]

/-- Waiting for a packet. -/
theorem waited_awaitPacket (e : Endpoint) (spins : Nat) (p : Link (Traced ω)) :
    ∃ es, Waited (.usb (.rxReady e) false) (.usb (.rxReady e) true) spins
        (Link.awaitPacket e spins p).1 es ∧
      Adds es p.hw (Link.awaitPacket e spins p).2.hw := by
  induction spins generalizing p with
  | zero =>
    have hadds := adds_ask (.rxReady e) p
    rw [Link.awaitPacket]
    generalize p.ask (.rxReady e) = asked at hadds ⊢
    obtain ⟨_ | _, q⟩ := asked
    · exact ⟨_, .spent, hadds⟩
    · exact ⟨_, .came (Nat.le_refl 0), hadds⟩
  | succ spins ih =>
    have hadds := adds_ask (.rxReady e) p
    rw [Link.awaitPacket]
    generalize p.ask (.rxReady e) = asked at hadds ⊢
    obtain ⟨_ | _, q⟩ := asked
    · obtain ⟨es, hwaited, hrest⟩ := ih q
      exact ⟨_, hwaited.later, hadds.trans hrest⟩
    · exact ⟨_, .came (Nat.zero_le _), hadds⟩

/-- Waiting until the last packet has been collected. -/
theorem waited_awaitCollected (e : Endpoint) (spins : Nat) (p : Link (Traced ω)) :
    ∃ es, Waited (.usb (.txBusy e) true) (.usb (.txBusy e) false) spins
        (Link.awaitCollected e spins p).1 es ∧
      Adds es p.hw (Link.awaitCollected e spins p).2.hw := by
  induction spins generalizing p with
  | zero =>
    have hadds := adds_ask (.txBusy e) p
    rw [Link.awaitCollected]
    generalize p.ask (.txBusy e) = asked at hadds ⊢
    obtain ⟨_ | _, q⟩ := asked
    · exact ⟨_, .came (Nat.le_refl 0), hadds⟩
    · exact ⟨_, .spent, hadds⟩
  | succ spins ih =>
    have hadds := adds_ask (.txBusy e) p
    rw [Link.awaitCollected]
    generalize p.ask (.txBusy e) = asked at hadds ⊢
    obtain ⟨_ | _, q⟩ := asked
    · exact ⟨_, .came (Nat.zero_le _), hadds⟩
    · obtain ⟨es, hwaited, hrest⟩ := ih q
      exact ⟨_, hwaited.later, hadds.trans hrest⟩

end FlashProgrammer.Trace

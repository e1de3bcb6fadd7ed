import FlashProgrammer.Flash.Access

/-!
# Bytes that are to move

An instruction is clocked out byte by byte, then its reply is clocked in, and the first byte that
fails ends it.  A `Move` is one such byte with what came of it, and `Tried` says which moves there
can be when some bytes were to go out.

Hardware may show this in many ways: by a trace, by the level of its lines, or by what a chip has
heard.  Each of them is a relation between the hardware before some moves and after them.
`Tracks.clock` takes the walk through an instruction once, for any such relation that holds of a
single byte and of bytes one after the other.
-/

namespace FlashProgrammer.Spi

/-- A byte that was to go out, with the byte that came in for it or the fault. -/
abbrev Move := UInt8 × Except Fault UInt8

/-- A byte went out and another one came in for it. -/
def Move.done (m : UInt8 × UInt8) : Move := (m.1, .ok m.2)

/-! ## What moved -/

section Moves

variable (moves moves' : List Move)

/-- The bytes that went out. -/
def movedOut : List UInt8 := moves.filterMap fun m => m.2.toOption.map fun _ => m.1

/-- The bytes that came in for them. -/
def movedIn : List UInt8 := moves.filterMap fun m => m.2.toOption

/-- Why a byte failed, if one did. -/
def moveFault : Option Fault :=
  moves.findSome? fun m => match m.2 with
    | .ok _ => none
    | .error e => some e

theorem movedOut_append : movedOut (moves ++ moves') = movedOut moves ++ movedOut moves' :=
  List.filterMap_append

theorem movedIn_append : movedIn (moves ++ moves') = movedIn moves ++ movedIn moves' :=
  List.filterMap_append

end Moves

@[simp] theorem movedOut_done (pairs : List (UInt8 × UInt8)) :
    movedOut (pairs.map Move.done) = pairs.map Prod.fst := by
  simp [movedOut, List.filterMap_map, Function.comp_def, Move.done, Except.toOption]

@[simp] theorem movedIn_done (pairs : List (UInt8 × UInt8)) :
    movedIn (pairs.map Move.done) = pairs.map Prod.snd := by
  simp [movedIn, List.filterMap_map, Function.comp_def, Move.done, Except.toOption]

@[simp] theorem moveFault_done (pairs : List (UInt8 × UInt8)) :
    moveFault (pairs.map Move.done) = none := by
  simp [moveFault, List.findSome?_map, Function.comp_def, Move.done]

/-! ## What came of bytes -/

/-- What came of bytes that were to go out: as many bytes, or the fault that stopped them. -/
inductive Tried (outs : List UInt8) : Except Fault (List UInt8) → List Move → Prop where
  /-- All of them moved. -/
  | moved (pairs : List (UInt8 × UInt8)) (h : pairs.map Prod.fst = outs) :
      Tried outs (.ok (pairs.map Prod.snd)) (pairs.map Move.done)
  /-- One of them failed after those before it had moved. -/
  | failed (pairs : List (UInt8 × UInt8)) {out : UInt8} {e : Fault}
      (h : pairs.map Prod.fst ++ [out] <+: outs) :
      Tried outs (.error e) (pairs.map Move.done ++ [(out, .error e)])

theorem tried_nil : Tried [] (.ok []) [] := .moved [] rfl

theorem tried_one (out : UInt8) :
    ∀ reply : Except Fault UInt8, Tried [out] (reply.map ([·])) [(out, reply)]
  | .ok b => .moved [(out, b)] rfl
  | .error _ => .failed [] (List.prefix_refl _)

namespace Tried

variable {outs outs' bs : List UInt8} {e : Fault} {moves moves' : List Move}

theorem append (h : Tried outs (.ok bs) moves) {result : Except Fault (List UInt8)}
    (h' : Tried outs' result moves') :
    Tried (outs ++ outs') (result.map (bs ++ ·)) (moves ++ moves') := by
  cases h with
  | moved pairs hpairs =>
    cases h' with
    | moved pairs' hpairs' =>
      have hall : (pairs ++ pairs').map Prod.fst = outs ++ outs' := by
        rw [List.map_append, hpairs, hpairs']
      simpa [Except.map] using Tried.moved (pairs ++ pairs') hall
    | @failed pairs' out e hpairs' =>
      have hsome : (pairs ++ pairs').map Prod.fst ++ [out] <+: outs ++ outs' := by
        rw [List.map_append, hpairs, List.append_assoc]
        exact (List.prefix_append_right_inj outs).mpr hpairs'
      simpa [Except.map] using Tried.failed (pairs ++ pairs') hsome

/-- What failed stays where it failed, whatever was to follow. -/
theorem stop (h : Tried outs (.error e) moves) (more : List UInt8) :
    Tried (outs ++ more) (.error e) moves := by
  cases h with
  | failed pairs hpairs => exact .failed pairs (hpairs.trans (List.prefix_append outs more))

/-- If no byte failed, all of them went out. -/
theorem of_ok (h : Tried outs (.ok bs) moves) :
    movedOut moves = outs ∧ movedIn moves = bs ∧ moveFault moves = none := by
  cases h with
  | moved pairs hpairs =>
    rw [movedOut_done, movedIn_done, moveFault_done]
    exact ⟨hpairs, rfl, rfl⟩

/-- If one failed, only those before it went out. -/
theorem of_error (h : Tried outs (.error e) moves) :
    moveFault moves = some e ∧ ∃ n, n < outs.length ∧ movedOut moves = outs.take n := by
  cases h with
  | @failed pairs out _ hpairs =>
    have hfault : moveFault (pairs.map Move.done ++ [(out, .error e)]) = some e := by
      rw [moveFault, List.findSome?_append]
      exact congrArg (Option.or · (some e)) (moveFault_done pairs)
    have hout : movedOut (pairs.map Move.done ++ [(out, .error e)]) = pairs.map Prod.fst := by
      rw [movedOut_append, movedOut_done]
      exact List.append_nil _
    have htake := List.prefix_iff_eq_take.mp ((List.prefix_append _ _).trans hpairs)
    have hlength := hpairs.length_le
    rw [List.length_append, List.length_singleton] at hlength
    exact ⟨hfault, _, hlength, hout.trans htake⟩

theorem length_eq (h : Tried outs (.ok bs) moves) : bs.length = outs.length := by
  cases h with
  | moved pairs hpairs => rw [← hpairs, List.length_map, List.length_map]

/-- No more than those bytes were tried. -/
theorem length_moves_le {result : Except Fault (List UInt8)} (h : Tried outs result moves) :
    moves.length ≤ outs.length := by
  cases h with
  | moved pairs hpairs => simp [← hpairs]
  | failed pairs hpairs => simpa using hpairs.length_le

theorem head_eq {out : UInt8} {result : Except Fault (List UInt8)}
    (h : Tried (out :: outs) result moves) : moves.head?.map Prod.fst = some out := by
  cases h with
  | moved pairs hpairs =>
    cases pairs with
    | nil => cases hpairs
    | cons m pairs => exact congrArg some (List.head_eq_of_cons_eq hpairs)
  | failed pairs hpairs =>
    cases pairs with
    | nil => exact congrArg some (List.cons_prefix_cons.mp hpairs).1
    | cons m pairs => exact congrArg some (List.cons_prefix_cons.mp hpairs).1

theorem ok_of_mem (h : Tried outs (.ok bs) moves) : ∀ m ∈ moves, ∃ b, m.2 = .ok b := by
  cases h with
  | moved pairs hpairs =>
    intro m hm
    obtain ⟨pair, _, rfl⟩ := List.mem_map.mp hm
    exact ⟨pair.2, rfl⟩

end Tried

/-! ## Hardware that shows what moved -/

variable {ω : Type} [Bus ω]

/-- Hardware before some moves and after them is related, one byte at a time. -/
structure Tracks (R : List Move → ω → ω → Prop) : Prop where
  nil : ∀ w, R [] w w
  exchange : ∀ out w, R [(out, (exchange out w).1)] w (exchange out w).2
  append : ∀ {moves moves' : List Move} {u v w : ω}, R moves u v → R moves' v w →
    R (moves ++ moves') u w

namespace Tracks

variable {R : List Move → ω → ω → Prop}

theorem send (h : Tracks R) (bs : List UInt8) (w : ω) :
    ∃ result moves, Tried bs result moves ∧ (Spi.send bs w).1 = result.map (fun _ => ()) ∧
      R moves w (Spi.send bs w).2 := by
  induction bs generalizing w with
  | nil => exact ⟨.ok [], [], tried_nil, rfl, h.nil w⟩
  | cons b bs ih =>
    have hfirst := h.exchange b w
    rw [Spi.send]
    generalize Spi.exchange b w = exchanged at hfirst ⊢
    obtain ⟨e | a, w'⟩ := exchanged
    · exact ⟨.error e, [(b, .error e)], (tried_one b (.error e)).stop bs, rfl, hfirst⟩
    · obtain ⟨result, moves, htried, hresult, hrest⟩ := ih w'
      refine ⟨_, _, (tried_one b (.ok a)).append htried, ?_, h.append hfirst hrest⟩
      cases result <;> exact hresult

theorem receive (h : Tracks R) (n : Nat) (w : ω) :
    ∃ moves, Tried (List.replicate n 0xFF) (Spi.receive n w).1 moves ∧
      R moves w (Spi.receive n w).2 := by
  induction n generalizing w with
  | zero => exact ⟨[], tried_nil, h.nil w⟩
  | succ n ih =>
    have hfirst := h.exchange 0xFF w
    rw [Spi.receive_succ, List.replicate_succ]
    generalize Spi.exchange 0xFF w = exchanged at hfirst ⊢
    obtain ⟨e | b, w'⟩ := exchanged
    · exact ⟨[(0xFF, .error e)], (tried_one 0xFF (.error e)).stop _, hfirst⟩
    · obtain ⟨moves, htried, hrest⟩ := ih w'
      exact ⟨_, (tried_one 0xFF (.ok b)).append htried, h.append hfirst hrest⟩

end Tracks

end FlashProgrammer.Spi

namespace FlashProgrammer.Flash

open Spi

namespace Instruction

/-- Everything that goes out for an instruction: its bytes, and a filler for each byte of the
reply. -/
def clocked (i : Instruction) : List UInt8 := i.bytes ++ List.replicate i.replyLength 0xFF

@[simp] theorem length_clocked (i : Instruction) :
    i.clocked.length = i.bytes.length + i.replyLength := by
  simp [clocked]

end Instruction

variable {ω : Type} [Bus ω] {R : List Move → ω → ω → Prop}

/-- An instruction is tried, and its reply is what came in after its bytes. -/
theorem tracks_clock (h : Tracks R) (i : Instruction) (w : ω) :
    ∃ result moves, Tried i.clocked result moves ∧
      (clock i w).1 = result.map (List.drop i.bytes.length) ∧ R moves w (clock i w).2 := by
  obtain ⟨result, moves, htried, hresult, hsent⟩ := h.send i.bytes w
  rw [clock]
  generalize Spi.send i.bytes w = sent at hresult hsent ⊢
  obtain ⟨outcome, w'⟩ := sent
  obtain rfl : outcome = result.map (fun _ => ()) := hresult
  cases result with
  | error e => exact ⟨.error e, moves, htried.stop _, rfl, hsent⟩
  | ok echo =>
    obtain ⟨moves', htried', hreceived⟩ := h.receive i.replyLength w'
    refine ⟨_, moves ++ moves', htried.append htried', ?_, h.append hsent hreceived⟩
    show (Spi.receive i.replyLength w').1 = _
    rw [← htried.length_eq]
    cases (Spi.receive i.replyLength w').1 with
    | ok reply => exact congrArg Except.ok (List.drop_left).symm
    | error e => rfl

end FlashProgrammer.Flash

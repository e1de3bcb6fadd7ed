import FlashProgrammer.Proofs.Flash.Clocking
import FlashProgrammer.Proofs.Trace.Traced
import FlashProgrammer.Proofs.Usb.BulkMoves

/-!
# Calls to a chip

A transaction shows the bytes that were moved while a chip was selected.  If the first byte of
an instruction fails, no byte is left to tell which instruction it was.  A `Call` keeps the
bytes that were to go out, each with what came of it, so it always begins with an opcode.

`calls` cuts a trace into its calls.  `Makes cs w w'` says that on the way from `w` to `w'` the
calls `cs` were all that happened on the SPI bus.  Every instruction is one call
(`makes_execute`), and `Tried` says how far it went.
-/

namespace FlashProgrammer.Trace

open Spi (Move)

/-- All that happened while a chip was selected. -/
structure Call where
  slot : Slot
  moves : List Move

def moveEvent (m : Move) : Event := .spi (.exchange m.1) m.2

namespace Call

/-- The chip is selected, bytes are to move, and the chip is released. -/
def events (c : Call) : List Event :=
  .spi (.select c.slot) () :: c.moves.map moveEvent ++ [.spi .deselect ()]

theorem length_events (c : Call) : c.events.length = c.moves.length + 2 := by
  simp [events]

/-- The instruction that the chip was to be given. -/
def opcode? (c : Call) : Option UInt8 := c.moves.head?.map Prod.fst

/-- A byte failed. -/
def Fails (c : Call) : Prop := ∃ m ∈ c.moves, ∃ e, m.2 = .error e

end Call

/-! ## Cutting a trace -/

/-- The calls of a trace, the first of which may already be open.  A byte that is to move while no
slot is selected belongs to none. -/
def callsAfter : (current : Option Call) → List Event → List Call
  | current, [] => current.toList
  | current, .spi (.select slot) _ :: es => current.toList ++ callsAfter (some ⟨slot, []⟩) es
  | current, .spi .deselect _ :: es => current.toList ++ callsAfter none es
  | current, .spi (.exchange out) reply :: es =>
    callsAfter (current.map fun c => { c with moves := c.moves ++ [(out, reply)] }) es
  | current, .usb .. :: es => callsAfter current es
  | current, .line .. :: es => callsAfter current es

/-- The calls of a trace. -/
def calls (es : List Event) : List Call := callsAfter none es

theorem callsAfter_moves (c : Call) (moves : List Move) (es : List Event) :
    callsAfter (some c) (moves.map moveEvent ++ es) =
      callsAfter (some { c with moves := c.moves ++ moves }) es := by
  induction moves generalizing c with
  | nil =>
    rw [List.append_nil]
    rfl
  | cons m moves ih =>
    have hrest := ih { c with moves := c.moves ++ [m] }
    rw [List.append_assoc, List.singleton_append] at hrest
    exact hrest

theorem calls_events (c : Call) (es : List Event) : calls (c.events ++ es) = c :: calls es := by
  have hmoves := callsAfter_moves ⟨c.slot, []⟩ c.moves (.spi .deselect () :: es)
  show callsAfter (some ⟨c.slot, []⟩) ((c.moves.map moveEvent ++ [.spi .deselect ()]) ++ es) = _
  rw [List.append_assoc]
  exact hmoves

/-- The events of calls tell which calls these were. -/
theorem calls_flatMap (cs : List Call) : calls (cs.flatMap Call.events) = cs := by
  induction cs with
  | nil => rfl
  | cons c cs ih => rw [List.flatMap_cons, calls_events, ih]

/-! ## The SPI bus -/

/-- What happened on the SPI bus, oldest first. -/
def busEvents (es : List Event) : List Event :=
  es.filter fun
    | .spi .. => true
    | _ => false

theorem busEvents_append (es fs : List Event) :
    busEvents (es ++ fs) = busEvents es ++ busEvents fs :=
  List.filter_append ..

theorem busEvents_events (c : Call) : busEvents c.events = c.events := by
  refine List.filter_eq_self.mpr fun e he => ?_
  simp only [Call.events, List.cons_append, List.mem_cons, List.mem_append, List.mem_map,
    List.not_mem_nil, or_false] at he
  rcases he with rfl | ⟨m, _, rfl⟩ | rfl <;> rfl

variable {ω : Type}

/-- Between two moments, these calls were all that happened on the SPI bus. -/
def Makes (cs : List Call) (w w' : Traced ω) : Prop :=
  busEvents w'.events = busEvents w.events ++ cs.flatMap Call.events

theorem makes_refl (w : Traced ω) : Makes [] w w := (List.append_nil _).symm

theorem Makes.trans {cs ds : List Call} {u v w : Traced ω} (huv : Makes cs u v)
    (hvw : Makes ds v w) : Makes (cs ++ ds) u w := by
  rw [Makes, hvw, huv, List.flatMap_append, List.append_assoc]

theorem Adds.makes {c : Call} {w w' : Traced ω} (h : Adds c.events w w') : Makes [c] w w' := by
  rw [Makes, h, busEvents_append, busEvents_events, List.flatMap_singleton]

/-- Using the controller is no call. -/
theorem makes_of_used [Usb.Controller ω] {w w' : Traced ω} (h : Usb.Used w w') :
    Makes [] w w' := by
  induction h with
  | refl => exact makes_refl w
  | @step v _ a ih =>
    have hquiet : Makes [] v (Usb.Controller.perform a v).2 := by
      rw [Makes, adds_perform a v, busEvents_append]
      rfl
    exact ih.trans hquiet

/-- The calls of a trace that began when nothing was remembered. -/
theorem Makes.busEvents_eq {cs : List Call} {w : ω} {w' : Traced ω}
    (h : Makes cs (.fresh w) w') : busEvents w'.events = cs.flatMap Call.events := h

/-! ## Bytes that are to move -/

/-- A trace keeps the bytes that are to move. -/
theorem tracks_adds [Spi.Bus ω] :
    Spi.Tracks fun moves (w w' : Traced ω) => Adds (moves.map moveEvent) w w' where
  nil := adds_refl
  exchange _ _ := rfl
  append hfirst hrest := by
    rw [List.map_append]
    exact hfirst.trans hrest

end FlashProgrammer.Trace

namespace FlashProgrammer.Flash

open Spi Trace

variable {ω : Type} [Spi.Bus ω]

/-! ## Instructions -/

/-- An instruction is given to the chip of a slot.  The reply is what came in after its bytes. -/
structure Instructs (slot : Slot) (i : Instruction) (reply : Except Fault (List UInt8)) (c : Call) :
    Prop where
  slot_eq : c.slot = slot
  tried : ∃ result, Tried i.clocked result c.moves ∧ reply = result.map (List.drop i.bytes.length)

namespace Instructs

variable {slot : Slot} {i : Instruction} {c : Call}

theorem opcode_eq {reply : Except Fault (List UInt8)} (h : Instructs slot i reply c) :
    c.opcode? = some i.opcode := by
  obtain ⟨result, htried, _⟩ := h.tried
  exact htried.head_eq

/-- With a reply, no byte failed. -/
theorem not_fails {bs : List UInt8} (h : Instructs slot i (.ok bs) c) : ¬c.Fails := by
  obtain ⟨result, htried, hreply⟩ := h.tried
  cases result with
  | error e => cases hreply
  | ok all =>
    rintro ⟨m, hm, e, he⟩
    obtain ⟨b, hb⟩ := htried.ok_of_mem m hm
    rw [hb] at he
    cases he

end Instructs

/-- An instruction is one call. -/
theorem adds_execute (slot : Slot) (i : Instruction) (w : Traced ω) :
    ∃ c, Instructs slot i (execute slot i w).1 c ∧ Adds c.events w (execute slot i w).2 := by
  obtain ⟨result, moves, htried, hresult, hclocked⟩ :=
    tracks_clock tracks_adds i (Spi.select slot w)
  have hselected : Adds [.spi (.select slot) ()] w (Spi.select slot w) := rfl
  have hreleased : ∀ v : Traced ω, Adds [.spi .deselect ()] v (Spi.deselect v) := fun _ => rfl
  exact ⟨⟨slot, moves⟩, ⟨rfl, result, htried, hresult⟩,
    (hselected.trans hclocked).trans (hreleased _)⟩

theorem makes_execute (slot : Slot) (i : Instruction) (w : Traced ω) :
    ∃ c, Instructs slot i (execute slot i w).1 c ∧ Makes [c] w (execute slot i w).2 := by
  obtain ⟨c, hinstructs, hadds⟩ := adds_execute slot i w
  exact ⟨c, hinstructs, hadds.makes⟩

end FlashProgrammer.Flash

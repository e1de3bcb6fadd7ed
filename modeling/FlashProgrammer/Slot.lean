/-!
# Flash slots

The programmer has three chip selects: two chips on the board and one on the
external header.  The host names a slot by a device number and the bus it is on.
-/

namespace FlashProgrammer

/-- A chip select of the programmer. -/
inductive Slot where
  | local1
  | local2
  /-- The chip on the external header. -/
  | external
deriving DecidableEq, Repr

namespace Slot

/-- Every slot, in the order of the chip-select lines. -/
def all : List Slot := [.local1, .local2, .external]

/-- The number of the chip-select line. -/
def index : Slot → Nat
  | .local1 => 0
  | .local2 => 1
  | .external => 2

/-- Chips on the board that the host is told of. -/
def internalCount : UInt8 := 2

/-- Chips on the external header that the host is told of. -/
def externalCount : UInt8 := 0

end Slot

/-- A value for each slot. -/
structure PerSlot (α : Type) where
  local1 : α
  local2 : α
  external : α
deriving DecidableEq, Repr

namespace PerSlot

variable {α : Type}

/-- The value that a function gives each slot. -/
def ofFn (f : Slot → α) : PerSlot α := ⟨f .local1, f .local2, f .external⟩

/-- The value of a slot. -/
def get (t : PerSlot α) : Slot → α
  | .local1 => t.local1
  | .local2 => t.local2
  | .external => t.external

/-- Replaces the value of a slot. -/
def set (t : PerSlot α) (slot : Slot) (a : α) : PerSlot α :=
  match slot with
  | .local1 => { t with local1 := a }
  | .local2 => { t with local2 := a }
  | .external => { t with external := a }

theorem get_set (t : PerSlot α) (slot slot' : Slot) (a : α) :
    (t.set slot a).get slot' = if slot = slot' then a else t.get slot' := by
  cases slot <;> cases slot' <;> rfl

end PerSlot

/-- The bus a slot is on. -/
inductive SlotBus where
  /-- On the board. -/
  | internal
  /-- On the external header. -/
  | external
deriving DecidableEq, Repr

namespace SlotBus

/-- The bus with a given code. -/
def ofByte? (code : UInt8) : Option SlotBus :=
  if code = 0 then some .internal else if code = 1 then some .external else none

end SlotBus

/-- The slot that a device number and a bus code name.  Any other pair names no slot. -/
def Slot.find? (number bus : UInt8) : Option Slot :=
  match SlotBus.ofByte? bus with
  | some .internal => if number = 0 then some .local1 else if number = 1 then some .local2 else none
  | some .external => if number = 0 then some .external else none
  | none => none

example : Slot.find? 1 0 = some .local2 := by decide

example : Slot.find? 0 2 = none := by decide

end FlashProgrammer

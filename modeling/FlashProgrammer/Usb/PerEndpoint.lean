import FlashProgrammer.Usb.Controller

/-!
# One value for each endpoint

The firmware and the controllers keep records of endpoints: some one for each
endpoint, some one for each endpoint and direction.  `PerEndpoint.get_set` and
`PerDirection.get_set` say that writing one record leaves the others alone.
-/

namespace FlashProgrammer.Usb

/-- A value for each endpoint. -/
structure PerEndpoint (α : Type) where
  /-- The values, by number of the endpoint. -/
  cells : Vector α 4
deriving DecidableEq, Repr

namespace PerEndpoint

variable {α : Type}

def replicate (a : α) : PerEndpoint α := ⟨Vector.replicate 4 a⟩

def get (t : PerEndpoint α) (ep : Endpoint) : α := t.cells[ep]

def set (t : PerEndpoint α) (ep : Endpoint) (a : α) : PerEndpoint α :=
  ⟨t.cells.set ep.val a ep.isLt⟩

def modify (t : PerEndpoint α) (ep : Endpoint) (f : α → α) : PerEndpoint α :=
  t.set ep (f (t.get ep))

def map {β : Type} (f : α → β) (t : PerEndpoint α) : PerEndpoint β := ⟨t.cells.map f⟩

/-- The values, by number of the endpoint. -/
def toList (t : PerEndpoint α) : List α := t.cells.toList

@[simp] theorem get_replicate (a : α) (ep : Endpoint) : (replicate a).get ep = a := by
  simp [get, replicate]

theorem get_set (t : PerEndpoint α) (ep ep' : Endpoint) (a : α) :
    (t.set ep a).get ep' = if ep = ep' then a else t.get ep' := by
  simp only [get, set, Fin.getElem_fin, Vector.getElem_set, ← Fin.ext_iff]

@[simp] theorem get_set_self (t : PerEndpoint α) (ep : Endpoint) (a : α) :
    (t.set ep a).get ep = a := by
  rw [get_set, if_pos rfl]

theorem get_set_ne (t : PerEndpoint α) {ep ep' : Endpoint} (a : α) (h : ep ≠ ep') :
    (t.set ep a).get ep' = t.get ep' := by
  rw [get_set, if_neg h]

/-- Two tables that agree everywhere are equal. -/
theorem ext_get {t u : PerEndpoint α} (h : ∀ ep, t.get ep = u.get ep) : t = u := by
  have key : t.cells = u.cells := Vector.ext fun i hi => h ⟨i, hi⟩
  cases t
  cases u
  exact congrArg PerEndpoint.mk key

/-- Only the last value that was written counts. -/
theorem set_set (t : PerEndpoint α) (ep : Endpoint) (a a' : α) :
    (t.set ep a).set ep a' = t.set ep a' := by
  refine ext_get fun ep' => ?_
  rw [get_set, get_set, get_set]
  split
  · rfl
  · rfl

/-- Writing what is there changes nothing. -/
theorem set_get (t : PerEndpoint α) (ep : Endpoint) : t.set ep (t.get ep) = t := by
  refine ext_get fun ep' => ?_
  rw [get_set]
  split
  · next h => rw [h]
  · rfl

end PerEndpoint

/-- A value for each endpoint and direction. -/
structure PerDirection (α : Type) where
  toDevice : PerEndpoint α
  toHost : PerEndpoint α
deriving DecidableEq, Repr

namespace PerDirection

variable {α : Type}

def replicate (a : α) : PerDirection α := ⟨.replicate a, .replicate a⟩

def get (t : PerDirection α) (ep : Endpoint) : Direction → α
  | .toDevice => t.toDevice.get ep
  | .toHost => t.toHost.get ep

def set (t : PerDirection α) (ep : Endpoint) (dir : Direction) (a : α) : PerDirection α :=
  match dir with
  | .toDevice => { t with toDevice := t.toDevice.set ep a }
  | .toHost => { t with toHost := t.toHost.set ep a }

def modify (t : PerDirection α) (ep : Endpoint) (dir : Direction) (f : α → α) : PerDirection α :=
  t.set ep dir (f (t.get ep dir))

@[simp] theorem get_replicate (a : α) (ep : Endpoint) (dir : Direction) :
    (replicate a).get ep dir = a := by
  cases dir <;> exact PerEndpoint.get_replicate a ep

theorem get_set (t : PerDirection α) (ep ep' : Endpoint) (dir dir' : Direction) (a : α) :
    (t.set ep dir a).get ep' dir' = if ep = ep' ∧ dir = dir' then a else t.get ep' dir' := by
  cases dir <;> cases dir' <;> simp [set, get, PerEndpoint.get_set]

@[simp] theorem get_set_self (t : PerDirection α) (ep : Endpoint) (dir : Direction) (a : α) :
    (t.set ep dir a).get ep dir = a := by
  rw [get_set, if_pos ⟨rfl, rfl⟩]

theorem get_modify (t : PerDirection α) (ep ep' : Endpoint) (dir dir' : Direction) (f : α → α) :
    (t.modify ep dir f).get ep' dir' =
      if ep = ep' ∧ dir = dir' then f (t.get ep dir) else t.get ep' dir' :=
  get_set ..

/-- Two tables that agree everywhere are equal. -/
theorem ext_get {t u : PerDirection α} (h : ∀ ep dir, t.get ep dir = u.get ep dir) : t = u := by
  have hout : t.toDevice = u.toDevice := PerEndpoint.ext_get fun ep => h ep .toDevice
  have hin : t.toHost = u.toHost := PerEndpoint.ext_get fun ep => h ep .toHost
  cases t
  cases u
  exact congr (congrArg PerDirection.mk hout) hin

end PerDirection

end FlashProgrammer.Usb

import Interpose.Registry.Basic

/-!
The tables behind a registry: the callbacks, what is known of each method, and the order of
registration. A registration changes them one after the other, and the first two once for every
point. If it were to stop on the way, what it had entered so far would stay.
-/

set_option autoImplicit false
set_option relaxedAutoImplicit false

namespace Interpose

/-- The three tables, each of which may be changed without the others. -/
structure Tables where
  dispatcher : Dispatcher
  slots : List Slot
  /-- The methods, in the order of their first registration. -/
  order : List MethodId

/-- The tables of a registry in which no registration is under way. -/
def Registry.tables (r : Registry) : Tables := ⟨r.dispatcher, r.slots, r.methods⟩

namespace Tables

/-- The result of a change or its refusal, and the tables afterwards. -/
abbrev Change (α : Type) := Except PatchError α × Tables

/-- What is checked before anything is changed: every callback does what its point expects, and no
point has the name of one before it or of a callback that is there. -/
def accept (d : Dispatcher) : (seen : List String) → List (Point × Callback) → Except PatchError Unit
  | _, [] => .ok ()
  | seen, (point, callback) :: rest =>
    if callback.mode ≠ point.mode then .error (.callbackMismatch point.name)
    else if point.name ∈ seen ∨ d.contains point.name then .error (.duplicatePoint point.name)
    else accept d (point.name :: seen) rest

/-- The slot of a method. A method that has none gets one, with the name. -/
def openSlot (t : Tables) (m : MethodId) (name : String) : Slot × Tables :=
  match t.slots.find? fun s => s.method = m with
  | some slot => (slot, t)
  | none =>
    let slot : Slot := ⟨m, name, [], .unpatched, 0⟩
    (slot, { t with slots := t.slots ++ [slot] })

def pushPoints (m : MethodId) (points : List Point) (slots : List Slot) : List Slot :=
  slots.map fun s => if s.method = m then { s with points := s.points ++ points } else s

/-- Enters the callback of each point and then the point, until a callback is refused. -/
def enter (t : Tables) (m : MethodId) : List (Point × Callback) → Change Unit
  | [] => (.ok (), t)
  | (point, callback) :: rest =>
    match t.dispatcher.register point.name callback with
    | .error _ => (.error (.duplicatePoint point.name), t)
    | .ok dispatcher => { t with dispatcher, slots := pushPoints m [point] t.slots }.enter m rest

/-- Puts a method at the end of the order, unless it has a place. -/
def enlist (t : Tables) (m : MethodId) : Tables :=
  if m ∈ t.order then t else { t with order := t.order ++ [m] }

def register (t : Tables) (m : MethodId) (name : String) (points : List (Point × Callback)) :
    Change Unit :=
  match accept t.dispatcher [] points with
  | .error e => (.error e, t)
  | .ok () =>
    let (slot, t) := t.openSlot m name
    if slot.state ≠ .unpatched then (.error (.methodPatched slot.name), t)
    else
      match t.enter m points with
      | (.error e, t) => (.error e, t)
      | (.ok (), t) => (.ok (), t.enlist m)

end Tables

end Interpose

import Interpose.Dispatch
import Interpose.Registry.Error

/-!
The registry of patched methods: which extension points each method has, and where it is in the life
of its patch. A method is unpatched, or runs a patched body and has the handle that remembers the
one before it, or is on its way from one to the other. A handle exists exactly while there is a
patched body to take back.
-/

set_option autoImplicit false
set_option relaxedAutoImplicit false

namespace Interpose

/-- An installed patch: what it replaced, what it put there, and how. -/
structure Handle where
  method : MethodId
  name : String
  /-- The body that ran before. -/
  saved : Body
  patched : Body
  /-- One report for each extension point, in the order they went in. -/
  applied : List SpliceReport
  deriving DecidableEq

inductive PatchState
  | unpatched
  | installing
  | installed (handle : Handle)
  | uninstalling (handle : Handle)
  deriving DecidableEq

def PatchState.text : PatchState → String
  | .unpatched => "unpatched"
  | .installing => "installing"
  | .installed _ => "installed"
  | .uninstalling _ => "uninstalling"

/-- The handle of a method whose patched body is in place. -/
def PatchState.handle? : PatchState → Option Handle
  | .installed handle | .uninstalling handle => some handle
  | .unpatched | .installing => none

def PatchState.isInstalled : PatchState → Bool
  | .installed _ => true
  | _ => false

structure Slot where
  method : MethodId
  name : String
  points : List Point
  state : PatchState
  /-- How often the anchors were searched. -/
  searches : Nat

/-- The extension points for one method, each with its callback. -/
structure MethodPatch where
  /-- The name by which the host knows the method. -/
  target : String
  points : List (Point × Callback)

/-- The table of methods with extension points, in the order of their first registration, and the
callbacks of the points. -/
structure Registry where
  /-- Reports anchors found by a fallback as warnings. -/
  strict : Bool
  dispatcher : Dispatcher
  slots : List Slot

namespace Registry

def empty (strict : Bool) : Registry := ⟨strict, .empty, []⟩

def find? (r : Registry) (m : MethodId) : Option Slot := r.slots.find? fun s => s.method = m

/-- The methods, in the order of their first registration. -/
def methods (r : Registry) : List MethodId := r.slots.map (·.method)

def state? (r : Registry) (m : MethodId) : Option PatchState := (r.find? m).map (·.state)

def handle? (r : Registry) (m : MethodId) : Option Handle :=
  (r.state? m).bind PatchState.handle?

/-- The methods with an installed patch, in the order of their first registration. -/
def installed (r : Registry) : List MethodId :=
  (r.slots.filter fun s => s.state.isInstalled).map (·.method)

def searchCount (r : Registry) (m : MethodId) : Nat :=
  match r.find? m with
  | some slot => slot.searches
  | none => 0

def modify (r : Registry) (m : MethodId) (f : Slot → Slot) : Registry :=
  { r with slots := r.slots.map fun s => if s.method = m then f s else s }

def setState (r : Registry) (m : MethodId) (state : PatchState) : Registry :=
  r.modify m fun s => { s with state }

/-- Puts a method in the state of being patched, and counts the search of its anchors. -/
def startInstall (r : Registry) (m : MethodId) : Registry :=
  r.modify m fun s => { s with state := .installing, searches := s.searches + 1 }

/-- The dispatch table with the callbacks of some points added. A callback must do what its point
expects, and no two points have one name. -/
def enroll : Dispatcher → List (Point × Callback) → Except PatchError Dispatcher
  | d, [] => .ok d
  | d, (point, callback) :: rest =>
    if callback.mode ≠ point.mode then .error (.callbackMismatch point.name)
    else
      match d.register point.name callback with
      | .error _ => .error (.duplicatePoint point.name)
      | .ok d => enroll d rest

/-- Adds points behind those that a method has. The name is used if the method is new. Nothing is
added if any point is refused, or if the method is not unpatched. -/
def add (r : Registry) (m : MethodId) (name : String) (points : List (Point × Callback)) :
    Except PatchError Registry :=
  match enroll r.dispatcher points with
  | .error e => .error e
  | .ok dispatcher =>
    match r.find? m with
    | none =>
      .ok { r with
        dispatcher
        slots := r.slots ++ [⟨m, name, points.map (·.1), .unpatched, 0⟩] }
    | some slot =>
      match slot.state with
      | .unpatched =>
        .ok { r.modify m fun s => { s with points := s.points ++ points.map (·.1) } with
          dispatcher }
      | _ => .error (.methodPatched slot.name)

end Registry

end Interpose

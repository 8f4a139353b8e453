import Interpose.Point
import Interpose.Value

/-!
The dispatch table. Every splice calls a method named for its extension point; the host routes these
calls here, and the table runs the callback that is registered for the point.
-/

set_option autoImplicit false
set_option relaxedAutoImplicit false

namespace Interpose

open Interpose.Text (decimal)

inductive Callback
  /-- Decides from the active object whether the situation is handled. -/
  | consume (handles : Value → Bool)
  /-- Receives the active object and the captured values; the tag names the receiver. -/
  | augment (tag : String)

def Callback.mode : Callback → SpliceMode
  | .consume _ => .consume
  | .augment _ => .augment

structure Receipt where
  tag : String
  active : Value
  context : List Value
  deriving DecidableEq

inductive Reply
  /-- A consume callback answered whether it handled the situation. -/
  | handled (value : Bool)
  /-- An augment callback received the call. -/
  | received (receipt : Receipt)
  deriving DecidableEq

inductive DispatchError
  | notDispatch (method : String)
  | unknownPoint (point : String)
  | duplicate (point : String)
  | arity (point : String) (expected found : Nat)
  deriving DecidableEq

def DispatchError.kind : DispatchError → String
  | .notDispatch _ => "NotDispatch"
  | .unknownPoint _ => "UnknownPoint"
  | .duplicate _ => "Duplicate"
  | .arity .. => "Arity"

def DispatchError.message : DispatchError → String
  | .notDispatch method => method ++ " is not a dispatch call"
  | .unknownPoint point => "No callback registered for '" ++ point ++ "'"
  | .duplicate point => "Callback for '" ++ point ++ "' is already registered"
  | .arity point expected found =>
    "Callback for '" ++ point ++ "' takes " ++ decimal expected ++ " arguments, got " ++
      decimal found

/-- The callbacks by the names of their points. -/
structure Dispatcher where
  callbacks : List (String × Callback)

namespace Dispatcher

def empty : Dispatcher := ⟨[]⟩

def find? (d : Dispatcher) (point : String) : Option Callback := d.callbacks.lookup point

def contains (d : Dispatcher) (point : String) : Bool := (d.find? point).isSome

def size (d : Dispatcher) : Nat := d.callbacks.length

def register (d : Dispatcher) (point : String) (callback : Callback) :
    Except DispatchError Dispatcher :=
  if d.contains point then .error (.duplicate point)
  else .ok ⟨d.callbacks ++ [(point, callback)]⟩

def unregister (d : Dispatcher) (point : String) : Bool × Dispatcher :=
  (d.contains point, ⟨d.callbacks.filter fun e => e.1 ≠ point⟩)

def run (callback : Callback) (active : Value) (context : List Value) : Reply :=
  match callback with
  | .consume handles => .handled (handles active)
  | .augment tag => .received ⟨tag, active, context⟩

/-- Routes an injected call: the active object is the first argument, the captured values are the
others. -/
def invoke (d : Dispatcher) (method : MethodRef) (args : List Value) :
    Except DispatchError Reply :=
  if method.owner.name ≠ dispatchOwner then .error (.notDispatch method.text)
  else
    let arity : DispatchError := .arity method.name method.params.toNat args.length
    match args with
    | [] => .error arity
    | active :: context =>
      if args.length ≠ method.params.toNat then .error arity
      else
        match d.find? method.name with
        | none => .error (.unknownPoint method.name)
        | some callback => .ok (run callback active context)

def consume (d : Dispatcher) (point : String) (active : Value) : Except DispatchError Bool :=
  match d.find? point with
  | none => .error (.unknownPoint point)
  | some (.consume handles) => .ok (handles active)
  | some (.augment _) => .error (.arity point 1 0)

def augment (d : Dispatcher) (point : String) (active : Value) (context : List Value) :
    Except DispatchError Receipt :=
  match d.find? point with
  | none => .error (.unknownPoint point)
  | some (.augment tag) => .ok ⟨tag, active, context⟩
  | some (.consume _) => .error (.arity point 1 (1 + context.length))

end Dispatcher

end Interpose

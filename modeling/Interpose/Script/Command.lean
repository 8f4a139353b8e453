import Interpose.Blueprint
import Interpose.Registry.Lifecycle

/-!
Commands to a registry and to the host in memory behind it, as a console or a script gives them, and
the answers to them.
-/

set_option autoImplicit false
set_option relaxedAutoImplicit false

namespace Interpose

inductive Target
  | named (name : String)
  | numbered (method : MethodId)
  deriving DecidableEq

inductive Command
  | register (patch : PatchBlueprint)
  | install (method : Target)
  | uninstall (method : Target)
  | installAll
  | uninstallAll
  | methods
  | installed
  | state (method : Target)
  | handle (method : Target)
  | searches (method : Target)
  /-- Adds a callback to the dispatch table. -/
  | enroll (point : String) (callback : Callback)
  /-- Removes a callback from the dispatch table. -/
  | dismiss (point : String)
  | dispatchInfo (point : String)
  | invoke (method : MethodRef) (args : List Value)
  | consume (point : String) (active : Value)
  | augment (point : String) (active : Value) (context : List Value)
  /-- Defines a method of the host. -/
  | define (name : String) (body : Body)
  /-- Makes the host refuse activations of a method, or accept them again. -/
  | lock (method : Target) (locked : Bool)
  | resolve (method : Target)
  | loadBody (method : Target)
  /-- Activates a body past the registry. -/
  | activate (method : Target) (body : Body)
  | methodInfo (method : Target)

structure MethodInfo where
  description : String
  name : Option String
  isModified : Bool
  activations : Nat
  active : Option Body
  pristine : Option Body

def Memory.info (h : Memory) (m : MethodId) : MethodInfo :=
  ⟨(h.nameOf? m).getD m.text, h.nameOf? m, h.isModified m, h.activationCount m,
    h.activeBody? m, h.pristineBody? m⟩

inductive Answer
  | done
  | flag (value : Bool)
  | count (value : Nat)
  | method (method : MethodId)
  | methods (methods : List MethodId)
  | installation (outcome : InstallOutcome)
  | installations (outcomes : List InstallOutcome)
  | state (state : Option PatchState)
  | handle (handle : Option Handle)
  /-- Whether a point has a callback, and how many points have. -/
  | dispatchInfo (contained : Bool) (size : Nat)
  /-- What a routed call did. -/
  | reply (reply : Reply)
  | body (body : Body)
  | methodInfo (info : MethodInfo)

inductive CommandError
  | load (source : LoadError)
  | patch (source : PatchError)
  | dispatch (source : DispatchError)
  | host (source : HostError)
  deriving DecidableEq

def CommandError.message : CommandError → String
  | .load source => source.message
  | .patch source => source.message
  | .dispatch source => source.message
  | .host source => source.message

end Interpose

import Interpose.Host
import Interpose.Splice

/-!
What can go wrong when a method is patched or restored.
-/

set_option autoImplicit false
set_option relaxedAutoImplicit false

namespace Interpose

inductive PatchError
  /-- An extension point cannot be applied to the method. -/
  | splice (method : String) (source : SpliceError)
  | malformedTemplate (source : TemplateError)
  /-- The patched body breaks the stack discipline that the one before it keeps. -/
  | unbalanced (method : String) (source : StackError)
  | host (source : HostError)
  | stream (method : String) (source : StreamError)
  | duplicatePoint (point : String)
  | callbackMismatch (point : String)
  /-- Points can only be added to a method that is not patched. -/
  | methodPatched (method : String)
  /-- The method is being patched or restored. -/
  | busy (method : String)
  | notRegistered (method : String)
  | restoreFailed (method : String) (source : HostError)
  deriving DecidableEq

def PatchError.kind : PatchError → String
  | .splice _ source => "Splice." ++ source.kind
  | .malformedTemplate source => "MalformedTemplate." ++ source.kind
  | .unbalanced _ source => "Unbalanced." ++ source.kind
  | .host source => "Host." ++ source.kind
  | .stream _ source => "Stream." ++ source.kind
  | .duplicatePoint _ => "DuplicatePoint"
  | .callbackMismatch _ => "CallbackMismatch"
  | .methodPatched _ => "MethodPatched"
  | .busy _ => "Busy"
  | .notRegistered _ => "NotRegistered"
  | .restoreFailed _ source => "RestoreFailed." ++ source.kind

/-- The extension point at which a method could not be patched. -/
def PatchError.point? : PatchError → Option String
  | .splice _ source => some source.point
  | _ => none

def PatchError.message : PatchError → String
  | .splice method source => "Failed to patch " ++ method ++ ": " ++ source.message
  | .malformedTemplate source => "Malformed template: " ++ source.message
  | .unbalanced method source =>
    "Patched body of " ++ method ++ " is unbalanced: " ++ source.message
  | .host source => "Host error: " ++ source.message
  | .stream method source => "Stream error in " ++ method ++ ": " ++ source.message
  | .duplicatePoint point => "Extension point '" ++ point ++ "' is already registered"
  | .callbackMismatch point => "Callback for '" ++ point ++ "' does not match its splice mode"
  | .methodPatched method =>
    "Cannot add extension points to " ++ method ++ " while it is patched"
  | .busy method => "Method " ++ method ++ " is busy installing or uninstalling"
  | .notRegistered method => "No patch registered for " ++ method
  | .restoreFailed method source =>
    "Failed to restore original body of " ++ method ++ ": " ++ source.message

end Interpose

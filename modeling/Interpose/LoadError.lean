import Interpose.AnchorTable
import Interpose.Registry.Error
import Interpose.Settings

/-!
What can go wrong from the first file read to the last patch installed.
-/

set_option autoImplicit false
set_option relaxedAutoImplicit false

namespace Interpose

inductive LoadError
  | settings (source : SettingsError)
  | anchors (source : AnchorError)
  | patch (source : PatchError)
  deriving DecidableEq

def LoadError.kind : LoadError → String
  | .settings source => "Config." ++ source.kind
  | .anchors source => "Gamedata." ++ source.kind
  | .patch source => "Patch." ++ source.kind

def LoadError.message : LoadError → String
  | .settings source => "Config error: " ++ source.message
  | .anchors source => "Gamedata error: " ++ source.message
  | .patch source => "Patch error: " ++ source.message

end Interpose

/-!
The engine's settings, and what can go wrong with the file that holds them.
-/

set_option autoImplicit false
set_option relaxedAutoImplicit false

namespace Interpose

structure Settings where
  version : UInt32
  /-- Lowers the level at which the engine logs. -/
  debug : Bool
  /-- Reports anchors that were found by a fallback as warnings. -/
  strict : Bool
  /-- The name of the file with the anchors. -/
  gamedata : String
  deriving DecidableEq

namespace Settings

def standard : Settings := ⟨1, false, true, "anchors.json"⟩

def level (s : Settings) : String := if s.debug then "DEBUG" else "INFO"

end Settings

inductive SettingsError
  /-- The file cannot be read or cannot be written. -/
  | inaccessible
  /-- The text is not that of settings. -/
  | malformed
  deriving DecidableEq

def SettingsError.kind : SettingsError → String
  | .inaccessible => "IoError"
  | .malformed => "ParseError"

def SettingsError.message : SettingsError → String
  | .inaccessible => "IO error"
  | .malformed => "Failed to parse TOML"

end Interpose

import Interpose.Settings
import Interpose.Toml.Quoted
import Interpose.Toml.Reader

/-!
The settings as a TOML document. Keys that are missing have the standard values, and keys of no
meaning are passed over.
-/

set_option autoImplicit false
set_option relaxedAutoImplicit false

namespace Interpose

open Interpose.Text (decimal)

namespace Settings

/-- What a key of a document means, or the standard value. -/
def readKey {α : Type} (t : Toml.Entries) (key : String) (standard : α)
    (meaning : Toml.Node → Option α) : Option α :=
  match t.lookup key with
  | none => some standard
  | some node => meaning node

/-- A version number of 32 bits. -/
def version? : Toml.Node → Option UInt32
  | .integer v => if 0 ≤ v && v < Nat.pow 2 32 then some (UInt32.ofNat v.toNat) else none
  | _ => none

def switch? : Toml.Node → Option Bool
  | .boolean b => some b
  | _ => none

def fileName? : Toml.Node → Option String
  | .string s => some s
  | _ => none

def ofEntries? (t : Toml.Entries) : Option Settings := do
  let version ← readKey t "version" standard.version version?
  let debug ← readKey t "debug" standard.debug switch?
  let strict ← readKey t "strict" standard.strict switch?
  let gamedata ← readKey t "gamedata" standard.gamedata fileName?
  return ⟨version, debug, strict, gamedata⟩

def read (text : String) : Except SettingsError Settings :=
  match (Toml.read? text.toList).bind ofEntries? with
  | some settings => .ok settings
  | none => .error .malformed

def switchText (b : Bool) : String := if b then "true" else "false"

/-- The document of some settings: one line for each. -/
def text (s : Settings) : String :=
  "version = " ++ decimal s.version.toNat ++ "\n" ++
    "debug = " ++ switchText s.debug ++ "\n" ++
    "strict = " ++ switchText s.strict ++ "\n" ++
    "gamedata = " ++ Toml.Quoted.encode s.gamedata ++ "\n"

end Settings

end Interpose

import Interpose.AnchorTable
import Interpose.FileTree
import Interpose.Settings.File
import Interpose.Text.Utf8

/-!
The home directory of an installation, with the settings in `configs/core.toml` and the files with
anchors under `gamedata`.
-/

set_option autoImplicit false
set_option relaxedAutoImplicit false

namespace Interpose

/-- An installation: what is in its home directory. -/
structure Home where
  tree : FileTree

namespace Home

def empty : Home := ⟨.empty⟩

def settingsPath : Path := ["configs", "core.toml"]

/-- The names on the way to a file of anchors. -/
def anchorNames (file : String) : List String := "gamedata" :: file.splitOn "/"

/-- Writes a file of anchors. A name from the root on leads out of the home directory. -/
def writeAnchors? (h : Home) (file text : String) : Option Home :=
  if file.startsWith "/" then none
  else (h.tree.write? (anchorNames file) (Text.Utf8.encode text)).map Home.mk

/-- The text of a file of anchors, if there is one. Nothing is known of what is outside the home
directory. -/
def anchorText? (h : Home) (file : String) : Option String :=
  if file.startsWith "/" then none
  else
    ((h.tree.follow? [] (anchorNames file)).bind h.tree.content?).bind Text.Utf8.decode?

def loadAnchors (h : Home) (file : String) : Except AnchorError AnchorTable :=
  match h.anchorText? file with
  | some text => AnchorTable.read text
  | none => .error .unreadable

def writeSettings (h : Home) (content : List UInt8) : Except SettingsError Home :=
  match h.tree.write? settingsPath content with
  | some tree => .ok ⟨tree⟩
  | none => .error .inaccessible

def removeSettings (h : Home) : Home := ⟨h.tree.remove settingsPath⟩

def save (h : Home) (s : Settings) : Except SettingsError Home :=
  h.writeSettings (Text.Utf8.encode s.text)

def reload (h : Home) : Except SettingsError Settings :=
  match (h.tree.content? settingsPath).bind Text.Utf8.decode? with
  | some text => Settings.read text
  | none => .error .inaccessible

def hasSettings (h : Home) : Bool :=
  h.tree.isFile settingsPath || h.tree.isDirectory settingsPath

/-- The settings in their file. Where there is none, one with the standard settings is written. -/
def load (h : Home) : Except SettingsError Settings × Home :=
  if h.hasSettings then (h.reload, h)
  else
    match h.save .standard with
    | .ok written => (.ok .standard, written)
    | .error e => (.error e, h)

/-- The settings as they are in the file now, with faults shown, if there is a file. -/
def settingsText? (h : Home) : Option String :=
  (h.tree.content? settingsPath).map Text.Utf8.lossy

/-- A path as it is written, without the slashes and lone dots at its end. -/
def trimmed (path : List Char) : List Char :=
  let rec go : List Char → List Char
    | '.' :: '/' :: rest => go ('/' :: rest)
    | '/' :: rest => go rest
    | s => s
  (go path.reverse).reverse

/-- The path of a file of anchors as it is written. A name from the root on stands for itself. -/
def anchorPath (file : String) : String :=
  if file.startsWith "/" then file
  else String.ofList (trimmed ("gamedata/" ++ file).toList)

/-- The directory of settings, the file of settings and a file of anchors, as they are written. -/
def paths (file : String) : List String :=
  ["/".intercalate settingsPath.dropLast, "/".intercalate settingsPath, anchorPath file]

end Home

end Interpose

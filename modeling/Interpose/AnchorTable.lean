import Interpose.Json
import Interpose.Pattern.Reader

/-!
Anchor tables: the patterns of the extension points by name, kept in a file apart from the code so
that another build of the host needs a further fallback only. The file is a JSON object; each
anchor has a primary pattern and may have fallbacks for other builds.
-/

set_option autoImplicit false
set_option relaxedAutoImplicit false

namespace Interpose

open Interpose.Text (decimal)

inductive AnchorError
  /-- The file cannot be read. -/
  | unreadable
  /-- The text is not a table of anchors. -/
  | malformed
  | notFound (anchor : String)
  | invalidPattern (anchor : String) (fault : PatternFault)
  deriving DecidableEq

def AnchorError.kind : AnchorError → String
  | .unreadable => "IoError"
  | .malformed => "ParseError"
  | .notFound _ => "AnchorNotFound"
  | .invalidPattern _ fault => "InvalidPattern." ++ fault.kind

def AnchorError.message : AnchorError → String
  | .unreadable => "Failed to read gamedata file"
  | .malformed => "Failed to parse gamedata JSON"
  | .notFound anchor => "Anchor not found: " ++ anchor
  | .invalidPattern anchor fault =>
    "Invalid pattern for anchor '" ++ anchor ++ "': " ++ fault.message

structure AnchorEntry where
  primary : String
  fallbacks : List String
  deriving DecidableEq

namespace AnchorEntry

def text? : Json → Option String
  | .string points => Json.text? points
  | _ => none

def texts? : Json → Option (List String)
  | .array items => items.mapM text?
  | _ => none

def valuesOf (key : String) (members : List (String × Json)) : List Json :=
  (members.filter fun m => m.1 = key).map (·.2)

/-- An anchor with its parts named. Neither part may be repeated, and other members do not
count. -/
def ofMembers? (members : List (String × Json)) : Option AnchorEntry :=
  match valuesOf "primary" members, valuesOf "fallbacks" members with
  | [primary], [] => (text? primary).map fun p => ⟨p, []⟩
  | [primary], [fallbacks] =>
    match text? primary, texts? fallbacks with
    | some p, some f => some ⟨p, f⟩
    | _, _ => none
  | _, _ => none

def ofJson? : Json → Option AnchorEntry
  | .object members => (members.mapM Json.named?).bind ofMembers?
  | .array [primary] => (text? primary).map fun p => ⟨p, []⟩
  | .array [primary, fallbacks] =>
    match text? primary, texts? fallbacks with
    | some p, some f => some ⟨p, f⟩
    | _, _ => none
  | _ => none

/-- The patterns of fallbacks numbered from `n`: errors call them by the anchor and the number. -/
def readFallbacks (anchor : String) : (n : Nat) → List String → Except PatternFault (List Pattern)
  | _, [] => .ok []
  | n, text :: rest =>
    match Pattern.read (anchor ++ "#" ++ decimal n) text with
    | .error e => .error e
    | .ok p => (readFallbacks anchor (n + 1) rest).map (p :: ·)

def read (anchor : String) (e : AnchorEntry) : Except AnchorError PatternSet :=
  match Pattern.read anchor e.primary with
  | .error fault => .error (.invalidPattern anchor fault)
  | .ok primary =>
    match readFallbacks anchor 1 e.fallbacks with
    | .error fault => .error (.invalidPattern anchor fault)
    | .ok fallbacks => .ok ⟨primary, fallbacks⟩

end AnchorEntry

/-- The patterns of anchors, in the order of the anchors' names. -/
structure AnchorTable where
  entries : List (String × PatternSet)

namespace AnchorTable

def empty : AnchorTable := ⟨[]⟩

/-- Puts a named value in its place, instead of one that has its name already. -/
def insertSorted {α : Type} (name : String) (value : α) : List (String × α) → List (String × α)
  | [] => [(name, value)]
  | e :: rest =>
    if name < e.1 then (name, value) :: e :: rest
    else if name = e.1 then (name, value) :: rest
    else e :: insertSorted name value rest

def entryOf? (member : List Nat × Json) : Option (String × AnchorEntry) :=
  match Json.text? member.1, AnchorEntry.ofJson? member.2 with
  | some name, some entry => some (name, entry)
  | _, _ => none

/-- The anchors of a document. Of a repeated name the last counts, but each must be an anchor. -/
def entriesOf? : Json → Option (List (String × AnchorEntry))
  | .object members =>
    (members.mapM entryOf?).map (List.foldl (fun sorted e => insertSorted e.1 e.2 sorted) [])
  | _ => none

def readEntries : List (String × AnchorEntry) → Except AnchorError (List (String × PatternSet))
  | [] => .ok []
  | (name, entry) :: rest =>
    match entry.read name with
    | .error e => .error e
    | .ok set => (readEntries rest).map ((name, set) :: ·)

/-- The table of a text. All of the text is read before the first pattern is. -/
def read (text : String) : Except AnchorError AnchorTable :=
  match (Json.read? text.toList).bind entriesOf? with
  | none => .error .malformed
  | some entries => (readEntries entries).map AnchorTable.mk

def names (t : AnchorTable) : List String := t.entries.map (·.1)

def contains (t : AnchorTable) (name : String) : Bool := (t.entries.lookup name).isSome

def find (t : AnchorTable) (name : String) : Except AnchorError PatternSet :=
  match t.entries.lookup name with
  | some set => .ok set
  | none => .error (.notFound name)

end AnchorTable

end Interpose

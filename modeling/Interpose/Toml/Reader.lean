import Interpose.Toml.Number
import Interpose.Toml.Tree

/-!
Reading TOML documents: values, lines and headers. A document is a row of lines, each of them blank,
a header, or a key with its value; keys belong to the table of the last header.
-/

set_option autoImplicit false
set_option relaxedAutoImplicit false

namespace Interpose.Toml

open Interpose.Text (isDigit stripStart)

abbrev ValueReader := List Char → Option (Node × List Char)

/-- The items of an array behind its opening bracket, separated by commas; a comma may follow the
last one. -/
def readItems (read : ValueReader) : (fuel : Nat) → List Char → Option (List Node × List Char)
  | 0, _ => none
  | fuel + 1, s =>
    match skipTrivia false s with
    | ']' :: rest => some ([], rest)
    | s =>
      match read s with
      | none => none
      | some (item, rest) =>
        match skipTrivia false rest with
        | ',' :: rest => (readItems read fuel rest).map fun (items, rest) => (item :: items, rest)
        | ']' :: rest => some ([item], rest)
        | _ => none

def readPair (read : ValueReader) (s : List Char) :
    Option ((List String × Node) × List Char) :=
  match readKey s with
  | some (key, '=' :: rest) =>
    (read (skipSpace rest)).map fun (node, rest) => ((key, node), rest)
  | _ => none

/-- The pairs of an inline table that has some, behind its opening brace. -/
def readPairs (read : ValueReader) :
    (fuel : Nat) → List Char → Option (List (List String × Node) × List Char)
  | 0, _ => none
  | fuel + 1, s =>
    match readPair read s with
    | none => none
    | some (pair, rest) =>
      match skipSpace rest with
      | ',' :: rest => (readPairs read fuel rest).map fun (pairs, rest) => (pair :: pairs, rest)
      | '\x7d' :: rest => some ([pair], rest)
      | _ => none

def readInline (read : ValueReader) (s : List Char) : Option (Node × List Char) :=
  match skipSpace s with
  | '\x7d' :: rest => some (.inline [], rest)
  | _ =>
    match readPairs read s.length s with
    | none => none
    | some (pairs, rest) => (Entries.ofPairs pairs).map fun t => (.inline t, rest)

def readQuantity (s : List Char) : Option (Node × List Char) :=
  match skipDateTime s with
  | some rest => some (.dateTime, rest)
  | none =>
    match readNumber s with
    | some (some v, rest) => some (.integer v, rest)
    | some (none, rest) => some (.float, rest)
    | none => none

def readScalar : ValueReader
  | '"' :: rest => (readString ('"' :: rest)).map fun (text, rest) => (.string (.ofList text), rest)
  | '\'' :: rest =>
    (readString ('\'' :: rest)).map fun (text, rest) => (.string (.ofList text), rest)
  | 't' :: rest => (stripStart "rue".toList rest).map fun rest => (.boolean true, rest)
  | 'f' :: rest => (stripStart "alse".toList rest).map fun rest => (.boolean false, rest)
  | 'i' :: rest => (stripStart "nf".toList rest).map fun rest => (.float, rest)
  | 'n' :: rest => (stripStart "an".toList rest).map fun rest => (.float, rest)
  | c :: rest =>
    if isDigit c || c = '+' || c = '-' then readQuantity (c :: rest) else none
  | [] => none

/-- A value, with arrays and inline tables nested up to a number of levels. -/
def readValue : (levels : Nat) → ValueReader
  | levels, '[' :: rest =>
    match levels with
    | 0 => none
    | levels + 1 =>
      (readItems (readValue levels) (rest.length + 1) rest).map fun (items, rest) =>
        (.array items, rest)
  | levels, '\x7b' :: rest =>
    match levels with
    | 0 => none
    | levels + 1 => readInline (readValue levels) rest
  | _, s => readScalar s

/-- A document under way: its tables, and the path of the last header. -/
structure Draft where
  root : Entries
  path : List String

/-- The header behind its opening bracket, and the text behind its line. -/
def readHeader (d : Draft) (s : List Char) : Option (Draft × List Char) :=
  let (isRow, s) := match s with
    | '[' :: rest => (true, rest)
    | _ => (false, s)
  match readKey s with
  | none => none
  | some (path, rest) =>
    match stripStart (if isRow then [']', ']'] else [']']) rest with
    | none => none
    | some rest =>
      match lineEnd? rest, d.root.header isRow path with
      | some rest, some root => some (⟨root, path⟩, rest)
      | _, _ => none

/-- A key with its value, and the text behind its line. -/
def readLine (d : Draft) (s : List Char) : Option (Draft × List Char) :=
  match readPair (readValue (nestingLimit - 1)) s with
  | none => none
  | some ((key, node), rest) =>
    match lineEnd? rest, d.root.atHeader (Entries.addKey key node) d.path with
    | some rest, some root => some (⟨root, d.path⟩, rest)
    | _, _ => none

def readLines : (fuel : Nat) → Draft → List Char → Option Entries
  | _, d, [] => some d.root
  | 0, _, _ => none
  | fuel + 1, d, s =>
    match lineEnd? s with
    | some rest => readLines fuel d rest
    | none =>
      let step := match skipSpace s with
        | '[' :: rest => readHeader d rest
        | s => readLine d s
      match step with
      | some (d, rest) => readLines fuel d rest
      | none => none

/-- The tables of a document. A byte order mark may stand in front. Every line takes a character at
least, so that the length of the text is fuel enough. -/
def read? (s : List Char) : Option Entries :=
  let s := match s with
    | '\ufeff' :: rest => rest
    | _ => s
  readLines s.length ⟨[], []⟩ s

end Interpose.Toml

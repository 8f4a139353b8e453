/-!
The tables of TOML documents. A table may be implied by the header of a table inside it and defined
later; a table that dotted keys made can only be extended by dotted keys, and one that a header
defined only by the lines under it. No key is given twice.
-/

set_option autoImplicit false
set_option relaxedAutoImplicit false

namespace Interpose.Toml

/-- How a table came to be. -/
inductive Origin
  /-- By its own header. -/
  | defined
  /-- By the header of a table inside it. -/
  | implied
  /-- By a dotted key. -/
  | dotted
  deriving DecidableEq

/-- What a key stands for. Of floats, dates and times nothing is kept. -/
inductive Node
  | string (text : String)
  | integer (value : Int)
  | boolean (value : Bool)
  | float
  | dateTime
  | array (items : List Node)
  | inline (entries : List (String × Node))
  | table (origin : Origin) (entries : List (String × Node))
  /-- An array of tables, one header for each. -/
  | rows (rows : List (List (String × Node)))

abbrev Entries := List (String × Node)

namespace Entries

/-- Puts a node in the place of the one that a key stands for. -/
def replace (key : String) (node : Node) (t : Entries) : Entries :=
  t.map fun e => if e.1 = key then (key, node) else e

def add (key : String) (node : Node) (t : Entries) : Option Entries :=
  if (t.lookup key).isSome then none else some (t ++ [(key, node)])

/-- Changes the last row of an array of tables. -/
def atLastRow (f : Entries → Option Entries) (rows : List Entries) : Option Node :=
  match rows.getLast? with
  | some row => (f row).map fun row => .rows (rows.dropLast ++ [row])
  | none => none

/-- Changes the table that the path of a header leads to. Tables on the way are implied; of an array
of tables the last row counts. -/
def atHeader (f : Entries → Option Entries) : (path : List String) → Entries → Option Entries
  | [], t => f t
  | key :: path, t =>
    match t.lookup key with
    | none => (atHeader f path []).map fun inner => t ++ [(key, .table .implied inner)]
    | some (.table origin inner) =>
      (atHeader f path inner).map fun inner => replace key (.table origin inner) t
    | some (.rows rows) => (atLastRow (atHeader f path) rows).map fun node => replace key node t
    | some _ => none

/-- Adds what a dotted key stands for. The tables on the way must not be defined by a header, and
the last of them must be made by dotted keys alone. -/
def addDotted (last : String) (node : Node) : (path : List String) → Entries → Option Entries
  | [], t => t.add last node
  | key :: path, t =>
    match t.lookup key with
    | none => (addDotted last node path []).map fun inner => t ++ [(key, .table .dotted inner)]
    | some (.table .dotted inner) =>
      (addDotted last node path inner).map fun inner => replace key (.table .dotted inner) t
    | some (.table .implied inner) =>
      if path.isEmpty then none
      else
        (addDotted last node path inner).map fun inner => replace key (.table .implied inner) t
    | some (.rows rows) =>
      if path.isEmpty then none
      else (atLastRow (addDotted last node path) rows).map fun node => replace key node t
    | some _ => none

/-- Adds what a key of one or more parts stands for. -/
def addKey (key : List String) (node : Node) (t : Entries) : Option Entries :=
  match key.getLast? with
  | some last => addDotted last node key.dropLast t
  | none => none

/-- Defines a table under a key, which may be implied already. -/
def define (key : String) (t : Entries) : Option Entries :=
  match t.lookup key with
  | none => some (t ++ [(key, .table .defined [])])
  | some (.table .implied inner) => some (replace key (.table .defined inner) t)
  | some _ => none

def addRow (key : String) (t : Entries) : Option Entries :=
  match t.lookup key with
  | none => some (t ++ [(key, .rows [[]])])
  | some (.rows rows) => some (replace key (.rows (rows ++ [[]])) t)
  | some _ => none

/-- Carries out the header of a table, or of a row of an array of tables. -/
def header (isRow : Bool) (path : List String) (t : Entries) : Option Entries :=
  match path.getLast? with
  | some last => atHeader (if isRow then addRow last else define last) path.dropLast t
  | none => none

def ofPairs (pairs : List (List String × Node)) : Option Entries :=
  pairs.foldlM (fun t (key, node) => t.addKey key node) []

end Entries

end Interpose.Toml

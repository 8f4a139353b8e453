import Interpose.Body

/-!
Instruction streams: a method body while it is being edited. Every instruction has a position that
stays with it whatever is inserted or removed around it, and labels stand at positions. A stream is
a list of cells in order, each an instruction at its position.
-/

set_option autoImplicit false
set_option relaxedAutoImplicit false

namespace Interpose

open Interpose.Text (decimal)

/-- The identity of one instruction of a stream. Serial numbers are handed out once only. -/
structure Position where
  serial : Nat
  deriving DecidableEq, Inhabited

/-- The instructions from one position to another, both included. -/
structure Span where
  first : Position
  last : Position
  deriving DecidableEq

def Span.single (p : Position) : Span := ⟨p, p⟩

structure Cell where
  pos : Position
  insn : Instruction
  deriving DecidableEq

inductive StreamError
  | unknownPosition
  | unboundLabel (label : Label)
  | labelAlreadyBound (label : Label)
  | duplicateBinding (label : Label)
  | bindingOutOfRange (label : Label) (index len : Nat)
  | emptyBlock
  | invalidSpan
  | orphanedLabel (label : Label)
  | notFound (description : String)
  deriving DecidableEq

def StreamError.kind : StreamError → String
  | .unknownPosition => "UnknownPosition"
  | .unboundLabel _ => "UnboundLabel"
  | .labelAlreadyBound _ => "LabelAlreadyBound"
  | .duplicateBinding _ => "DuplicateBinding"
  | .bindingOutOfRange .. => "BindingOutOfRange"
  | .emptyBlock => "EmptyBlock"
  | .invalidSpan => "InvalidSpan"
  | .orphanedLabel _ => "OrphanedLabel"
  | .notFound _ => "NotFound"

def StreamError.message : StreamError → String
  | .unknownPosition => "Position is not part of this stream"
  | .unboundLabel l => "Label " ++ l.text ++ " is referenced but never bound"
  | .labelAlreadyBound l => "Label " ++ l.text ++ " is already bound"
  | .duplicateBinding l => "Label " ++ l.text ++ " is bound twice in one block"
  | .bindingOutOfRange l index len =>
    "Block binds label " ++ l.text ++ " to index " ++ decimal index ++ " but has " ++
      decimal len ++ " instructions"
  | .emptyBlock => "Cannot insert an empty block"
  | .invalidSpan => "Span end does not follow span start"
  | .orphanedLabel l => "Removing the span would orphan label " ++ l.text
  | .notFound description => "No instruction matching " ++ description

/-- A body under edit. -/
structure Stream where
  cells : List Cell
  labels : LabelTable Position
  /-- The serial number of the next position. -/
  nextSerial : Nat
  /-- The number of the next label to define. It wraps around. -/
  nextLabel : UInt32
  returns : Bool
  deriving DecidableEq

namespace Stream

/-- Instructions at consecutive new positions. -/
def numbered : (serial : Nat) → List Instruction → List Cell
  | _, [] => []
  | serial, insn :: rest => ⟨⟨serial⟩, insn⟩ :: numbered (serial + 1) rest

/-- The cells in front of a position and those from it on. -/
def splitAt? (p : Position) : List Cell → Option (List Cell × List Cell)
  | [] => none
  | c :: cs =>
    if c.pos = p then some ([], c :: cs)
    else (splitAt? p cs).map fun (before, onward) => (c :: before, onward)

def empty : Stream := ⟨[], .empty, 0, 0, false⟩

def ofInstructions (code : List Instruction) : Stream :=
  { empty with cells := numbered 0 code, nextSerial := code.length }

/-- The stream of a method that returns a value, or of one that does not. -/
def withReturns (s : Stream) (returns : Bool) : Stream := { s with returns }

def positions (s : Stream) : List Position := s.cells.map (·.pos)

def code (s : Stream) : List Instruction := s.cells.map (·.insn)

def contains (s : Stream) (p : Position) : Bool := (splitAt? p s.cells).isSome

def before (s : Stream) (p : Position) : List Cell :=
  match splitAt? p s.cells with
  | some (before, _) => before
  | none => []

def onward (s : Stream) (p : Position) : List Cell :=
  match splitAt? p s.cells with
  | some (_, onward) => onward
  | none => []

def first? (s : Stream) : Option Position := s.cells.head?.map (·.pos)

def last? (s : Stream) : Option Position := s.cells.getLast?.map (·.pos)

def next? (s : Stream) (p : Position) : Option Position := (s.onward p)[1]?.map (·.pos)

def prev? (s : Stream) (p : Position) : Option Position := (s.before p).getLast?.map (·.pos)

def insn? (s : Stream) (p : Position) : Option Instruction := (s.onward p).head?.map (·.insn)

/-- The number of instructions in front of a position. -/
def index? (s : Stream) (p : Position) : Option Nat :=
  (splitAt? p s.cells).map fun (before, _) => before.length

/-- The position with a number of instructions in front of it. -/
def position? (s : Stream) (index : Nat) : Option Position := s.cells[index]?.map (·.pos)

/-- The cells in front of a span, those of the span, and those behind it. -/
def cut (s : Stream) (span : Span) : Except StreamError (List Cell × List Cell × List Cell) :=
  match splitAt? span.first s.cells, splitAt? span.last s.cells with
  | some (before, onward), some _ =>
    match splitAt? span.last onward with
    | some (inner, final) => .ok (before, inner ++ final.take 1, final.drop 1)
    | none => .error .invalidSpan
  | _, _ => .error .unknownPosition

def spanPositions (s : Stream) (span : Span) : Except StreamError (List Position) :=
  match s.cut span with
  | .ok (_, inside, _) => .ok (inside.map (·.pos))
  | .error e => .error e

def labelsAt (s : Stream) (p : Position) : List Label :=
  (s.labels.entries.filter fun e => e.2 = p).map (·.1)

def branchTarget? (s : Stream) (p : Position) : Option Position :=
  match (s.insn? p).map Instruction.branchTargets with
  | some [l] => s.labels.find? l
  | _ => none

/-- Every branch target stands at an instruction of the stream. -/
def validate (s : Stream) : Except StreamError Unit :=
  let lost := (s.code.flatMap Instruction.branchTargets).find? fun l =>
    !((s.labels.find? l).any s.contains)
  match lost with
  | some l => .error (.unboundLabel l)
  | none => .ok ()

end Stream

end Interpose

import Interpose.Pattern.Search
import Interpose.Stream.Edit

/-!
A cursor on a stream: it stands on an instruction, or past the last one. Searches go forward from
the cursor or strictly backward, and leave it where it is if they fail. What is emitted goes in
front of the cursor, which does not move, or behind it, where it moves on to the last instruction
emitted.
-/

set_option autoImplicit false
set_option relaxedAutoImplicit false

namespace Interpose

/-- A place in a stream under edit; none is past the end. -/
structure Cursor where
  stream : Stream
  current : Option Position
  deriving DecidableEq

namespace Cursor

/-- The result of a cursor operation or its refusal, and the cursor afterwards. -/
abbrev Outcome (α : Type) := Except StreamError α × Cursor

def start (s : Stream) : Cursor := ⟨s, s.first?⟩

def on (s : Stream) (p : Position) : Except StreamError Cursor :=
  if s.contains p then .ok ⟨s, some p⟩ else .error .unknownPosition

def insn? (c : Cursor) : Option Instruction := c.current.bind c.stream.insn?

def isAtEnd (c : Cursor) : Bool := c.current.isNone

def goto (c : Cursor) (p : Position) : Outcome Unit :=
  if c.stream.contains p then (.ok (), { c with current := some p })
  else (.error .unknownPosition, c)

def gotoStart (c : Cursor) : Cursor := { c with current := c.stream.first? }

def gotoEnd (c : Cursor) : Cursor := { c with current := none }

def advance (c : Cursor) : Bool × Cursor :=
  let next := c.current.bind c.stream.next?
  (next.isSome, { c with current := next })

def ahead (c : Cursor) : List Cell :=
  match c.current with
  | some p => c.stream.onward p
  | none => []

/-- The cells in front of the cursor, the nearest first. -/
def behind (c : Cursor) : List Cell :=
  match c.current with
  | some p => (c.stream.before p).reverse
  | none => c.stream.cells.reverse

/-- Moves to the first of some cells that a predicate accepts. -/
def gotoAmong (c : Cursor) (predicate : Predicate) (cells : List Cell) : Outcome Position :=
  match cells.find? fun cell => predicate.accepts cell.insn with
  | some cell => (.ok cell.pos, { c with current := some cell.pos })
  | none => (.error (.notFound predicate.description), c)

/-- Moves to the first accepted instruction at or behind the cursor. -/
def gotoNext (c : Cursor) (predicate : Predicate) : Outcome Position :=
  c.gotoAmong predicate c.ahead

/-- Moves to the nearest accepted instruction in front of the cursor. -/
def gotoPrev (c : Cursor) (predicate : Predicate) : Outcome Position :=
  c.gotoAmong predicate c.behind

/-- Moves behind the first window of a pattern that starts at or behind the cursor. -/
def gotoNextPattern (c : Cursor) (pattern : Pattern) : Outcome Span :=
  match pattern.findIn c.ahead with
  | some span => (.ok span, { c with current := c.stream.next? span.last })
  | none => (.error (.notFound pattern.text), c)

/-- Moves behind the first run of instructions that satisfy the predicates one by one. -/
def gotoNextSequence (c : Cursor) (predicates : List Predicate) : Outcome Span :=
  c.gotoNextPattern (.contiguous "sequence" predicates)

def branchTarget? (c : Cursor) : Option Position := c.current.bind c.stream.branchTarget?

def incomingLabels (c : Cursor) : List Label :=
  match c.current with
  | some p => c.stream.labelsAt p
  | none => []

def defineLabel (c : Cursor) : Label × Cursor :=
  let (l, s) := c.stream.defineLabel
  (l, { c with stream := s })

def markLabel (c : Cursor) : Outcome Label :=
  match c.current with
  | none => (.error (.notFound "instruction to label"), c)
  | some p =>
    let (l, s) := c.stream.defineLabel
    match s.markLabel l p with
    | (.ok (), s) => (.ok l, { c with stream := s })
    | (.error e, s) => (.error e, { c with stream := s })

def emitBlock (c : Cursor) (b : Block) : Outcome Span :=
  let (result, s) := match c.current with
    | some p => c.stream.insertBefore p b
    | none => c.stream.append b
  (result, { c with stream := s })

def emit (c : Cursor) (insn : Instruction) : Outcome Position :=
  let (result, c) := c.emitBlock (.ofInstructions [insn])
  (result.map (·.first), c)

/-- Inserts a block behind the cursor, and moves to its last instruction. -/
def emitBlockAfter (c : Cursor) (b : Block) : Outcome Span :=
  match c.current with
  | none => (.error (.notFound "instruction to emit after"), c)
  | some p =>
    match c.stream.insertAfter p b with
    | (.ok span, s) => (.ok span, ⟨s, some span.last⟩)
    | (.error e, s) => (.error e, { c with stream := s })

/-- Inserts an instruction behind the cursor, and moves to it. -/
def emitAfter (c : Cursor) (insn : Instruction) : Outcome Position :=
  let (result, c) := c.emitBlockAfter (.ofInstructions [insn])
  (result.map (·.last), c)

end Cursor

end Interpose

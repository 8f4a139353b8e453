import Interpose.Stream.Basic

/-!
Edits of a stream. An edit gives its result or a refusal, and the stream afterwards. Blocks of
instructions go in as a whole, together with the labels they bind; insertion moves no label, and
removal moves the labels of what it removes to the instruction behind it.
-/

set_option autoImplicit false
set_option relaxedAutoImplicit false

namespace Interpose

inductive Binding
  /-- At one of the block's own instructions. -/
  | inner (index : Nat)
  /-- At an instruction that is in the stream already. -/
  | existing (position : Position)
  deriving DecidableEq

/-- Instructions to insert together, and the labels bound by the insertion. -/
structure Block where
  code : List Instruction
  bindings : List (Label × Binding)
  deriving DecidableEq

namespace Block

def empty : Block := ⟨[], []⟩

def ofInstructions (code : List Instruction) : Block := ⟨code, []⟩

def push (b : Block) (insn : Instruction) : Block := { b with code := b.code ++ [insn] }

/-- Binds a label to the instruction pushed next. -/
def mark (b : Block) (l : Label) : Block :=
  { b with bindings := b.bindings ++ [(l, .inner b.code.length)] }

def bindExisting (b : Block) (l : Label) (p : Position) : Block :=
  { b with bindings := b.bindings ++ [(l, .existing p)] }

end Block

namespace Stream

/-- The result of an edit or its refusal, and the stream afterwards. -/
abbrev Outcome (α : Type) := Except StreamError α × Stream

/-- The label with the next number. It stands nowhere yet and has not been defined before, as long as
the numbers have not wrapped around. -/
def defineLabel (s : Stream) : Label × Stream :=
  (⟨s.nextLabel⟩, { s with nextLabel := s.nextLabel + 1 })

def bind (s : Stream) (l : Label) (p : Position) : Stream :=
  { s with labels := s.labels.insert l p, nextLabel := max s.nextLabel (l.id + 1) }

/-- Binds a label that stands nowhere yet. -/
def markLabel (s : Stream) (l : Label) (p : Position) : Outcome Unit :=
  if !s.contains p then (.error .unknownPosition, s)
  else if s.labels.contains l then (.error (.labelAlreadyBound l), s)
  else (.ok (), s.bind l p)

def retarget (s : Stream) (l : Label) (p : Position) : Outcome Unit :=
  if !s.contains p then (.error .unknownPosition, s)
  else if !s.labels.contains l then (.error (.unboundLabel l), s)
  else (.ok (), { s with labels := s.labels.insert l p })

/-- Checks the bindings of a block with `size` instructions in order, and collects their labels. -/
def checkBindings (s : Stream) (size : Nat) :
    (bound : List Label) → List (Label × Binding) → Except StreamError (List Label)
  | bound, [] => .ok bound
  | bound, (l, binding) :: rest =>
    if s.labels.contains l then .error (.labelAlreadyBound l)
    else if bound.contains l then .error (.duplicateBinding l)
    else
      match binding with
      | .inner index =>
        if size ≤ index then .error (.bindingOutOfRange l index size)
        else checkBindings s size (l :: bound) rest
      | .existing p =>
        if s.contains p then checkBindings s size (l :: bound) rest else .error .unknownPosition

/-- A block goes in if it has instructions, its bindings are sound, and every label that it
mentions is bound in the stream or by the block. -/
def checkBlock (s : Stream) (b : Block) : Except StreamError Unit :=
  if b.code.isEmpty then .error .emptyBlock
  else
    match s.checkBindings b.code.length [] b.bindings with
    | .error e => .error e
    | .ok bound =>
      let free := (b.code.flatMap fun insn => insn.operand.mentioned).find? fun l =>
        !s.labels.contains l && !bound.contains l
      match free with
      | some l => .error (.unboundLabel l)
      | none => .ok ()

/-- The position that a binding of a block inserted at `serial` stands for. -/
def bindingPosition (serial : Nat) : Binding → Position
  | .inner index => ⟨serial + index⟩
  | .existing p => p

def commit (s : Stream) (before after : List Cell) (b : Block) : Span × Stream :=
  let serial := s.nextSerial
  let inserted := { s with
    cells := before ++ numbered serial b.code ++ after
    nextSerial := serial + b.code.length }
  (⟨⟨serial⟩, ⟨serial + b.code.length - 1⟩⟩,
    b.bindings.foldl (fun s (l, binding) => s.bind l (bindingPosition serial binding)) inserted)

/-- Puts a block between two parts of the stream if it is sound. -/
def insertBetween (s : Stream) (before after : List Cell) (b : Block) : Outcome Span :=
  match s.checkBlock b with
  | .error e => (.error e, s)
  | .ok () =>
    let (span, s) := s.commit before after b
    (.ok span, s)

/-- Inserts a block so that it ends right in front of a position. -/
def insertBefore (s : Stream) (p : Position) (b : Block) : Outcome Span :=
  match splitAt? p s.cells with
  | none => (.error .unknownPosition, s)
  | some (before, onward) => s.insertBetween before onward b

/-- Inserts a block so that it starts right behind a position. -/
def insertAfter (s : Stream) (p : Position) (b : Block) : Outcome Span :=
  match splitAt? p s.cells with
  | none => (.error .unknownPosition, s)
  | some (before, onward) => s.insertBetween (before ++ onward.take 1) (onward.drop 1) b

def append (s : Stream) (b : Block) : Outcome Span := s.insertBetween s.cells [] b

/-- Removes the instructions of a span. Labels inside it move to the instruction behind it; where
there is none for them, nothing is removed. -/
def remove (s : Stream) (span : Span) : Outcome (List Instruction) :=
  match s.cut span with
  | .error e => (.error e, s)
  | .ok (before, inside, after) =>
    let doomed := inside.map (·.pos)
    let moved := (s.labels.entries.filter fun e => doomed.contains e.2).map (·.1)
    match moved, after with
    | l :: _, [] => (.error (.orphanedLabel l), s)
    | _, _ =>
      let labels := match after with
        | [] => s.labels
        | c :: _ => s.labels.filterMap fun p => some (if doomed.contains p then c.pos else p)
      (.ok (inside.map (·.insn)), { s with cells := before ++ after, labels })

/-- Puts another instruction at a position, which keeps its identity and its labels. -/
def replace (s : Stream) (p : Position) (insn : Instruction) : Outcome Instruction :=
  match insn.branchTargets.find? fun l => !s.labels.contains l with
  | some l => (.error (.unboundLabel l), s)
  | none =>
    match s.insn? p with
    | none => (.error .unknownPosition, s)
    | some old =>
      (.ok old, { s with cells := s.cells.map fun c => if c.pos = p then { c with insn } else c })

end Stream

end Interpose

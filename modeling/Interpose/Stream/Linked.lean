import Interpose.Stream.Edit
import Interpose.Stream.Loading
import Interpose.Stream.SlotMap

/-!
Streams in storage: the instructions in a slot map, each linked to the one in front of it and the
one behind it, and the two ends of the chain. Every edit is local: it changes the links around the
place of the edit, and the ends if the place is there. An operation that follows a link to a node
that is gone faults, and one that runs along links without end does not come back; both have no
result here.
-/

set_option autoImplicit false
set_option relaxedAutoImplicit false

namespace Interpose

/-- Where a block of `size` new instructions binds its labels is checked in order, against the
labels bound already and those bound by the block so far. -/
def Block.checkBinding (labels : LabelTable Position) (live : Position → Bool) (size : Nat)
    (bound : List Label) : Label × Binding → Except StreamError (List Label)
  | (l, binding) =>
    if labels.contains l then .error (.labelAlreadyBound l)
    else if bound.contains l then .error (.duplicateBinding l)
    else
      match binding with
      | .inner index =>
        if size ≤ index then .error (.bindingOutOfRange l index size) else .ok (l :: bound)
      | .existing p => if live p then .ok (l :: bound) else .error .unknownPosition

/-- A block with instructions whose bindings are sound mentions only labels that are bound. -/
def Block.check (labels : LabelTable Position) (live : Position → Bool) (b : Block) :
    Except StreamError Unit :=
  if b.code.isEmpty then .error .emptyBlock
  else
    match b.bindings.foldlM (checkBinding labels live b.code.length) [] with
    | .error e => .error e
    | .ok bound =>
      let free := (b.code.flatMap fun insn => insn.operand.mentioned).find? fun l =>
        !labels.contains l && !bound.contains l
      match free with
      | some l => .error (.unboundLabel l)
      | none => .ok ()

/-- A stream in storage. -/
structure LinkedStream (σ : Type) where
  nodes : σ
  head : Option Position
  tail : Option Position
  labels : LabelTable Position
  nextLabel : UInt32
  returns : Bool

namespace LinkedStream

variable {σ : Type} (m : SlotMap σ)

/-- The result of an edit or its refusal, with the stream afterwards; none for a fault. -/
abbrev Outcome (σ α : Type) := Option (Except StreamError α × LinkedStream σ)

def empty : LinkedStream σ := ⟨m.empty, none, none, .empty, 0, false⟩

/-! ### Observing -/

def contains (s : LinkedStream σ) (p : Position) : Bool := (m.get? s.nodes p).isSome

def size (s : LinkedStream σ) : Nat := m.size s.nodes

def first? (s : LinkedStream σ) : Option Position := s.head

def last? (s : LinkedStream σ) : Option Position := s.tail

def insn? (s : LinkedStream σ) (p : Position) : Option Instruction :=
  (m.get? s.nodes p).map (·.insn)

def next? (s : LinkedStream σ) (p : Position) : Option Position := (m.get? s.nodes p).bind (·.next)

def prev? (s : LinkedStream σ) (p : Position) : Option Position := (m.get? s.nodes p).bind (·.prev)

/-- The positions that the links lead to one after the other. -/
def walk (s : LinkedStream σ) (current : Option Position) : Option (List Position) :=
  match current with
  | none => some []
  | some p => do
    let rest ← s |>.walk (s.next? m p)
    some (p :: rest)
partial_fixpoint

def positions (s : LinkedStream σ) : Option (List Position) := s.walk m s.head

/-- The number of steps from the first position to a given one, if the steps lead there. -/
def index? (s : LinkedStream σ) (p : Position) : Option (Option Nat) :=
  (s.positions m).map fun ps => ps.findIdx? fun q => q = p

def position? (s : LinkedStream σ) (index : Nat) : Option (Option Position) :=
  (s.positions m).map fun ps => ps[index]?

/-- The positions up to `last`, which the links may miss. -/
def walkTo (s : LinkedStream σ) (last : Position) (current : Option Position) :
    Option (Except StreamError (List Position)) :=
  match current with
  | none => some (.error .invalidSpan)
  | some p =>
    if p = last then some (.ok [p])
    else do
      let rest ← s |>.walkTo last (s.next? m p)
      some (rest.map (p :: ·))
partial_fixpoint

def spanPositions (s : LinkedStream σ) (span : Span) :
    Option (Except StreamError (List Position)) :=
  if s.contains m span.first && s.contains m span.last then s.walkTo m span.last (some span.first)
  else some (.error .unknownPosition)

/-! ### Linking -/

/-- Lets a node lead on to a position, or the stream begin there. -/
def linkNext (s : LinkedStream σ) (node target : Option Position) : Option (LinkedStream σ) :=
  match node with
  | none => some { s with head := target }
  | some p => do
    let found ← m.get? s.nodes p
    some { s with nodes := m.set s.nodes p { found with next := target } }

/-- Lets a node lead back to a position, or the stream end there. -/
def linkPrev (s : LinkedStream σ) (node target : Option Position) : Option (LinkedStream σ) :=
  match node with
  | none => some { s with tail := target }
  | some p => do
    let found ← m.get? s.nodes p
    some { s with nodes := m.set s.nodes p { found with prev := target } }

def linkBack (s : LinkedStream σ) (insn : Instruction) : Option (Position × LinkedStream σ) := do
  let (p, nodes) := m.insert s.nodes ⟨insn, s.tail, none⟩
  let linked ← { s with nodes }.linkNext m s.tail (some p)
  some (p, { linked with tail := some p })

def linkAll (s : LinkedStream σ) : List Instruction → Option (List Position × LinkedStream σ)
  | [] => some ([], s)
  | insn :: rest => do
    let (p, s) ← s.linkBack m insn
    let (ps, s) ← linkAll s rest
    some (p :: ps, s)

/-! ### Loading -/

def ofInstructions (code : List Instruction) : Option (LinkedStream σ) :=
  ((empty m).linkAll m code).map (·.2)

def placeLabels (positions : List Position) (table : LabelTable Position) :
    List (Label × Nat) → Except StreamError (LabelTable Position)
  | [] => .ok table
  | (l, index) :: rest =>
    match positions[index]? with
    | some p => placeLabels positions (table.insert l p) rest
    | none => .error (.unboundLabel l)

/-- The number above a given one and those of all targets, which have to be bound. -/
def labelAbove (table : LabelTable Position) (n : UInt32) :
    List Label → Except StreamError UInt32
  | [] => .ok n
  | l :: rest =>
    if table.contains l then labelAbove table (max n (l.id + 1)) rest else .error (.unboundLabel l)

def ofBody (b : Body) : Option (Except StreamError (LinkedStream σ)) := do
  let (positions, s) ← { empty m with returns := b.returns }.linkAll m b.code
  match placeLabels positions .empty b.labels.entries with
  | .error e => some (.error e)
  | .ok labels =>
    let known := b.labels.labels.foldl (fun n l => max n (l.id + 1)) 0
    match labelAbove labels known (Stream.targets b) with
    | .error e => some (.error e)
    | .ok nextLabel => some (.ok { s with labels, nextLabel })

/-! ### Labels -/

def defineLabel (s : LinkedStream σ) : Label × LinkedStream σ :=
  (⟨s.nextLabel⟩, { s with nextLabel := s.nextLabel + 1 })

def bind (s : LinkedStream σ) (l : Label) (p : Position) : LinkedStream σ :=
  { s with labels := s.labels.insert l p, nextLabel := max s.nextLabel (l.id + 1) }

def markLabel (s : LinkedStream σ) (l : Label) (p : Position) :
    Except StreamError Unit × LinkedStream σ :=
  if !s.contains m p then (.error .unknownPosition, s)
  else if s.labels.contains l then (.error (.labelAlreadyBound l), s)
  else (.ok (), s.bind l p)

def retarget (s : LinkedStream σ) (l : Label) (p : Position) :
    Except StreamError Unit × LinkedStream σ :=
  if !s.contains m p then (.error .unknownPosition, s)
  else if !s.labels.contains l then (.error (.unboundLabel l), s)
  else (.ok (), { s with labels := s.labels.insert l p })

/-! ### Editing -/

/-- Chains new nodes behind a node, or from the beginning. Gives their positions and the last node
of the chain. -/
def chain (s : LinkedStream σ) (last : Option Position) :
    List Instruction → Option (List Position × Option Position × LinkedStream σ)
  | [] => some ([], last, s)
  | insn :: rest => do
    let (p, nodes) := m.insert s.nodes ⟨insn, last, none⟩
    let s ← { s with nodes }.linkNext m last (some p)
    let (ps, last, s) ← chain s (some p) rest
    some (p :: ps, last, s)

/-- Binds the labels of a block, whose own instructions have the given positions. -/
def bindAll (s : LinkedStream σ) (inserted : List Position) :
    List (Label × Binding) → Option (LinkedStream σ)
  | [] => some s
  | (l, binding) :: rest => do
    let p ← match binding with
      | .inner index => inserted[index]?
      | .existing p => some p
    bindAll (s.bind l p) inserted rest

/-- Links the instructions of a block in between two nodes. -/
def commit (s : LinkedStream σ) (before after : Option Position) (b : Block) :
    Option (Span × LinkedStream σ) := do
  let (inserted, last, s) ← s.chain m before b.code
  let s ← s.linkPrev m after last
  let s ← match last with
    | some _ => s.linkNext m last after
    | none => some s
  let s ← s.bindAll inserted b.bindings
  let first ← inserted.head?
  let final ← inserted.getLast?
  some (⟨first, final⟩, s)

def insertBetween (s : LinkedStream σ) (before after : Option Position) (b : Block) :
    Outcome σ Span :=
  match b.check s.labels (s.contains m) with
  | .error e => some (.error e, s)
  | .ok () => (s.commit m before after b).map fun (span, s) => (.ok span, s)

def insertBefore (s : LinkedStream σ) (p : Position) (b : Block) : Outcome σ Span :=
  if s.contains m p then s.insertBetween m (s.prev? m p) (some p) b
  else some (.error .unknownPosition, s)

def insertAfter (s : LinkedStream σ) (p : Position) (b : Block) : Outcome σ Span :=
  if s.contains m p then s.insertBetween m (some p) (s.next? m p) b
  else some (.error .unknownPosition, s)

def append (s : LinkedStream σ) (b : Block) : Outcome σ Span := s.insertBetween m s.tail none b

def discard (nodes : σ) : List Position → List Instruction × σ
  | [] => ([], nodes)
  | p :: rest =>
    let (node, nodes) := m.remove nodes p
    let (code, nodes) := discard nodes rest
    ((node.map (·.insn)).toList ++ code, nodes)

/-- Links the nodes around some others to each other, lets labels stand at the node behind them, and
takes them out. -/
def cutOut (s : LinkedStream σ) (before after : Option Position) (doomed : List Position)
    (moved : List Label) : Option (List Instruction × LinkedStream σ) := do
  let s ← s.linkNext m before after
  let s ← s.linkPrev m after before
  let labels := match after with
    | some p => moved.foldl (fun labels l => labels.insert l p) s.labels
    | none => s.labels
  let (code, nodes) := discard m s.nodes doomed
  some (code, { s with nodes, labels })

def remove (s : LinkedStream σ) (span : Span) : Outcome σ (List Instruction) :=
  match s.spanPositions m span with
  | none => none
  | some (.error e) => some (.error e, s)
  | some (.ok doomed) =>
    let after := s.next? m span.last
    let moved := (s.labels.entries.filter fun e => doomed.contains e.2).map (·.1)
    match moved, after with
    | l :: _, none => some (.error (.orphanedLabel l), s)
    | _, _ =>
      (s.cutOut m (s.prev? m span.first) after doomed moved).map fun (code, s) => (.ok code, s)

def replace (s : LinkedStream σ) (p : Position) (insn : Instruction) :
    Except StreamError Instruction × LinkedStream σ :=
  match insn.branchTargets.find? fun l => !s.labels.contains l with
  | some l => (.error (.unboundLabel l), s)
  | none =>
    match m.get? s.nodes p with
    | none => (.error .unknownPosition, s)
    | some node => (.ok node.insn, { s with nodes := m.set s.nodes p { node with insn } })

end LinkedStream

end Interpose

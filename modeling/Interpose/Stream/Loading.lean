import Interpose.Control.Depths
import Interpose.Stream.Basic

/-!
Between bodies and streams. Loading accepts a body whose labels stand at instructions and whose
branches all have a target; writing back numbers the labels by the present indices of their
positions. Two streams are the same for an observer when their resolved code is.
-/

set_option autoImplicit false
set_option relaxedAutoImplicit false

namespace Interpose.Stream

open Interpose.Text (decimal fourDigits)

def targets (b : Body) : List Label := b.code.flatMap Instruction.branchTargets

/-- The stream of a body. The labels that it defines first have greater numbers than those that the
body binds or branches to. -/
def ofBody (b : Body) : Except StreamError Stream :=
  match b.labels.entries.find? fun e => b.code.length ≤ e.2 with
  | some (l, _) => .error (.unboundLabel l)
  | none =>
    match (targets b).find? fun l => !b.labels.contains l with
    | some l => .error (.unboundLabel l)
    | none => .ok {
        cells := numbered 0 b.code
        labels := b.labels.filterMap fun index => some ⟨index⟩
        nextSerial := b.code.length
        nextLabel := (b.labels.labels ++ targets b).foldl (fun n l => max n (l.id + 1)) 0
        returns := b.returns }

def toBody (s : Stream) : Body :=
  ⟨s.code, s.labels.filterMap s.index?, s.returns⟩

/-- The code with each label operand replaced by the index it resolves to. -/
def listing (s : Stream) : List Instruction := s.toBody.resolved

/-- The same instructions with the same control flow, whatever the labels are called. -/
def same (s t : Stream) : Bool :=
  s.returns == t.returns && Body.sameCode s.listing t.listing

def checkStack (s : Stream) : Except StackError Unit := s.toBody.checkStack

/-- The lines of a listing from an index on: the labels of each instruction, then the
instruction. -/
def linesFrom (s : Stream) : (index : Nat) → List Cell → List String
  | _, [] => []
  | index, c :: cs =>
    (s.labelsAt c.pos).map (fun l => l.text ++ ":\n") ++
      ("  IL_" ++ fourDigits index ++ ": " ++ c.insn.text ++ "\n") :: linesFrom s (index + 1) cs

def text (s : Stream) : String := String.join (s.linesFrom 0 s.cells)

def summary (s : Stream) : String :=
  "InstructionStream(" ++ decimal s.cells.length ++ " instructions)"

end Interpose.Stream

import Interpose.Instruction
import Interpose.LabelTable

/-!
Method bodies as the host hands them over: a list of instructions, and for every label the index
of the instruction it stands at. A body resolves its branches through that table.
-/

set_option autoImplicit false
set_option relaxedAutoImplicit false

namespace Interpose

structure Body where
  code : List Instruction
  labels : LabelTable Nat
  /-- Whether `ret` leaves a value. -/
  returns : Bool
  deriving DecidableEq

namespace Body

/-- The index that a label stands at. -/
def resolve? (b : Body) (l : Label) : Option Nat := b.labels.find? l

/-- Each label operand replaced by the label numbered as the index it resolves to, and by the
greatest 32-bit label where it resolves to none. Bodies with the same resolved code have the same
instructions and the same control flow, whatever their labels are called. -/
def resolved (b : Body) : List Instruction :=
  b.code.map fun insn => insn.mapLabels fun l =>
    match b.resolve? l with
    | some index => ⟨.ofNat index⟩
    | none => ⟨4294967295⟩

/-- The labels that stand at no instruction, then the branch targets that stand nowhere. -/
def danglingLabels (b : Body) : List Label :=
  let beyond := (b.labels.entries.filter fun e => b.code.length ≤ e.2).map (·.1)
  (b.code.flatMap Instruction.branchTargets).foldl (fun dangling l =>
    if (b.resolve? l).isNone && !dangling.contains l then dangling ++ [l] else dangling) beyond

/-- Equality of two lists of instructions, with floating-point constants compared by value. -/
def sameCode : List Instruction → List Instruction → Bool
  | [], [] => true
  | a :: as, b :: bs => a.same b && sameCode as bs
  | _, _ => false

/-- Equality of bodies, with floating-point constants compared by value. -/
def same (a b : Body) : Bool :=
  sameCode a.code b.code && a.labels = b.labels && a.returns == b.returns

end Body

end Interpose

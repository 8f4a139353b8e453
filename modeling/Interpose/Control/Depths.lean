import Interpose.Control.Step

/-!
Stack depths by exploration. Starting from the entry with an empty stack, every instruction gets the
depth of the first state that reaches it; a second state must agree. The result gives no depth to
instructions that control never reaches.
-/

set_option autoImplicit false
set_option relaxedAutoImplicit false

namespace Interpose.Body

/-- Explores the states still to do, the last one first. A state whose instruction has its depth
already adds nothing; any other adds its successors. `fuel` bounds the states taken. -/
def explore (b : Body) : (fuel : Nat) → List State → List (Option Nat) →
    Except StackError (List (Option Nat))
  | 0, _, depths => .ok depths
  | _, [], depths => .ok depths
  | fuel + 1, (index, depth) :: work, depths =>
    match depths[index]? with
    | none => b.explore fuel work depths
    | some (some known) =>
      if known = depth then b.explore fuel work depths
      else .error (.mismatch index known depth)
    | some none =>
      match b.successors index depth with
      | .error e => .error e
      | .ok states => b.explore fuel (states.reverse ++ work) (depths.set index (some depth))

/-- No instruction adds its successors twice, so an exploration takes at most this many states. -/
def explorationBound (b : Body) : Nat :=
  1 + b.code.foldr (fun insn states => insn.branchTargets.length + 1 + states) 0

/-- The entry depth of every instruction, none where control never comes. -/
def stackDepths (b : Body) : Except StackError (List (Option Nat)) :=
  match b.code with
  | [] => .ok []
  | _ => b.explore b.explorationBound [(0, 0)] (b.code.map fun _ => none)

def checkStack (b : Body) : Except StackError Unit := b.stackDepths.map fun _ => ()

end Interpose.Body

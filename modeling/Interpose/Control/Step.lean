import Interpose.Body

/-!
Control steps of a method body. A state is the index of an instruction and the depth of the
evaluation stack on entry to it; `Body.successors` gives the states one instruction leads to, or the
violation of the stack discipline that it commits there.
-/

set_option autoImplicit false
set_option relaxedAutoImplicit false

namespace Interpose

open Interpose.Text (decimal fourDigits)

/-- A violation of the stack discipline, at the instruction with a given index. -/
inductive StackError
  /-- More values are taken than the stack holds. -/
  | underflow (index : Nat) (instruction : String)
  /-- Two paths meet with different depths. -/
  | mismatch (index expected found : Nat)
  /-- A `ret` leaves another number of values than the method returns. -/
  | badReturn (index depth expected : Nat)
  /-- Control leaves the body behind its last instruction. -/
  | fallsOffEnd (index : Nat)
  /-- A branch has no place to go to. -/
  | unboundLabel (index : Nat) (label : Label)
  deriving DecidableEq

def StackError.kind : StackError → String
  | .underflow .. => "Underflow"
  | .mismatch .. => "Mismatch"
  | .badReturn .. => "BadReturn"
  | .fallsOffEnd _ => "FallsOffEnd"
  | .unboundLabel .. => "UnboundLabel"

private def place (index : Nat) : String := "IL_" ++ fourDigits index

def StackError.message : StackError → String
  | .underflow index instruction =>
    "Stack underflow at " ++ place index ++ " (" ++ instruction ++ ")"
  | .mismatch index expected found =>
    "Stack depth mismatch at " ++ place index ++ ": " ++ decimal expected ++ " on one path, " ++
      decimal found ++ " on another"
  | .badReturn index depth expected =>
    "Return at " ++ place index ++ " with stack depth " ++ decimal depth ++ ", expected " ++
      decimal expected
  | .fallsOffEnd index => "Control falls off the end after " ++ place index
  | .unboundLabel index label =>
    "Branch at " ++ place index ++ " targets unbound label " ++ label.text

/-- An instruction about to run: its index and the stack depth on entry. -/
abbrev State := Nat × Nat

namespace Body

/-- The index that a branch to a label reaches, if there is an instruction. -/
def target? (b : Body) (l : Label) : Option Nat :=
  (b.resolve? l).filter fun index => index < b.code.length

def targetStates (b : Body) (index depth : Nat) : List Label → Except StackError (List State)
  | [] => .ok []
  | l :: ls =>
    match b.target? l with
    | none => .error (.unboundLabel index l)
    | some target =>
      match targetStates b index depth ls with
      | .error e => .error e
      | .ok states => .ok ((target, depth) :: states)

/-- The states that a given instruction at `index` leads to from a depth, the following instruction
first. A `leave` empties the stack on the way to its target. -/
def successorsOf (b : Body) (insn : Instruction) (index depth : Nat) :
    Except StackError (List State) :=
  let effect := insn.stackEffect
  if depth < effect.pops then .error (.underflow index insn.text)
  else
    let after := depth - effect.pops + effect.pushes
    match insn.opcode with
    | .ret =>
      if depth = b.returns.toNat then .ok []
      else .error (.badReturn index depth b.returns.toNat)
    | .throw | .endfinally => .ok []
    | op =>
      let atTarget := if op = .leave then 0 else after
      match b.targetStates index atTarget insn.branchTargets with
      | .error e => .error e
      | .ok states =>
        if op.fallsThrough then
          if b.code.length ≤ index + 1 then .error (.fallsOffEnd index)
          else .ok ((index + 1, after) :: states)
        else .ok states

/-- The states that the instruction at `index` leads to from a depth. Behind the last instruction
there is nothing to run. -/
def successors (b : Body) (index depth : Nat) : Except StackError (List State) :=
  match b.code[index]? with
  | none => .ok []
  | some insn => b.successorsOf insn index depth

end Body

end Interpose

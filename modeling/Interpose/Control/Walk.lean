import Interpose.Control.Step

/-!
One path through a method body. At each conditional branch a decision is asked for, which may
depend on the questions asked before. A walk ends where an instruction has no successor, and is cut
off after eight visits per instruction of the body, so that it ends on loops too.
-/

set_option autoImplicit false
set_option relaxedAutoImplicit false

namespace Interpose

/-- A question put to the walker of a path: the index of a conditional branch, and the branch. -/
abbrev Question := Nat × Instruction

/-- Decides whether a branch is taken, from the questions asked before and the present one. -/
abbrev Decision := List Question → Question → Bool

/-- A walk: the states it visited or the violation it met, and the questions it asked. -/
structure Walk where
  path : Except StackError (List State)
  asked : List Question

namespace Body

/-- The state a conditional branch goes on with: the target if the branch is taken and has one
apart from the next instruction, otherwise the next instruction. -/
def chosen (index : Nat) (taken : Bool) (states : List State) : Option State :=
  let onward := states.find? fun s => s.1 = index + 1
  let target := states.find? fun s => s.1 ≠ index + 1
  if taken then target.or onward else onward

/-- The visits from a state on, at most `room` after the first one. -/
def walkFrom (b : Body) (decide : Decision) : (room : Nat) → State → List Question → Walk
  | 0, state, asked => ⟨.ok [state], asked⟩
  | room + 1, (index, depth), asked =>
    match b.code[index]? with
    | none => ⟨.ok [(index, depth)], asked⟩
    | some insn =>
      match b.successorsOf insn index depth with
      | .error e => ⟨.error e, asked⟩
      | .ok states =>
        let conditional := insn.opcode.isBranch && insn.opcode.fallsThrough
        let next :=
          if conditional then chosen index (decide asked (index, insn)) states else states.head?
        let asked := if conditional then asked ++ [(index, insn)] else asked
        match next with
        | none => ⟨.ok [(index, depth)], asked⟩
        | some state =>
          let rest := walkFrom b decide room state asked
          ⟨rest.path.map ((index, depth) :: ·), rest.asked⟩

def walk (b : Body) (decide : Decision) : Walk :=
  match b.code with
  | [] => ⟨.ok [], []⟩
  | _ => b.walkFrom decide (8 * b.code.length) (0, 0) []

def Decision.ofIndices (taken : List Nat) : Decision := fun _ question => taken.contains question.1

/-- Answers from a list in order, and no longer takes a branch when the list is used up. -/
def Decision.ofScript (script : List Bool) : Decision := fun asked _ =>
  script[asked.length]?.getD false

end Body

end Interpose

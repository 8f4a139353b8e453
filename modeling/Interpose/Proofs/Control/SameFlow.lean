import Interpose.Control.Walk
import Interpose.Proofs.Stream.Alike

/-!
Bodies that control cannot tell apart: at each index both have the same opcode, with the same effect
on the stack and branches to the same indices. Whatever is computed from control steps alone is the
same for both. The listing of a stream shows all of this, as long as no index is so great that it
is taken for another one or for the mark of a label without a place.
-/

set_option autoImplicit false
set_option relaxedAutoImplicit false

namespace Interpose

/-- Two violations of one kind at one index, with the same numbers. The instruction's text and the
label's name may differ. -/
inductive StackError.SameFigures : StackError → StackError → Prop
  | underflow {i : Nat} {a c : String} : SameFigures (.underflow i a) (.underflow i c)
  | mismatch {i d e : Nat} : SameFigures (.mismatch i d e) (.mismatch i d e)
  | badReturn {i d e : Nat} : SameFigures (.badReturn i d e) (.badReturn i d e)
  | fallsOffEnd {i : Nat} : SameFigures (.fallsOffEnd i) (.fallsOffEnd i)
  | unboundLabel {i : Nat} {l k : Label} : SameFigures (.unboundLabel i l) (.unboundLabel i k)

/-- A decision that looks only at the indices of the branches it is and was asked about. -/
def Decision.ByIndex (decide : Decision) : Prop :=
  ∀ {asked asked' : List Question} {q q' : Question},
    asked.map (·.1) = asked'.map (·.1) → q.1 = q'.1 → decide asked q = decide asked' q'

/-- Two walks along the same states, or to violations with the same figures, that asked about the same
branches. -/
structure Walk.Alongside (v w : Walk) : Prop where
  path : ExceptRel StackError.SameFigures Eq v.path w.path
  asked : v.asked.map (·.1) = w.asked.map (·.1)

namespace Body

theorem Decision.ofIndices_byIndex (taken : List Nat) : (Decision.ofIndices taken).ByIndex := by
  intro asked asked' q q' _ same
  simp only [Decision.ofIndices, same]

variable {b c : Body} {x y : Instruction}

/-- Two instructions, each in its own body, that do the same to control and to the stack. -/
structure Parallel (b c : Body) (x y : Instruction) : Prop where
  opcode : x.opcode = y.opcode
  effect : x.stackEffect = y.stackEffect
  targets : x.branchTargets.map b.target? = y.branchTargets.map c.target?

/-- Bodies that control cannot tell apart. -/
structure SameFlow (b c : Body) : Prop where
  returns : b.returns = c.returns
  code : b.code.Forall₂ (b.Parallel c) c.code

/-! ### One step -/

theorem targetStates_rel {i d : Nat} {ls ks : List Label}
    (same : ls.map b.target? = ks.map c.target?) :
    ExceptRel StackError.SameFigures Eq (b.targetStates i d ls) (c.targetStates i d ks) := by
  induction ls generalizing ks with
  | nil =>
    obtain rfl : ks = [] := by simpa using same.symm
    exact .ok rfl
  | cons l ls ih =>
    match ks, same with
    | k :: ks, same =>
      obtain ⟨first, rest⟩ := List.cons.inj same
      have later := ih rest
      unfold targetStates
      rw [first]
      cases c.target? k with
      | none => exact .error .unboundLabel
      | some target =>
        generalize b.targetStates i d ls = u at later ⊢
        generalize c.targetStates i d ks = v at later ⊢
        cases later with
        | ok states =>
          subst states
          exact .ok rfl
        | error figures => exact .error figures

namespace SameFlow

variable (same : b.SameFlow c)
include same

theorem successorsOf (parallel : b.Parallel c x y) (i d : Nat) :
    ExceptRel StackError.SameFigures Eq (b.successorsOf x i d) (c.successorsOf y i d) := by
  have length := same.code.length_eq
  unfold Body.successorsOf
  rw [parallel.opcode, parallel.effect, same.returns, length]
  dsimp only
  split
  · exact .error .underflow
  split
  · split
    · exact .ok rfl
    · exact .error .badReturn
  · exact .ok rfl
  · exact .ok rfl
  · generalize (if y.opcode = .leave then 0 else _) = depth
    have states := targetStates_rel (i := i) (d := depth) parallel.targets
    generalize b.targetStates i depth x.branchTargets = u at states ⊢
    generalize c.targetStates i depth y.branchTargets = v at states ⊢
    cases states with
    | error figures => exact .error figures
    | ok states =>
      subst states
      dsimp only
      split
      · split
        · exact .error .fallsOffEnd
        · exact .ok rfl
      · exact .ok rfl

theorem successors (i d : Nat) :
    ExceptRel StackError.SameFigures Eq (b.successors i d) (c.successors i d) := by
  have both := rel_get same.code i
  unfold Body.successors
  generalize b.code[i]? = u at both ⊢
  generalize c.code[i]? = v at both ⊢
  cases both with
  | none => exact .ok rfl
  | some parallel => exact same.successorsOf parallel i d

/-! ### Depths -/

theorem explore (fuel : Nat) (work : List State) (depths : List (Option Nat)) :
    ExceptRel StackError.SameFigures Eq (b.explore fuel work depths)
      (c.explore fuel work depths) := by
  induction fuel generalizing work depths with
  | zero => exact .ok rfl
  | succ fuel ih =>
    match work with
    | [] => exact .ok rfl
    | (i, d) :: work =>
      unfold Body.explore
      split
      · exact ih work depths
      · split
        · exact ih work depths
        · exact .error .mismatch
      · have next := same.successors i d
        generalize b.successors i d = u at next ⊢
        generalize c.successors i d = v at next ⊢
        cases next with
        | error figures => exact .error figures
        | ok states =>
          subst states
          exact ih _ _

theorem explorationBound : b.explorationBound = c.explorationBound := by
  unfold Body.explorationBound
  congr 1
  have code := same.code
  generalize b.code = as at code ⊢
  generalize c.code = cs at code ⊢
  induction code with
  | nil => rfl
  | cons here _ ih =>
    have targets := congrArg List.length here.targets
    simp only [List.length_map] at targets
    rw [List.foldr_cons, List.foldr_cons, targets, ih]

theorem stackDepths :
    ExceptRel StackError.SameFigures Eq b.stackDepths c.stackDepths := by
  have unknown : (b.code.map fun _ => (none : Option Nat)) = c.code.map fun _ => none := by
    simp only [List.map_const', same.code.length_eq]
  have explored := same.explore b.explorationBound [(0, 0)] (b.code.map fun _ => none)
  rw [unknown, same.explorationBound] at explored
  unfold Body.stackDepths
  rw [unknown, same.explorationBound]
  have code := same.code
  generalize b.code = as at code ⊢
  generalize c.code = cs at code explored ⊢
  cases code with
  | nil => exact .ok rfl
  | cons _ _ => exact explored

/-! ### Paths -/

theorem walkFrom {decide : Decision} (byIndex : decide.ByIndex) (room : Nat) (state : State)
    {asked asked' : List Question} (before : asked.map (·.1) = asked'.map (·.1)) :
    (b.walkFrom decide room state asked).Alongside (c.walkFrom decide room state asked') := by
  induction room generalizing state asked asked' with
  | zero => exact ⟨.ok rfl, before⟩
  | succ room ih =>
    obtain ⟨i, d⟩ := state
    have both := rel_get same.code i
    unfold Body.walkFrom
    generalize b.code[i]? = u at both ⊢
    generalize c.code[i]? = v at both ⊢
    cases both with
    | none => exact ⟨.ok rfl, before⟩
    | @some x y parallel =>
      have next := same.successorsOf parallel i d
      dsimp only
      generalize b.successorsOf x i d = u at next ⊢
      generalize c.successorsOf y i d = v at next ⊢
      cases next with
      | error figures => exact ⟨.error figures, before⟩
      | ok states =>
        subst states
        -- the same question is asked or none, and it gets the same answer
        have answer : decide asked (i, x) = decide asked' (i, y) := byIndex before rfl
        have after : (if y.opcode.isBranch && y.opcode.fallsThrough then asked ++ [(i, x)]
            else asked).map (·.1) = (if y.opcode.isBranch && y.opcode.fallsThrough then
              asked' ++ [(i, y)] else asked').map (·.1) := by
          split <;> simp [before]
        simp only [parallel.opcode, answer]
        split
        · exact ⟨.ok rfl, after⟩
        · next state _ =>
          obtain ⟨path, asked⟩ := ih state after
          exact ⟨path.map fun same => congrArg ((i, d) :: ·) same, asked⟩

theorem walk {decide : Decision} (byIndex : decide.ByIndex) :
    (b.walk decide).Alongside (c.walk decide) := by
  have walked : (b.walkFrom decide (8 * b.code.length) (0, 0) []).Alongside
      (c.walkFrom decide (8 * b.code.length) (0, 0) []) := same.walkFrom byIndex _ _ rfl
  rw [same.code.length_eq] at walked
  unfold Body.walk
  rw [same.code.length_eq]
  have code := same.code
  generalize b.code = as at code ⊢
  generalize c.code = cs at code walked ⊢
  cases code with
  | nil => exact ⟨.ok rfl, rfl⟩
  | cons _ _ => exact walked

end SameFlow

end Body

/-! ### Listings -/

namespace Instruction

variable {x y : Instruction}

theorem stackEffect_congr (opcode : x.opcode = y.opcode) (method : x.method? = y.method?) :
    x.stackEffect = y.stackEffect := by
  simp only [stackEffect, opcode, method]

theorem parts_of_same {f g : Label → Label}
    (same : (x.mapLabels f).same (y.mapLabels g) = true) :
    x.opcode = y.opcode ∧ x.method? = y.method? ∧
      x.operand.mentioned.map f = y.operand.mentioned.map g := by
  obtain ⟨opcode, operand⟩ := x
  obtain ⟨opcode', operand'⟩ := y
  simp only [Instruction.same, mapLabels, Bool.and_eq_true] at same
  obtain ⟨opcodes, same⟩ := same
  obtain rfl := of_decide_eq_true opcodes
  cases operand <;> cases operand' <;>
    simp_all [Operand.same, Operand.mapLabels, Operand.mentioned, method?]

end Instruction

namespace Stream

variable {s t : Stream}

/-- In a short stream the number that stands for a label in the listing tells where it leads. -/
theorem target_of_number (short : s.code.length < Nat.pow 2 32 - 1)
    (length : s.code.length = t.code.length) {l k : Label}
    (same : s.toBody.number l = t.toBody.number k) : s.toBody.target? l = t.toBody.target? k := by
  have inside : ∀ {u : Stream} {l : Label} {i : Nat}, u.code.length = s.code.length →
      u.toBody.target? l = some i → (UInt32.ofNat i).toNat = i ∧ UInt32.ofNat i ≠ 4294967295 := by
    intro u l i length found
    have less : i < 4294967295 := Nat.lt_trans (length ▸ Body.target_lt found) short
    have value : (UInt32.ofNat i).toNat = i := UInt32.toNat_ofNat_of_lt' (by
      simp only [UInt32.size]
      omega)
    refine ⟨value, fun last => ?_⟩
    rw [last] at value
    simp only [UInt32.reduceToNat] at value
    omega
  rw [number_of_toBody, number_of_toBody] at same
  cases left : s.toBody.target? l with
  | none =>
    cases right : t.toBody.target? k with
    | none => rfl
    | some j =>
      simp only [left, right, Label.mk.injEq] at same
      exact absurd same.symm (inside length.symm right).2
  | some i =>
    cases right : t.toBody.target? k with
    | none =>
      simp only [left, right, Label.mk.injEq] at same
      exact absurd same (inside rfl left).2
    | some j =>
      simp only [left, right, Label.mk.injEq] at same
      rw [← (inside rfl left).1, ← (inside length.symm right).1, same]

theorem sameFlow (short : s.code.length < Nat.pow 2 32 - 1) (same : s.same t = true) :
    s.toBody.SameFlow t.toBody := by
  simp only [Stream.same, listing, Bool.and_eq_true, beq_iff_eq, Body.same_resolved_iff] at same
  obtain ⟨returns, length, agree⟩ := same
  refine ⟨returns, List.forall₂_iff_get.mpr ⟨length, fun i left right => ?_⟩⟩
  have here := agree i _ _ (List.getElem?_eq_getElem left) (List.getElem?_eq_getElem right)
  obtain ⟨opcode, method, labels⟩ := Instruction.parts_of_same here
  refine ⟨opcode, Instruction.stackEffect_congr opcode method, ?_⟩
  simp only [Instruction.branchTargets, List.get_eq_getElem, opcode]
  split
  · rw [← List.forall₂_eq_eq_eq, List.forall₂_map_left_iff, List.forall₂_map_right_iff] at labels ⊢
    exact labels.imp fun _ _ number => target_of_number short length number
  · rfl

/-- Streams that are the same for an observer have the same stack depths, or violations with the same
figures. Under every decision that looks at indices only, control takes the same path through both,
or comes to violations with the same figures. -/
theorem equal_streams_same_control (short : s.code.length < Nat.pow 2 32 - 1)
    (same : s.same t = true) :
    ExceptRel StackError.SameFigures Eq s.toBody.stackDepths t.toBody.stackDepths ∧
      ∀ decide : Decision, decide.ByIndex →
        (s.toBody.walk decide).Alongside (t.toBody.walk decide) :=
  ⟨(sameFlow short same).stackDepths, fun _ byIndex => (sameFlow short same).walk byIndex⟩

/-- A body that tests a constant and puts one value too many on the stack if the test fails. -/
def testedConstant (value : Binary64) (target : Label) : Body :=
  ⟨[⟨.ldcR8, .float value⟩, .brtrue target, .ldarg 0, .ret], .ofList [(⟨2⟩, 1), (target, 3)], false⟩

theorem tested_zeros_same_control : ∃ s t,
    ofBody (testedConstant (.ofMagnitude false 0) ⟨0⟩) = .ok s ∧
    ofBody (testedConstant (.ofMagnitude true 0) ⟨7⟩) = .ok t ∧ s.same t = true ∧
    t.toBody.stackDepths = .error (.mismatch 3 0 1) ∧
    (t.toBody.walk (Body.Decision.ofIndices [1])).path = .ok [(0, 0), (1, 1), (3, 0)] := by
  obtain ⟨s, loadedS, short, depthsS, pathS⟩ : ∃ s,
      ofBody (testedConstant (.ofMagnitude false 0) ⟨0⟩) = .ok s ∧
      s.code.length < Nat.pow 2 32 - 1 ∧ s.toBody.stackDepths = .error (.mismatch 3 0 1) ∧
      (s.toBody.walk (Body.Decision.ofIndices [1])).path = .ok [(0, 0), (1, 1), (3, 0)] :=
    ⟨_, rfl, by decide, rfl, rfl⟩
  obtain ⟨t, loadedT⟩ : ∃ t, ofBody (testedConstant (.ofMagnitude true 0) ⟨7⟩) = .ok t := ⟨_, rfl⟩
  have same : s.same t = true := by
    cases loadedS
    cases loadedT
    rfl
  obtain ⟨depths, walks⟩ := equal_streams_same_control short same
  obtain ⟨path, -⟩ := walks _ (Body.Decision.ofIndices_byIndex [1])
  rw [depthsS] at depths
  rw [pathS] at path
  refine ⟨s, t, loadedS, loadedT, same, ?_, path.ok_left.symm⟩
  generalize t.toBody.stackDepths = result at depths ⊢
  cases depths with
  | error figures =>
    cases figures
    rfl

end Stream

end Interpose

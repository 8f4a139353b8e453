import Interpose.Proofs.Stream.Alike

/-!
Searches that do not see the names of labels. Where the predicates of a pattern answer alike on
instructions that differ in names only, the pattern has the same windows in streams that are alike.
-/

set_option autoImplicit false
set_option relaxedAutoImplicit false

namespace Interpose

/-! ### Predicates -/

namespace Predicate

/-- A predicate answers alike on instructions that differ only in the names of labels. -/
def Blind (p : Predicate) : Prop :=
  ∀ a c : Instruction, a.unnamed = c.unnamed → p.accepts a = p.accepts c

end Predicate

/-! ### Windows -/

namespace Pattern

/-- All predicates of a pattern are blind to names. -/
def Blind (p : Pattern) : Prop := ∀ step ∈ p.steps, step.predicate.Blind

variable {as cs : List Instruction}

theorem reach_unnamed {first step : Predicate} {later : List Predicate} (one : first.Blind)
    (two : step.Blind) (rest : ∀ p ∈ later, p.Blind) (gap : Nat)
    (same : as.Forall₂ (fun a c => a.unnamed = c.unnamed) cs) :
    reach first step later gap as = reach first step later gap cs := by
  induction same generalizing gap with
  | nil => rfl
  | @cons a c as cs here _ ih =>
    have others : (later.any fun p => p.accepts a) = later.any fun p => p.accepts c := by
      rw [Bool.eq_iff_iff, List.any_eq_true, List.any_eq_true]
      exact exists_congr fun p => and_congr_right fun member => by rw [rest p member a c here]
    cases gap with
    | zero => simp only [reach, two a c here, one a c here, others]
    | succ gap => simp only [reach, two a c here, one a c here, others, ih]

theorem extent_unnamed {first : Predicate} {steps : List Step} (one : first.Blind)
    (rest : ∀ step ∈ steps, step.predicate.Blind)
    (same : as.Forall₂ (fun a c => a.unnamed = c.unnamed) cs) :
    extent first steps as = extent first steps cs := by
  induction steps generalizing as cs with
  | nil => rfl
  | cons step later ih =>
    have following : ∀ p ∈ later.map (·.predicate), p.Blind := by
      intro p member
      obtain ⟨other, inside, rfl⟩ := List.mem_map.mp member
      exact rest other (List.mem_cons_of_mem _ inside)
    simp only [extent, reach_unnamed one (rest step List.mem_cons_self) following _ same]
    split
    · rfl
    · next n _ =>
      rw [ih (fun other member => rest other (List.mem_cons_of_mem _ member))
        (List.forall₂_drop n same)]

theorem window_unnamed {p : Pattern} (blind : p.Blind)
    (same : as.Forall₂ (fun a c => a.unnamed = c.unnamed) cs) : p.window? as = p.window? cs := by
  cases same with
  | nil => rfl
  | @cons a c as cs here rest =>
    cases steps : p.steps with
    | nil => simp only [window?, steps]
    | cons first later =>
      have one : first.predicate.Blind := blind first (steps ▸ List.mem_cons_self)
      have others : ∀ step ∈ later, step.predicate.Blind := fun step member =>
        blind step (steps ▸ List.mem_cons_of_mem _ member)
      simp only [window?, steps, one a c here, extent_unnamed one others rest]

end Pattern

namespace Stream.Alike

variable {s t : Stream} {p : Pattern} {q : Predicate} {cs ds : List Cell}

theorem windowSpan (blind : p.Blind) (twins : cs.Forall₂ (Twin s t) ds) :
    Option.Rel (fun x y => s.LevelSpan t x.1 y.1 ∧ x.2 = y.2) (p.windowSpan? cs)
      (p.windowSpan? ds) := by
  cases twins with
  | nil => exact .none
  | @cons c d cs ds here rest =>
    have whole : (c :: cs).Forall₂ (Twin s t) (d :: ds) := .cons here rest
    have code : ((c :: cs).map (·.insn)).Forall₂ (fun a b => a.unnamed = b.unnamed)
        ((d :: ds).map (·.insn)) := by
      rw [List.forall₂_map_left_iff, List.forall₂_map_right_iff]
      exact whole.imp fun _ _ twin => twin.insn
    have window := Pattern.window_unnamed blind code
    cases found : p.window? ((d :: ds).map (·.insn)) with
    | none =>
      simp only [Pattern.windowSpan?, window, found]
      exact .none
    | some n =>
      simp only [Pattern.windowSpan?, window, found]
      exact rel_map (rel_get whole (n - 1)) fun last => ⟨⟨here.level, last.level⟩, rfl⟩

theorem findIn (blind : p.Blind) (twins : cs.Forall₂ (Twin s t) ds) :
    Option.Rel (LevelSpan s t) (p.findIn cs) (p.findIn ds) := by
  induction twins with
  | nil => exact .none
  | @cons c d cs ds here rest ih =>
    have window := windowSpan blind (.cons here rest)
    unfold Pattern.findIn
    generalize p.windowSpan? (c :: cs) = x at window ⊢
    generalize p.windowSpan? (d :: ds) = y at window ⊢
    cases window with
    | none => exact ih
    | some ends => exact .some ends.1

theorem scan (blind : p.Blind) (skip : Nat) (twins : cs.Forall₂ (Twin s t) ds) :
    (p.scan skip cs).Forall₂ (LevelSpan s t) (p.scan skip ds) := by
  induction twins generalizing skip with
  | nil => cases skip <;> exact .nil
  | @cons c d cs ds here rest ih =>
    cases skip with
    | succ skip => exact ih skip
    | zero =>
      have window := windowSpan blind (.cons here rest)
      unfold Pattern.scan
      generalize p.windowSpan? (c :: cs) = x at window ⊢
      generalize p.windowSpan? (d :: ds) = y at window ⊢
      cases window with
      | none => exact ih 0
      | @some x y ends =>
        dsimp only
        rw [ends.2]
        exact .cons ends.1 (ih _)

end Stream.Alike

end Interpose

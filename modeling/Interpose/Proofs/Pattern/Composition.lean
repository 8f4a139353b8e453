import Interpose.Proofs.Pattern.Reading
import Interpose.Proofs.Text.Parts

/-!
Pattern texts one after the other. A semicolon between two texts makes one text of them, if no quotes
are open at the end of the first: it is read as the steps of the first and then those of the second.
What a text holds beyond that, such as empty tokens, gaps in a row or quotes within the name of a
member, makes no difference.
-/

set_option autoImplicit false
set_option relaxedAutoImplicit false

namespace Interpose.Pattern

open Interpose.Text (boundsFrom ended endsQuoted_iff endsQuoted intercalate_splitFrom separator_inside
  slice? slices_of_bounds splitFrom_append splitFrom_ne_nil splitUnquoted)

variable {name other text first second : String} {gap : Option Nat} {s : List Char}
  {before behind : List (List Char)} {steps : List Step} {p q : Pattern}

/-! ### Tokens -/

theorem tokens_append (closed : endsQuoted false s = false) (t : List Char) :
    tokens (s ++ ';' :: t) = tokens s ++ tokens t := by
  rw [tokens, splitUnquoted, splitFrom_append (by decide) closed, List.map_append,
    List.filter_append]
  rfl

/-! ### Steps -/

theorem readStep_name (name other : String) (token : List Char) :
    readStep name token = readStep other token := by
  unfold readStep
  split
  · next none => exact absurd none (splitFrom_ne_nil _ _ _)
  · rfl

/-- Whatever follows some tokens that are read as steps, it does not change these steps, and it is read
as if they were not there. The name only counts for faults. -/
theorem readSteps_append (read : readSteps name gap before = .ok steps) (behind : List (List Char)) :
    readSteps other gap (before ++ behind) =
      (readSteps other none behind).map (steps ++ ·) := by
  induction before generalizing gap steps with
  | nil =>
    cases gap with
    -- a gap that no step follows is refused, so none is open where the tokens end
    | some width => cases read
    | none =>
      obtain rfl : [] = steps := Except.ok.inj read
      rw [List.nil_append]
      cases readSteps other none behind <;> rfl
  | cons token before ih =>
    rw [List.cons_append]
    by_cases mark : token.head? = some '?'
    · obtain ⟨digits, rfl⟩ := List.head?_eq_some_iff.mp mark
      rw [readSteps_mark] at read ⊢
      cases width : readGap digits with
      | error fault => rw [width] at read; cases read
      | ok width' =>
        rw [width] at read
        exact ih read
    · rw [readSteps_step mark] at read ⊢
      rw [readStep_name other name]
      cases step : readStep name token with
      | error fault => rw [step] at read; cases read
      | ok predicate =>
        rw [step] at read
        cases rest : readSteps name none before with
        | error fault => simp [rest, Except.bind, Except.map] at read
        | ok tail =>
          obtain rfl : ⟨gap.getD 0, predicate⟩ :: tail = steps := by
            simpa [rest, Except.bind, Except.map] using read
          have onward := ih rest
          rw [onward]
          cases readSteps other none behind <;> rfl

theorem readSteps_name (read : readSteps name gap before = .ok steps) (other : String) :
    readSteps other gap before = .ok steps := by
  have alone : readSteps other gap (before ++ []) = _ := readSteps_append read []
  rw [List.append_nil] at alone
  rw [alone, readSteps]
  exact congrArg Except.ok (List.append_nil steps)

/-! ### Patterns -/

theorem read_eq_ok_iff : read name text = .ok p ↔
    p.name = name ∧ p.steps ≠ [] ∧ readSteps name none (tokens text.toList) = .ok p.steps := by
  obtain ⟨called, steps⟩ := p
  unfold read
  split
  · next fault failed => simp [failed]
  · next none => simp [none, eq_comm]
  · next found some read =>
    rw [read, Except.ok.injEq, Except.ok.injEq, Pattern.mk.injEq]
    constructor
    · rintro ⟨rfl, rfl⟩
      exact ⟨rfl, some, rfl⟩
    · rintro ⟨rfl, -, rfl⟩
      exact ⟨rfl, rfl⟩

theorem read_one_after_another (closed : endsQuoted false first.toList = false)
    (accepted : read name first = .ok p) (accepted' : read other second = .ok q) (joint : String) :
    read joint (first ++ ";" ++ second) = .ok ⟨joint, p.steps ++ q.steps⟩ := by
  obtain ⟨-, some, steps⟩ := read_eq_ok_iff.mp accepted
  obtain ⟨-, -, steps'⟩ := read_eq_ok_iff.mp accepted'
  have whole : (first ++ ";" ++ second).toList = first.toList ++ ';' :: second.toList := by
    simp
  rw [read_eq_ok_iff, whole, tokens_append closed, readSteps_append steps,
    readSteps_name steps' joint]
  exact ⟨rfl, List.append_ne_nil_of_left_ne_nil some q.steps, rfl⟩

/-- Pattern texts can be put together. If two texts are accepted and the first has an even number of
quotes, both with a semicolon between them are accepted, with the steps of the first and then those of
the second. Of any text the parts between separators are what is left where it is cut at offsets in
its encoding, none of which is within a character; joined with the separator they are the text again,
and a separator is left inside a part only behind an odd number of the quotes of the whole text. -/
theorem texts_compose :
    (∀ {name other first second : String} {p q : Pattern}, Even (first.toList.count '"') →
      read name first = .ok p → read other second = .ok q → ∀ joint,
      read joint (first ++ ";" ++ second) = .ok ⟨joint, p.steps ++ q.steps⟩) ∧
    ∀ (sep : Char) (s : List Char),
      (boundsFrom sep false 0 0 s).map (slice? s) = (splitUnquoted sep s).map some ∧
      [sep].intercalate (splitUnquoted sep s) = s ∧
      (sep ≠ '"' → ∀ {front back : List (List Char)} {x y : List Char},
        splitUnquoted sep s = front ++ (x ++ sep :: y) :: back →
        ∃ before after, s = before ++ sep :: after ∧ before = ended sep front ++ x ∧
          Odd (before.count '"')) := by
  constructor
  · intro name other first second p q even accepted accepted' joint
    have closed := Bool.eq_false_iff.mpr (mt endsQuoted_iff.mp (Nat.not_odd_iff_even.mpr even))
    exact read_one_after_another closed accepted accepted' joint
  · intro sep s
    refine ⟨slices_of_bounds sep s, intercalate_splitFrom sep false s, ?_⟩
    intro plain front back x y found
    exact separator_inside plain found

/-- The first text has quotes within the name of a member, a semicolon between them, and an empty
token at its end. The second has two gaps in a row. -/
theorem call_then_ret_compose :
    Even ("call Fé\"x;y\";".toList.count '"') ∧
    read "first" "call Fé\"x;y\";" = .ok ⟨"first", [⟨0, .member .call "Fé\"x;y\""⟩]⟩ ∧
    read "second" "?2;?;ret" = .ok ⟨"second", [⟨1, .opcode .ret⟩]⟩ ∧
    read "both" "call Fé\"x;y\";;?2;?;ret" =
      .ok ⟨"both", [⟨0, .member .call "Fé\"x;y\""⟩, ⟨1, .opcode .ret⟩]⟩ ∧
    splitUnquoted ';' "Fé\"x;y\";z".toList = ["Fé\"x;y\"".toList, "z".toList] ∧
    [(0, 8), (9, 10)].map (slice? "Fé\"x;y\";z".toList) =
      [some "Fé\"x;y\"".toList, some "z".toList] ∧
    Odd ("Fé\"x".toList.count '"') := by
  have even : Even ("call Fé\"x;y\";".toList.count '"') := by decide
  have first : read "first" "call Fé\"x;y\";" =
      .ok ⟨"first", [⟨0, .member .call "Fé\"x;y\""⟩]⟩ := rfl
  have second : read "second" "?2;?;ret" = .ok ⟨"second", [⟨1, .opcode .ret⟩]⟩ := rfl
  have split : splitUnquoted ';' "Fé\"x;y\";z".toList = ["Fé\"x;y\"".toList, "z".toList] := by
    decide
  obtain ⟨slices, -, inside⟩ := texts_compose.2 ';' "Fé\"x;y\";z".toList
  rw [split] at slices inside
  have left : ["Fé\"x;y\"".toList, "z".toList] =
      [] ++ ("Fé\"x".toList ++ ';' :: "y\"".toList) :: ["z".toList] := by decide
  obtain ⟨before, -, -, rfl, odd⟩ := inside (by decide) left
  exact ⟨even, first, second, texts_compose.1 even first second "both", split, slices, odd⟩

end Interpose.Pattern

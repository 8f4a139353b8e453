import Interpose.Pattern.Reader
import Interpose.Proofs.Opcode.Spelling
import Mathlib.Data.List.Forall2

/-!
Reading the text of a pattern piece by piece: an alternative from a mnemonic and its operand, a step
from its alternatives, and a pattern of one step. White space around the pieces does not count.
-/

set_option autoImplicit false
set_option relaxedAutoImplicit false

namespace Interpose.Pattern

open Interpose.Opcode (lower_mnemonic mnemonic_chars mnemonic_ne_nil mnemonic_visible
  ofMnemonic_eq_some_iff read_indexed)
open Interpose.Text (Blank Digits Joined Tight Unsplit Visible integer? isBlank isDigit lower natural?
  splitAtFirst_append splitAtFirst_eq_none splitAtLast_append splitAtLast_eq_none_iff
  splitAtFirst splitAtLast splitUnquoted trim trim_eq_self trim_tight trimmed_parts_of_joined)

/-- No white space, and no character that separates steps or alternatives or quotes strings. -/
def IsPlain (s : List Char) : Prop := ∀ c ∈ s, c ≠ ';' ∧ c ≠ '|' ∧ c ≠ '"' ∧ isBlank c = false

instance (s : List Char) : Decidable (IsPlain s) := List.decidableBAll _ s

/-- A text that can stand as an alternative of a step: a whole one wherever the text is split, with no
white space at its ends, and not taken for a gap. -/
structure Standalone (core : List Char) : Prop where
  step : Unsplit ';' false core
  alternative : Unsplit '|' false core
  tight : Tight core
  filled : core ≠ []
  noGap : core.head? ≠ some '?'

variable {op : Opcode} {name : String} {core token text rest gap before after operand digits s t :
    List Char}
  {cores parts : List (List Char)} {p : Predicate} {ps : List Predicate}

/-! ### Plain texts -/

theorem IsPlain.step (plain : IsPlain s) : Unsplit ';' false s :=
  .of_free fun c here => ⟨(plain c here).2.2.1, (plain c here).1⟩

theorem IsPlain.alternative (plain : IsPlain s) : Unsplit '|' false s :=
  .of_free fun c here => ⟨(plain c here).2.2.1, (plain c here).2.1⟩

theorem IsPlain.visible (plain : IsPlain s) : Visible s := fun c here => (plain c here).2.2.2

theorem IsPlain.append (left : IsPlain s) (right : IsPlain t) : IsPlain (s ++ t) := fun c here =>
  (List.mem_append.mp here).elim (left c) (right c)

theorem plain_digits (index : Digits digits) : IsPlain digits := by
  intro c here
  have digit := index.all c here
  refine ⟨?_, ?_, ?_, index.visible c here⟩ <;> rintro rfl <;> exact absurd digit (by decide)

theorem plain_mnemonic (op : Opcode) : IsPlain op.mnemonic.toList := by
  intro c here
  have char := (mnemonic_chars op).2 c here
  refine ⟨?_, ?_, ?_, mnemonic_visible op c here⟩ <;> rintro rfl <;> exact absurd char (by decide)

theorem plain_indexed (op : Opcode) (index : Digits digits) :
    IsPlain (op.mnemonic.toList ++ '.' :: digits) := by
  have dot : IsPlain ['.'] := by decide
  exact (plain_mnemonic op).append (dot.append (plain_digits index))

theorem Standalone.of_plain (plain : IsPlain core) (filled : core ≠ [])
    (noGap : core.head? ≠ some '?') : Standalone core :=
  ⟨plain.step, plain.alternative, plain.visible.tight, filled, noGap⟩

/-! ### Mnemonics in texts -/

theorem mnemonic_first (op : Opcode) (rest : List Char) :
    op.mnemonic.toList ++ rest ≠ [] ∧ (op.mnemonic.toList ++ rest).head? ≠ some '?' := by
  obtain ⟨⟨c, cs, shape, low, -⟩, -⟩ := mnemonic_chars op
  rw [shape]
  refine ⟨nofun, ?_⟩
  rintro ⟨⟩
  exact absurd low (by decide)

theorem Standalone.of_bare (op : Opcode) : Standalone op.mnemonic.toList := by
  have first := mnemonic_first op []
  rw [List.append_nil] at first
  exact .of_plain (plain_mnemonic op) first.1 first.2

theorem Standalone.of_index (op : Opcode) (index : Digits digits) :
    Standalone (op.mnemonic.toList ++ '.' :: digits) :=
  .of_plain (plain_indexed op index) (mnemonic_first op _).1 (mnemonic_first op _).2

theorem Standalone.of_operand (op : Opcode) (blank : Blank gap) (tight : Tight operand)
    (filled : operand ≠ []) (step : Unsplit ';' false operand)
    (alternative : Unsplit '|' false operand) :
    Standalone (op.mnemonic.toList ++ gap ++ operand) where
  step := ((plain_mnemonic op).step.append (.of_blank (by decide) blank)).append step
  alternative :=
    ((plain_mnemonic op).alternative.append (.of_blank (by decide) blank)).append alternative
  tight := (mnemonic_visible op).tight.append tight (mnemonic_ne_nil op) filled
  filled := by rw [List.append_assoc]; exact (mnemonic_first op _).1
  noGap := by rw [List.append_assoc]; exact (mnemonic_first op _).2

/-! ### Alternatives -/

theorem read_mnemonic (op : Opcode) : Opcode.read? op.mnemonic.toList = some op := by
  change Opcode.ofSpelling? (lower (trim op.mnemonic.toList)) = some op
  rw [trim_eq_self (mnemonic_visible op).tight, lower_mnemonic, Opcode.ofSpelling?,
    ofMnemonic_eq_some_iff.mpr rfl, Option.some_or]

theorem readAlternative_mnemonic (op : Opcode) (rest : List Char) :
    readAlternative (op.mnemonic.toList ++ rest) = readOpcode (op.mnemonic.toList ++ rest) := by
  obtain ⟨⟨c, cs, shape, low, -⟩, -⟩ := mnemonic_chars op
  rw [shape, List.cons_append]
  unfold readAlternative
  split
  · next same =>
    obtain ⟨rfl, -⟩ := List.cons.inj same
    exact absurd low (by decide)
  · next same =>
    obtain ⟨rfl, -⟩ := List.cons.inj same
    exact absurd low (by decide)
  · rfl

theorem readAlternative_bare (op : Opcode) :
    readAlternative op.mnemonic.toList = .ok (.opcode op) := by
  have full : inlineIndex? op op.mnemonic.toList = none := by
    unfold inlineIndex?
    split
    · rfl
    · split
      · rfl
      · rw [if_pos (lower_mnemonic op).symm]
  have same := readAlternative_mnemonic op []
  rw [List.append_nil] at same
  rw [same, readOpcode, splitAtFirst_eq_none (mnemonic_visible op)]
  simp only [read_mnemonic, full]

theorem readAlternative_operand (op : Opcode) (blank : Blank gap) (filled : gap ≠ [])
    (tight : Tight operand) :
    readAlternative (op.mnemonic.toList ++ gap ++ operand) =
      readOperand op operand (op.mnemonic.toList ++ gap ++ operand) := by
  obtain ⟨c, gap, rfl⟩ := List.exists_cons_of_ne_nil filled
  obtain ⟨here, blank⟩ := List.forall_mem_cons.mp blank
  have cut : splitAtFirst isBlank (op.mnemonic.toList ++ c :: gap ++ operand) =
      some (op.mnemonic.toList, gap ++ operand) := by
    rw [List.append_assoc]
    exact splitAtFirst_append (mnemonic_visible op) here _
  have trimmed : trim (gap ++ operand) = operand := by
    have same := trim_tight tight blank .nil
    rwa [List.append_nil] at same
  rw [List.append_assoc, readAlternative_mnemonic, ← List.append_assoc, readOpcode, cut]
  simp only [read_mnemonic, trimmed]

theorem inlineIndex_indexed (op : Opcode) (index : Digits digits) :
    inlineIndex? op (op.mnemonic.toList ++ '.' :: digits) = integer? digits := by
  have undotted : splitAtLast ['.'] digits = none := by
    rw [splitAtLast_eq_none_iff (by decide)]
    rintro ⟨front, back, shape⟩
    exact absurd (index.all '.' (by simp [← shape])) (by decide)
  have cut : splitAtLast ['.'] ('.' :: digits) = some ([], digits) := by
    rw [splitAtLast, undotted]
    rfl
  have longer : op.mnemonic.toList ≠ lower (op.mnemonic.toList ++ '.' :: digits) := by
    intro same
    have lengths := congrArg List.length same
    rw [lower, List.length_map, List.length_append, List.length_cons] at lengths
    omega
  have number : (op.mnemonic.toList.isEmpty || digits.isEmpty || !digits.all isDigit) = false := by
    simp [mnemonic_ne_nil op, index.filled, List.all_eq_true.mpr index.all]
  unfold inlineIndex?
  rw [splitAtLast_append cut, List.append_nil]
  simp only [number, if_neg longer, Bool.false_eq_true, if_false]

/-- An index in the mnemonic counts if it is a 64-bit integer, and is passed over if it is not. -/
theorem readAlternative_indexed (op : Opcode) (index : Digits digits) :
    readAlternative (op.mnemonic.toList ++ '.' :: digits) =
      .ok ((integer? digits).elim (.opcode op) (.index op)) := by
  rw [readAlternative_mnemonic, readOpcode, splitAtFirst_eq_none (plain_indexed op index).visible]
  simp only [read_indexed op index, inlineIndex_indexed op index]
  cases integer? digits <;> rfl

/-! ### Steps -/

theorem readFurther_parts (read : List.Forall₂ (fun part q => readAlternative (trim part) = .ok q) parts ps)
    (p : Predicate) : readFurther p parts = .ok (ps.foldl .or p) := by
  induction read generalizing p with
  | nil => rfl
  | cons here _ ih =>
    rw [readFurther, here]
    exact ih _

theorem readStep_joined (name : String) (joined : Joined '|' (core :: cores) token)
    (each : ∀ part ∈ core :: cores, Standalone part) (here : readAlternative core = .ok p)
    (read : List.Forall₂ (fun part q => readAlternative part = .ok q) cores ps) :
    readStep name token = .ok (ps.foldl .or p) := by
  have parts := trimmed_parts_of_joined joined (by decide) (by decide)
    (fun part member => ⟨(each part member).alternative, (each part member).tight⟩)
    .nil .nil
  rw [List.nil_append, List.append_nil] at parts
  unfold readStep
  cases split : splitUnquoted '|' token with
  | nil => rw [split] at parts; cases parts
  | cons first rest =>
    rw [split, List.map_cons] at parts
    obtain ⟨rfl, rfl⟩ := List.cons.inj parts
    simp only [here]
    exact readFurther_parts (List.forall₂_map_left_iff.mp read) p

/-! ### Tokens -/

theorem tokens_joined (joined : Joined ';' parts text)
    (each : ∀ part ∈ parts, Unsplit ';' false part ∧ Tight part ∧ part ≠ []) (blank : Blank before)
    (blank' : Blank after) : tokens (before ++ text ++ after) = parts := by
  have trimmed := trimmed_parts_of_joined joined (by decide) (by decide)
    (fun part member => ⟨(each part member).1, (each part member).2.1⟩) blank blank'
  rw [tokens, trimmed, List.filter_eq_self]
  intro part member
  rw [Bool.not_eq_true', List.isEmpty_eq_false_iff]
  exact (each part member).2.2

theorem readSteps_step {gap : Option Nat} (noGap : token.head? ≠ some '?') :
    readSteps name gap (token :: parts) = (readStep name token).bind fun p =>
      (readSteps name none parts).map (⟨gap.getD 0, p⟩ :: ·) := by
  rw [readSteps]
  · cases readStep name token with
    | error fault => rfl
    | ok p => cases readSteps name none parts <;> rfl
  · rintro digits rfl
    exact noGap rfl

theorem readSteps_mark (name : String) (gap : Option Nat) (digits : List Char) :
    readSteps name gap (('?' :: digits) :: parts) =
      (readGap digits).bind fun width => readSteps name (some width) parts := by
  rw [readSteps]
  cases readGap digits <;> rfl

theorem readSteps_gap {gap : Option Nat} {width : Nat} (filled : digits ≠ [])
    (number : natural? digits = some width) : readSteps name gap (('?' :: digits) :: parts) =
      readSteps name (some width) parts := by
  have here : readGap digits = .ok width := by
    rw [readGap, if_neg (by simp [filled]), number]
  rw [readSteps_mark, here]
  rfl

theorem read_single (name : String) (alone : Standalone core) (blank : Blank before)
    (blank' : Blank after) : read name (String.ofList (before ++ core ++ after)) =
      (readAlternative core).map fun p => ⟨name, [⟨0, p⟩]⟩ := by
  have one : tokens (before ++ core ++ after) = [core] := by
    refine tokens_joined (.one core) (fun part member => ?_) blank blank'
    rw [List.mem_singleton.mp member]
    exact ⟨alone.step, alone.tight, alone.filled⟩
  have step : readStep name core = readAlternative core := by
    rw [readStep, splitUnquoted, alone.alternative.split]
    simp only [trim_eq_self alone.tight]
    cases readAlternative core <;> rfl
  rw [read, String.toList_ofList, one, readSteps_step alone.noGap, step]
  cases readAlternative core <;> rfl

theorem read_alone (name : String) (alone : Standalone core) :
    read name (String.ofList core) = (readAlternative core).map fun p => ⟨name, [⟨0, p⟩]⟩ := by
  have single := read_single name alone .nil .nil
  rwa [List.nil_append, List.append_nil] at single

end Interpose.Pattern

import Interpose.Proofs.Text.Trimming
import Interpose.Text.Split

/-!
Texts made of parts with separators between them, and how they come apart again. Parts with no
separator outside double quotes, and with every quote closed, are what splitting gives back, but for
the white space around the separators.
-/

set_option autoImplicit false
set_option relaxedAutoImplicit false

namespace Interpose.Text

/-- A text that is read from outside double quotes, or from inside, without a separator outside of
them, and that ends outside. -/
inductive Unsplit (sep : Char) : (quoted : Bool) → List Char → Prop
  | done : Unsplit sep false []
  | quote {quoted : Bool} {cs : List Char} :
      Unsplit sep (!quoted) cs → Unsplit sep quoted ('"' :: cs)
  | other {quoted : Bool} {c : Char} {cs : List Char} :
      c ≠ '"' → c ≠ sep ∨ quoted = true → Unsplit sep quoted cs → Unsplit sep quoted (c :: cs)

/-- The parts one after the other, with a separator between each two and any white space around
it. -/
inductive Joined (sep : Char) : List (List Char) → List Char → Prop
  | one (part : List Char) : Joined sep [part] part
  | more {part before after text : List Char} {parts : List (List Char)} :
      Blank before → Blank after → Joined sep parts text →
      Joined sep (part :: parts) (part ++ before ++ sep :: (after ++ text))

variable {sep : Char} {quoted : Bool} {s t part text before after : List Char}
  {parts : List (List Char)}

/-! ### Texts that stay in one part -/

theorem Unsplit.append (left : Unsplit sep quoted s) (right : Unsplit sep false t) :
    Unsplit sep quoted (s ++ t) := by
  induction left with
  | done => exact right
  | quote _ ih => exact .quote ih
  | other plain inside _ ih => exact .other plain inside ih

theorem Unsplit.of_free (free : ∀ c ∈ s, c ≠ '"' ∧ c ≠ sep) : Unsplit sep false s := by
  induction s with
  | nil => exact .done
  | cons c cs ih =>
    obtain ⟨⟨plain, other⟩, free⟩ := List.forall_mem_cons.mp free
    exact .other plain (.inl other) (ih free)

theorem Unsplit.of_quoted (closed : '"' ∉ s) : Unsplit sep false ('"' :: (s ++ ['"'])) := by
  have inside : Unsplit sep true (s ++ ['"']) := by
    induction s with
    | nil => exact .quote .done
    | cons c cs ih =>
      obtain ⟨other, closed⟩ := not_or.mp (mt List.mem_cons.mpr closed)
      exact .other (Ne.symm other) (.inr rfl) (ih closed)
  exact .quote inside

theorem Unsplit.of_blank (visible : isBlank sep = false) (blank : Blank s) :
    Unsplit sep false s := by
  refine .of_free fun c member => ⟨?_, ?_⟩ <;> rintro rfl
  · exact absurd (blank _ member) (by decide)
  · exact absurd (blank _ member) (by rw [visible]; exact Bool.false_ne_true)

theorem Unsplit.split_append (unsplit : Unsplit sep quoted s) (rest : List Char) :
    splitFrom sep quoted (s ++ rest) = (splitFrom sep false rest).modifyHead (s ++ ·) := by
  induction unsplit with
  | done => exact (congrFun List.modifyHead_id _).symm
  | quote _ ih => rw [List.cons_append, splitFrom_quote, ih, List.modifyHead_modifyHead]; rfl
  | other plain inside _ ih =>
    rw [List.cons_append, splitFrom_other plain inside, ih, List.modifyHead_modifyHead]; rfl

theorem Unsplit.split (unsplit : Unsplit sep quoted s) : splitFrom sep quoted s = [s] := by
  have alone := unsplit.split_append []
  rwa [splitFrom_nil, List.modifyHead_cons, List.append_nil] at alone

theorem Unsplit.split_sep (plain : sep ≠ '"') (unsplit : Unsplit sep quoted s) (rest : List Char) :
    splitFrom sep quoted (s ++ sep :: rest) = s :: splitFrom sep false rest := by
  rw [unsplit.split_append, splitFrom_sep plain, List.modifyHead_cons, List.append_nil]

/-! ### Joined parts -/

theorem Joined.exists_text (sep : Char) (some : parts ≠ []) : ∃ text, Joined sep parts text := by
  induction parts with
  | nil => exact absurd rfl some
  | cons part parts ih =>
    cases parts with
    | nil => exact ⟨part, .one part⟩
    | cons next parts =>
      obtain ⟨text, joined⟩ := ih nofun
      exact ⟨_, .more .nil .nil joined⟩

theorem Joined.head (joined : Joined sep (part :: parts) text) (some : part ≠ []) :
    text.head? = part.head? := by
  cases joined with
  | one => rfl
  | more _ _ _ => rw [List.append_assoc, List.head?_append_of_ne_nil _ some]

theorem Joined.tight (joined : Joined sep parts text)
    (each : ∀ part ∈ parts, Tight part ∧ part ≠ []) : Tight text ∧ text ≠ [] := by
  induction joined with
  | one part => exact each part (List.mem_singleton_self _)
  | @more part before after text parts _ _ _ ih =>
    obtain ⟨⟨tight, some⟩, each⟩ := List.forall_mem_cons.mp each
    obtain ⟨tight', some'⟩ := ih each
    have shape : part ++ before ++ sep :: (after ++ text) =
        part ++ (before ++ sep :: after) ++ text := by simp
    rw [shape]
    exact ⟨tight.append tight' some some', by simp [some]⟩

theorem Joined.unsplit {other : Char} (joined : Joined sep parts text) (plain : sep ≠ '"')
    (apart : sep ≠ other) (visible : isBlank other = false)
    (each : ∀ part ∈ parts, Unsplit other false part) : Unsplit other false text := by
  induction joined with
  | one part => exact each part (List.mem_singleton_self _)
  | more blank blank' _ ih =>
    obtain ⟨first, each⟩ := List.forall_mem_cons.mp each
    exact (first.append (.of_blank visible blank)).append
      (.other plain (.inl apart) ((Unsplit.of_blank visible blank').append (ih each)))

/-- Splitting a text of joined parts gives the parts back, with white space around them. -/
theorem trimmed_parts_of_joined (joined : Joined sep parts text) (plain : sep ≠ '"')
    (visible : isBlank sep = false) (each : ∀ part ∈ parts, Unsplit sep false part ∧ Tight part)
    (blank : Blank before) (blank' : Blank after) :
    (splitUnquoted sep (before ++ text ++ after)).map trim = parts := by
  -- the white space behind a separator goes in front of the parts that are left
  induction joined generalizing before with
  | one part =>
    obtain ⟨unsplit, tight⟩ := each part (List.mem_singleton_self _)
    have whole := ((Unsplit.of_blank visible blank).append unsplit).append
      (.of_blank visible blank')
    rw [splitUnquoted, whole.split, List.map_singleton, trim_tight tight blank blank']
  | @more part before' after' text parts inner inner' _ ih =>
    obtain ⟨⟨unsplit, tight⟩, each⟩ := List.forall_mem_cons.mp each
    have whole := ((Unsplit.of_blank visible blank).append unsplit).append
      (.of_blank visible inner)
    have shape : before ++ (part ++ before' ++ sep :: (after' ++ text)) ++ after =
        (before ++ part ++ before') ++ sep :: (after' ++ text ++ after) := by simp
    rw [splitUnquoted, shape, whole.split_sep plain, List.map_cons, trim_tight tight blank inner]
    exact congrArg (part :: ·) (ih each inner')

/-! ### Cutting at the first character of a class -/

theorem splitAtFirst_append {p : Char → Bool} {c : Char} (free : ∀ x ∈ s, p x = false)
    (hit : p c = true) (rest : List Char) : splitAtFirst p (s ++ c :: rest) = some (s, rest) := by
  induction s with
  | nil => rw [List.nil_append, splitAtFirst, if_pos hit]
  | cons x s ih =>
    obtain ⟨miss, free⟩ := List.forall_mem_cons.mp free
    rw [List.cons_append, splitAtFirst, if_neg (Bool.eq_false_iff.mp miss), ih free]
    rfl

theorem splitAtFirst_eq_none {p : Char → Bool} (free : ∀ x ∈ s, p x = false) :
    splitAtFirst p s = none := by
  induction s with
  | nil => rfl
  | cons x s ih =>
    obtain ⟨miss, free⟩ := List.forall_mem_cons.mp free
    rw [splitAtFirst, if_neg (Bool.eq_false_iff.mp miss), ih free]
    rfl

/-! ### Cutting at an end and at the last separator -/

theorem stripStart_eq_some_iff {start : List Char} : stripStart start s = some t ↔ s = start ++ t := by
  induction start generalizing s with
  | nil => exact Option.some_inj
  | cons p ps ih =>
    cases s with
    | nil => exact ⟨nofun, nofun⟩
    | cons c cs =>
      rw [stripStart, List.cons_append, List.cons.injEq]
      split
      · next same => rw [ih, and_iff_right same.symm]
      · next other => exact ⟨nofun, fun ⟨same, _⟩ => absurd same.symm other⟩

theorem stripEnd_eq_some_iff {ending : List Char} : stripEnd ending s = some t ↔ s = t ++ ending := by
  rw [stripEnd, Option.map_eq_some_iff]
  constructor
  · rintro ⟨front, stripped, rfl⟩
    rw [← List.reverse_reverse s, stripStart_eq_some_iff.mp stripped, List.reverse_append,
      List.reverse_reverse]
  · rintro rfl
    exact ⟨t.reverse, stripStart_eq_some_iff.mpr (List.reverse_append ..), List.reverse_reverse t⟩

theorem splitAtLast_append {mark : List Char} {x y : List Char}
    (found : splitAtLast mark s = some (x, y)) (front : List Char) :
    splitAtLast mark (front ++ s) = some (front ++ x, y) := by
  induction front with
  | nil => exact found
  | cons c front ih => rw [List.cons_append, splitAtLast, ih]; rfl

theorem splitAtLast_eq_none_iff {mark : List Char} (some : mark ≠ []) :
    splitAtLast mark s = none ↔ ¬ mark <:+: s := by
  induction s with
  | nil => exact ⟨fun _ held => some (List.infix_nil.mp held), fun _ => rfl⟩
  | cons c cs ih =>
    rw [splitAtLast, List.infix_cons_iff, not_or, ← ih]
    cases splitAtLast mark cs with
    | some cut => exact ⟨nofun, fun ⟨_, absent⟩ => nomatch absent⟩
    | none =>
      rw [Option.map_eq_none_iff, Option.eq_none_iff_forall_ne_some, and_iff_left rfl]
      constructor
      · rintro missing ⟨rest, here⟩
        exact missing rest (stripStart_eq_some_iff.mpr here.symm)
      · intro missing rest stripped
        exact missing ⟨rest, (stripStart_eq_some_iff.mp stripped).symm⟩

end Interpose.Text

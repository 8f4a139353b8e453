import Interpose.Text.Blank

/-!
Cutting a text at separators. Pattern texts separate steps and alternatives by characters that do
not count between double quotes, member names end at their last double colon, type names at their
last dot, and a step's mnemonic ends at its first white space.
-/

set_option autoImplicit false
set_option relaxedAutoImplicit false

namespace Interpose.Text

private def consFirst (c : Char) : List (List Char) → List (List Char)
  | [] => [[c]]
  | part :: parts => (c :: part) :: parts

/-- The parts of a text between the separators that stand outside double quotes. `quoted` says
whether an odd number of quotes came before; the quotes themselves stay in their parts. -/
def splitFrom (sep : Char) : (quoted : Bool) → List Char → List (List Char)
  | _, [] => [[]]
  | quoted, c :: cs =>
    if c = '"' then consFirst c (splitFrom sep (!quoted) cs)
    else if c = sep && !quoted then [] :: splitFrom sep quoted cs
    else consFirst c (splitFrom sep quoted cs)

theorem splitFrom_ne_nil (sep : Char) (quoted : Bool) (s : List Char) :
    splitFrom sep quoted s ≠ [] := by
  have kept : ∀ (c : Char) (parts : List (List Char)), consFirst c parts ≠ [] := by
    intro c parts
    cases parts <;> nofun
  cases s with
  | nil => nofun
  | cons c cs =>
    unfold splitFrom
    split
    · exact kept c _
    · split
      · nofun
      · exact kept c _

private theorem consFirst_eq {c : Char} {parts : List (List Char)} (some : parts ≠ []) :
    consFirst c parts = parts.modifyHead (c :: ·) := by
  cases parts with
  | nil => exact absurd rfl some
  | cons part parts => rfl

@[simp] theorem splitFrom_nil (sep : Char) (quoted : Bool) : splitFrom sep quoted [] = [[]] := rfl

theorem splitFrom_quote (sep : Char) (quoted : Bool) (cs : List Char) :
    splitFrom sep quoted ('"' :: cs) = (splitFrom sep (!quoted) cs).modifyHead ('"' :: ·) := by
  rw [splitFrom, if_pos rfl, consFirst_eq (splitFrom_ne_nil sep (!quoted) cs)]

theorem splitFrom_sep {sep : Char} (plain : sep ≠ '"') (cs : List Char) :
    splitFrom sep false (sep :: cs) = [] :: splitFrom sep false cs := by
  rw [splitFrom, if_neg plain, if_pos (by simp)]

theorem splitFrom_other {sep c : Char} {quoted : Bool} (plain : c ≠ '"')
    (inside : c ≠ sep ∨ quoted = true) (cs : List Char) :
    splitFrom sep quoted (c :: cs) = (splitFrom sep quoted cs).modifyHead (c :: ·) := by
  have kept : ¬ (c = sep && !quoted) = true := by
    rcases inside with other | rfl
    · simp [other]
    · simp
  rw [splitFrom, if_neg plain, if_neg kept, consFirst_eq (splitFrom_ne_nil sep quoted cs)]

/-- The parts of a text between separators outside double quotes: always at least one part, and
one more than there are such separators. -/
def splitUnquoted (sep : Char) (s : List Char) : List (List Char) := splitFrom sep false s

/-- The text before and after the first character of a class, without that character. -/
def splitAtFirst (p : Char → Bool) : List Char → Option (List Char × List Char)
  | [] => none
  | c :: cs =>
    if p c then some ([], cs)
    else (splitAtFirst p cs).map fun (before, after) => (c :: before, after)

/-- The text before and after the last occurrence of a separator. -/
def splitAtLast (sep : List Char) : List Char → Option (List Char × List Char)
  | [] => none
  | c :: cs =>
    match splitAtLast sep cs with
    | some (before, after) => some (c :: before, after)
    | none => (stripStart sep (c :: cs)).map fun after => ([], after)

end Interpose.Text

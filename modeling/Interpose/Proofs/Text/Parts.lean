import Interpose.Text.Split
import Mathlib.Algebra.Ring.Parity

/-!
The parts of a text. With the separators between them they are the whole text again, and a separator
that is left in one of them stands where quotes are open. Two texts with a separator between them have
the parts of both, if no quotes are open at the end of the first. The same parts come out where a text
is cut at offsets in its encoding, in which characters have different widths.
-/

set_option autoImplicit false
set_option relaxedAutoImplicit false

namespace Interpose.Text

variable {sep c : Char} {quoted : Bool} {s t x y : List Char} {parts front back : List (List Char)}

/-! ### Open quotes -/

/-- Whether quotes are open behind a character, if they are or are not in front of it. -/
def turned (quoted : Bool) (c : Char) : Bool := if c = '"' then !quoted else quoted

/-- Whether quotes are open behind a text. -/
def endsQuoted (quoted : Bool) (s : List Char) : Bool := s.foldl turned quoted

theorem endsQuoted_cons (quoted : Bool) (c : Char) (s : List Char) :
    endsQuoted quoted (c :: s) = endsQuoted (turned quoted c) s := rfl

theorem endsQuoted_eq (quoted : Bool) (s : List Char) :
    endsQuoted quoted s = (quoted ^^ decide (Odd (s.count '"'))) := by
  induction s generalizing quoted with
  | nil => simp [endsQuoted]
  | cons c cs ih =>
    rw [endsQuoted_cons, ih, turned]
    by_cases quote : c = '"'
    · subst quote
      simp [Nat.odd_add_one, -Nat.not_odd_iff_even]
    · simp [quote]

theorem endsQuoted_iff : endsQuoted false s = true ↔ Odd (s.count '"') := by
  simp [endsQuoted_eq]

/-! ### The first character -/

/-- A character ends a part: it is the separator, outside of quotes. -/
def Cuts (sep : Char) (quoted : Bool) (c : Char) : Prop := c = sep ∧ sep ≠ '"' ∧ quoted = false

theorem Cuts.turned (cuts : Cuts sep quoted c) : turned quoted c = false := by
  obtain ⟨rfl, plain, rfl⟩ := cuts
  exact if_neg plain

theorem splitFrom_cut (cuts : Cuts sep quoted c) (cs : List Char) :
    splitFrom sep quoted (c :: cs) = [] :: splitFrom sep false cs := by
  obtain ⟨rfl, plain, rfl⟩ := cuts
  exact splitFrom_sep plain cs

theorem splitFrom_keep (keeps : ¬Cuts sep quoted c) (cs : List Char) :
    splitFrom sep quoted (c :: cs) =
      (splitFrom sep (turned quoted c) cs).modifyHead (c :: ·) := by
  by_cases quote : c = '"'
  · subst quote
    exact splitFrom_quote sep quoted cs
  · have inside : c ≠ sep ∨ quoted = true := by
      by_contra cut
      obtain ⟨same, outside⟩ := not_or.mp cut
      obtain rfl : c = sep := not_not.mp same
      exact keeps ⟨rfl, quote, Bool.eq_false_iff.mpr outside⟩
    rw [turned, if_neg quote]
    exact splitFrom_other quote inside cs

theorem modify_head_append {α : Type} {f : α → α} {first : List α} (some : first ≠ [])
    (second : List α) : (first ++ second).modifyHead f = first.modifyHead f ++ second := by
  cases first with
  | nil => exact absurd rfl some
  | cons a first => rfl

/-! ### Texts end to end -/

/-- A separator that stands outside of quotes ends one text and begins another. -/
theorem splitFrom_append (plain : sep ≠ '"') (closed : endsQuoted quoted s = false)
    (t : List Char) :
    splitFrom sep quoted (s ++ sep :: t) = splitFrom sep quoted s ++ splitFrom sep false t := by
  induction s generalizing quoted with
  | nil =>
    obtain rfl : quoted = false := closed
    exact splitFrom_sep plain t
  | cons c cs ih =>
    rw [endsQuoted_cons] at closed
    have rest := ih closed
    rw [List.cons_append]
    by_cases cuts : Cuts sep quoted c
    · rw [cuts.turned] at rest
      rw [splitFrom_cut cuts, splitFrom_cut cuts, rest, List.cons_append]
    · rw [splitFrom_keep cuts, splitFrom_keep cuts, rest,
        modify_head_append (splitFrom_ne_nil _ _ _)]

/-! ### Joined again -/

def ended (sep : Char) (parts : List (List Char)) : List Char := parts.flatMap (· ++ [sep])

theorem intercalate_cons (sep : Char) (part : List Char) (some : parts ≠ []) :
    [sep].intercalate (part :: parts) = part ++ sep :: [sep].intercalate parts := by
  obtain ⟨next, rest, rfl⟩ := List.exists_cons_of_ne_nil some
  rw [List.intercalate_cons_cons, List.append_assoc]
  rfl

theorem intercalate_starts (sep : Char) (part : List Char) (parts : List (List Char)) :
    ∃ rest, [sep].intercalate (part :: parts) = part ++ rest := by
  cases parts with
  | nil => exact ⟨[], by simp⟩
  | cons next parts => exact ⟨_, intercalate_cons sep part (List.cons_ne_nil next parts)⟩

theorem intercalate_append (sep : Char) (front : List (List Char)) (some : back ≠ []) :
    [sep].intercalate (front ++ back) = ended sep front ++ [sep].intercalate back := by
  induction front with
  | nil => rfl
  | cons part front ih =>
    have some' : front ++ back ≠ [] := List.append_ne_nil_of_right_ne_nil front some
    rw [List.cons_append, intercalate_cons sep part some', ih]
    simp [ended]

theorem intercalate_modify_head (sep c : Char) (some : parts ≠ []) :
    [sep].intercalate (parts.modifyHead (c :: ·)) = c :: [sep].intercalate parts := by
  obtain ⟨part, rest, rfl⟩ := List.exists_cons_of_ne_nil some
  cases rest with
  | nil => simp
  | cons next rest => simp [List.intercalate_cons_cons]

theorem intercalate_splitFrom (sep : Char) (quoted : Bool) (s : List Char) :
    [sep].intercalate (splitFrom sep quoted s) = s := by
  induction s generalizing quoted with
  | nil => rfl
  | cons c cs ih =>
    by_cases cuts : Cuts sep quoted c
    · rw [splitFrom_cut cuts, intercalate_cons _ _ (splitFrom_ne_nil _ _ _), ih, cuts.1,
        List.nil_append]
    · rw [splitFrom_keep cuts, intercalate_modify_head _ _ (splitFrom_ne_nil _ _ _), ih]

/-! ### Separators inside -/

theorem separator_behind (found : parts.modifyHead (c :: ·) = front ++ (x ++ sep :: y) :: back) :
    (ended sep front ++ x = [] ∧ c = sep) ∨
    ∃ front' x', parts = front' ++ (x' ++ sep :: y) :: back ∧
      ended sep front ++ x = c :: (ended sep front' ++ x') := by
  cases parts with
  | nil => simp at found
  | cons part parts =>
    rw [List.modifyHead_cons] at found
    cases front with
    | nil =>
      obtain ⟨first, rfl⟩ := List.cons.inj found
      cases x with
      | nil => exact .inl ⟨rfl, (List.cons.inj first).1⟩
      | cons d x =>
        obtain ⟨rfl, rfl⟩ := List.cons.inj first
        exact .inr ⟨[], x, rfl, rfl⟩
    | cons part' front =>
      obtain ⟨rfl, rfl⟩ := List.cons.inj found
      exact .inr ⟨part :: front, x, rfl, rfl⟩

theorem separator_quoted (plain : sep ≠ '"')
    (found : splitFrom sep quoted s = front ++ (x ++ sep :: y) :: back) :
    endsQuoted quoted (ended sep front ++ x) = true := by
  induction s generalizing quoted front x with
  | nil =>
    cases front with
    | nil => simp at found
    | cons part front => simp at found
  | cons c cs ih =>
    by_cases cuts : Cuts sep quoted c
    · rw [splitFrom_cut cuts] at found
      cases front with
      | nil => simp at found
      | cons part front =>
        obtain ⟨rfl, rest⟩ := List.cons.inj found
        have behind := ih rest
        rw [← cuts.turned, cuts.1] at behind
        exact behind
    · rw [splitFrom_keep cuts] at found
      rcases separator_behind found with ⟨nothing, same⟩ | ⟨front', x', rest, shape⟩
      · rw [nothing]
        by_contra outside
        exact cuts ⟨same, plain, Bool.eq_false_iff.mpr outside⟩
      · rw [shape, endsQuoted_cons]
        exact ih rest

/-- In the whole text, an odd number of quotes stands in front of a separator that is left inside a
part. -/
theorem separator_inside (plain : sep ≠ '"')
    (found : splitUnquoted sep s = front ++ (x ++ sep :: y) :: back) :
    ∃ before after, s = before ++ sep :: after ∧ before = ended sep front ++ x ∧
      Odd (before.count '"') := by
  obtain ⟨rest, shape⟩ := intercalate_starts sep (x ++ sep :: y) back
  refine ⟨ended sep front ++ x, y ++ rest, ?_, rfl, endsQuoted_iff.mp (separator_quoted plain found)⟩
  have whole := intercalate_splitFrom sep false s
  rw [splitUnquoted] at found
  rw [found, intercalate_append sep front (List.cons_ne_nil _ _), shape] at whole
  rw [← whole]
  simp

/-! ### Offsets in the encoding -/

def octets (s : List Char) : Nat := (s.map Char.utf8Size).sum

/-- A text cut behind some octets, unless that is within a character or behind the end. -/
def cutAt? : Nat → List Char → Option (List Char × List Char)
  | 0, s => some ([], s)
  | _ + 1, [] => none
  | n + 1, c :: cs =>
    if c.utf8Size ≤ n + 1 then
      (cutAt? (n + 1 - c.utf8Size) cs).map fun (before, after) => (c :: before, after)
    else none

/-- The text between two offsets, if a text can be cut there. -/
def slice? (s : List Char) (bounds : Nat × Nat) : Option (List Char) :=
  if bounds.1 ≤ bounds.2 then
    (cutAt? bounds.1 s).bind fun (_, behind) =>
      (cutAt? (bounds.2 - bounds.1) behind).map (·.1)
  else none

/-- The bounds of the parts of a text. `offset` runs over the text, and `start` is where the part
begins that is not at its end yet. -/
def boundsFrom (sep : Char) : (quoted : Bool) → (start offset : Nat) → List Char → List (Nat × Nat)
  | _, start, offset, [] => [(start, offset)]
  | quoted, start, offset, c :: cs =>
    let behind := offset + c.utf8Size
    if c = '"' then boundsFrom sep (!quoted) start behind cs
    else if c = sep && !quoted then (start, offset) :: boundsFrom sep quoted behind behind cs
    else boundsFrom sep quoted start behind cs

theorem boundsFrom_cut (cuts : Cuts sep quoted c) (start offset : Nat) (cs : List Char) :
    boundsFrom sep quoted start offset (c :: cs) =
      (start, offset) :: boundsFrom sep false (offset + c.utf8Size) (offset + c.utf8Size) cs := by
  obtain ⟨rfl, plain, rfl⟩ := cuts
  simp [boundsFrom, plain]

theorem boundsFrom_keep (keeps : ¬Cuts sep quoted c) (start offset : Nat) (cs : List Char) :
    boundsFrom sep quoted start offset (c :: cs) =
      boundsFrom sep (turned quoted c) start (offset + c.utf8Size) cs := by
  rw [boundsFrom, turned]
  by_cases quote : c = '"'
  · rw [if_pos quote, if_pos quote]
  · have inside : ¬(c = sep && !quoted) = true := by
      intro cut
      have ⟨same, outside⟩ : c = sep ∧ quoted = false := by simpa using cut
      exact keeps ⟨same, same ▸ quote, outside⟩
    rw [if_neg quote, if_neg quote, if_neg inside]

theorem cutAt_octets (s t : List Char) : cutAt? (octets s) (s ++ t) = some (s, t) := by
  induction s with
  | nil => simp [octets, cutAt?]
  | cons c cs ih =>
    have wide := c.utf8Size_pos
    have whole : octets (c :: cs) = c.utf8Size + octets cs := by simp [octets]
    obtain ⟨n, size⟩ : ∃ n, octets (c :: cs) = n + 1 := ⟨octets (c :: cs) - 1, by omega⟩
    have fits : c.utf8Size ≤ n + 1 := by omega
    have rest : n + 1 - c.utf8Size = octets cs := by omega
    rw [size, List.cons_append, cutAt?, if_pos fits, rest, ih]
    rfl

theorem slice_octets (front part back : List Char) :
    slice? (front ++ part ++ back) (octets front, octets front + octets part) = some part := by
  have width : octets front + octets part - octets front = octets part := by omega
  rw [slice?, if_pos (Nat.le_add_right _ _), List.append_assoc, cutAt_octets]
  simp only [Option.bind_some, width, cutAt_octets, Option.map_some]

theorem slices_from (quoted : Bool) (front part s : List Char) :
    (boundsFrom sep quoted (octets front) (octets front + octets part) s).map
        (slice? (front ++ part ++ s)) =
      ((splitFrom sep quoted s).modifyHead (part ++ ·)).map some := by
  -- `front` has been cut already, and `part` is not at its end yet
  induction s generalizing quoted front part with
  | nil => simpa [boundsFrom] using slice_octets front part []
  | cons c cs ih =>
    by_cases cuts : Cuts sep quoted c
    · have rest := ih false (front ++ part ++ [c]) []
      have start : octets (front ++ part ++ [c]) = octets front + octets part + c.utf8Size := by
        simp [octets, Nat.add_assoc]
      have fresh : (splitFrom sep false cs).modifyHead ([] ++ ·) = splitFrom sep false cs :=
        congrFun List.modifyHead_id _
      have none : octets [] = 0 := rfl
      rw [boundsFrom_cut cuts, splitFrom_cut cuts, List.map_cons, slice_octets]
      rw [start, fresh, none, Nat.add_zero] at rest
      simpa using rest
    · have rest := ih (turned quoted c) front (part ++ [c])
      have wide : octets (part ++ [c]) = octets part + c.utf8Size := by simp [octets]
      rw [boundsFrom_keep cuts, splitFrom_keep cuts, List.modifyHead_modifyHead]
      rw [wide, ← Nat.add_assoc] at rest
      simpa [Function.comp_def] using rest

theorem slices_of_bounds (sep : Char) (s : List Char) :
    (boundsFrom sep false 0 0 s).map (slice? s) = (splitUnquoted sep s).map some := by
  have same : (splitFrom sep false s).modifyHead ([] ++ ·) = splitFrom sep false s :=
    congrFun List.modifyHead_id _
  have slices : (boundsFrom sep false 0 0 s).map (slice? s) = _ := slices_from false [] [] s
  rw [slices, same]
  rfl

end Interpose.Text

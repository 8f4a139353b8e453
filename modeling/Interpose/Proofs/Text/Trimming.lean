import Interpose.Text.Blank
import Mathlib.Data.List.DropRight

/-!
White space around a text, and what trimming it leaves. A text that neither starts nor ends with
white space comes back from any white space around it.
-/

set_option autoImplicit false
set_option relaxedAutoImplicit false

namespace Interpose.Text

def Blank (s : List Char) : Prop := ∀ c ∈ s, isBlank c = true

def Visible (s : List Char) : Prop := ∀ c ∈ s, isBlank c = false

instance (s : List Char) : Decidable (Blank s) := List.decidableBAll _ s

instance (s : List Char) : Decidable (Visible s) := List.decidableBAll _ s

structure Tight (s : List Char) : Prop where
  first : ∀ c, s.head? = some c → isBlank c = false
  last : ∀ c, s.getLast? = some c → isBlank c = false

variable {p : Char → Bool} {s t rest before after : List Char}

/-! ### The end of a text -/

theorem trimEnd_append (all : ∀ c ∈ rest, p c = true) : trimEnd p (s ++ rest) = trimEnd p s := by
  have all' : ∀ c ∈ rest.reverse, p c = true := fun c member => all c (List.mem_reverse.mp member)
  rw [trimEnd, List.reverse_append, List.dropWhile_append_of_pos all', trimEnd]

theorem trimEnd_eq_self (last : ∀ c, s.getLast? = some c → p c = false) : trimEnd p s = s :=
  List.rdropWhile_eq_self_iff.mpr fun some => by
    rw [last _ (List.getLast?_eq_some_getLast some)]
    exact Bool.false_ne_true

theorem trimEnd_spec (p : Char → Bool) (s : List Char) :
    ∃ rest, s = trimEnd p s ++ rest ∧ ∀ c ∈ rest, p c = true := by
  refine ⟨s.rtakeWhile p, List.rdropWhile_append_rtakeWhile.symm, fun c member => ?_⟩
  exact List.mem_rtakeWhile_imp member

/-! ### Both ends -/

theorem Blank.nil : Blank [] := nofun

theorem Blank.space : Blank [' '] := by decide

theorem Visible.tight (visible : Visible s) : Tight s :=
  ⟨fun c first => visible c (List.mem_of_head? first),
    fun c last => visible c (List.mem_of_getLast? last)⟩

theorem Tight.append (left : Tight s) (right : Tight t) (some : s ≠ []) (some' : t ≠ []) :
    Tight (s ++ rest ++ t) := by
  constructor
  · intro c first
    rw [List.append_assoc, List.head?_append_of_ne_nil _ some] at first
    exact left.first c first
  · intro c last
    rw [List.getLast?_append_of_ne_nil _ some'] at last
    exact right.last c last

theorem trim_tight (tight : Tight s) (blank : Blank before) (blank' : Blank after) :
    trim (before ++ s ++ after) = s := by
  have start : trimStart isBlank (before ++ s ++ after) = trimStart isBlank (s ++ after) := by
    rw [trimStart, List.append_assoc, List.dropWhile_append_of_pos blank, trimStart]
  rw [trim, start]
  cases s with
  | nil => rw [trimStart, List.nil_append, List.dropWhile_eq_nil_iff.mpr blank']; rfl
  | cons c s =>
    have stays : trimStart isBlank (c :: s ++ after) = c :: s ++ after := by
      rw [trimStart, List.cons_append, List.dropWhile_cons_of_neg]
      rw [tight.first c rfl]
      exact Bool.false_ne_true
    rw [stays, trimEnd_append blank', trimEnd_eq_self tight.last]

theorem trim_eq_self (tight : Tight s) : trim s = s := by
  have same := trim_tight tight .nil .nil
  rwa [List.nil_append, List.append_nil] at same

theorem trim_append (tight : Tight t) (some : t ≠ []) :
    trim (s ++ t) = trimStart isBlank s ++ t := by
  have stays : trimStart isBlank t = t := by
    obtain ⟨c, cs, rfl⟩ := List.exists_cons_of_ne_nil some
    exact List.dropWhile_cons_of_neg (Bool.eq_false_iff.mp (tight.first c rfl))
  have start : trimStart isBlank (s ++ t) = trimStart isBlank s ++ t := by
    rw [trimStart, List.dropWhile_append]
    split
    · next empty => rw [trimStart, List.isEmpty_iff.mp empty, List.nil_append]; exact stays
    · rfl
  rw [trim, start]
  refine trimEnd_eq_self fun c last => tight.last c ?_
  rwa [List.getLast?_append_of_ne_nil _ some] at last

/-! ### Letter case -/

theorem lower_eq_self (same : ∀ c ∈ s, c.toLower = c) : lower s = s :=
  (List.map_congr_left same).trans (List.map_id s)

theorem letter_visible {c : Char} (low : 'a' ≤ c) (high : c ≤ 'z') : isBlank c = false := by
  have low : 97 ≤ c.toNat := low
  have high : c.toNat ≤ 122 := high
  refine Bool.eq_false_iff.mpr fun blank => ?_
  simp only [isBlank, Bool.or_eq_true, Bool.and_eq_true, decide_eq_true_eq, beq_iff_eq] at blank
  omega

theorem letter_lower {c : Char} (low : 'a' ≤ c) : c.toLower = c := by
  refine dif_neg ?_
  rintro ⟨-, high⟩
  have low : 97 ≤ c.toNat := low
  have high : c.toNat ≤ 90 := high
  omega

theorem to_lower_of_blank {c : Char} (blank : isBlank c = true) : c.toLower = c := by
  have other : ¬ (c.val ≥ 'A'.val ∧ c.val ≤ 'Z'.val) := by
    rintro ⟨low, high⟩
    have low : 65 ≤ c.toNat := low
    have high : c.toNat ≤ 90 := high
    simp only [isBlank, Bool.or_eq_true, Bool.and_eq_true, decide_eq_true_eq, beq_iff_eq] at blank
    omega
  exact dif_neg other

theorem last_of_lower (last : ∀ c, (lower s).getLast? = some c → isBlank c = false) :
    ∀ c, s.getLast? = some c → isBlank c = false := by
  intro c here
  refine Bool.eq_false_iff.mpr fun blank => ?_
  have visible := last c (by rw [lower, List.getLast?_map, here, Option.map_some,
    to_lower_of_blank blank])
  rw [blank] at visible
  cases visible

end Interpose.Text

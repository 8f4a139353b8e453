import Interpose.Proofs.Text.Trimming
import Interpose.Text.Numeral

/-!
Decimal numbers in text: what the readers make of a row of digits of any length, and that a number
written in decimal is read back.
-/

set_option autoImplicit false
set_option relaxedAutoImplicit false

namespace Interpose.Text

variable {s : List Char} {n : Nat}

structure Digits (s : List Char) : Prop where
  filled : s ≠ []
  all : ∀ c ∈ s, isDigit c = true

instance (s : List Char) : Decidable (Digits s) :=
  decidable_of_iff ((!s.isEmpty && s.all isDigit) = true) (by
    rw [Bool.and_eq_true, Bool.not_eq_true', List.isEmpty_eq_false_iff, List.all_eq_true]
    exact ⟨fun ⟨filled, all⟩ => ⟨filled, all⟩, fun digits => ⟨digits.filled, digits.all⟩⟩)

theorem isDigit_iff {c : Char} : isDigit c = true ↔ 48 ≤ c.toNat ∧ c.toNat ≤ 57 := by
  rw [isDigit, Bool.and_eq_true, decide_eq_true_eq, decide_eq_true_eq]
  rfl

theorem digit_visible {c : Char} (digit : isDigit c = true) : isBlank c = false := by
  obtain ⟨low, high⟩ := isDigit_iff.mp digit
  refine Bool.eq_false_iff.mpr fun blank => ?_
  simp only [isBlank, Bool.or_eq_true, Bool.and_eq_true, decide_eq_true_eq, beq_iff_eq] at blank
  omega

theorem digit_lower {c : Char} (digit : isDigit c = true) : c.toLower = c := by
  refine dif_neg ?_
  rintro ⟨low, -⟩
  have low : 65 ≤ c.toNat := low
  have high := (isDigit_iff.mp digit).2
  omega

theorem hexDigit_of_isDigit {c : Char} (digit : isDigit c = true) :
    hexDigit? c = some (c.toNat - '0'.toNat) := if_pos digit

theorem digit_value_lt {c : Char} (digit : isDigit c = true) : c.toNat - '0'.toNat < 10 := by
  have last := (isDigit_iff.mp digit).2
  have zero : '0'.toNat = 48 := rfl
  omega

theorem digits_eq_some (digits : Digits s) : digits? 10 s = some (Nat.ofDigitChars 10 s 0) := by
  have fold : ∀ (s : List Char) (n : Nat), (∀ c ∈ s, isDigit c = true) →
      s.foldlM (fun n c => (hexDigit? c).bind fun d =>
        if d < 10 then some (n * 10 + d) else none) n = some (Nat.ofDigitChars 10 s n) := by
    intro s
    induction s with
    | nil => exact fun _ _ => rfl
    | cons c s ih =>
      intro n all
      obtain ⟨digit, all⟩ := List.forall_mem_cons.mp all
      rw [List.foldlM_cons, hexDigit_of_isDigit digit, Option.bind_some,
        if_pos (digit_value_lt digit), Nat.ofDigitChars_cons, Nat.mul_comm 10 n]
      exact ih _ all
  rw [digits?, if_neg (by simp [digits.filled])]
  exact fold s 0 digits.all

theorem decimal_digits (n : Nat) : Digits (decimal n).toList := by
  rw [decimal, String.toList_ofList]
  refine ⟨Nat.toDigits_ne_nil, fun c member => ?_⟩
  exact Nat.isDigit_of_mem_toDigits (by decide) (by decide) member

theorem digits_decimal (n : Nat) : digits? 10 (decimal n).toList = some n := by
  rw [digits_eq_some (decimal_digits n), decimal, String.toList_ofList,
    Nat.ofDigitChars_toDigits (by decide) (by decide)]

theorem Digits.visible (digits : Digits s) : Visible s := fun c member =>
  digit_visible (digits.all c member)

theorem Digits.last {t : List Char} (digits : Digits t) {c : Char}
    (last : (s ++ t).getLast? = some c) : isDigit c = true := by
  rw [List.getLast?_append_of_ne_nil _ digits.filled] at last
  exact digits.all c (List.mem_of_getLast? last)

/-! ### The readers -/

theorem Digits.eq_cons (digits : Digits s) : ∃ c cs, s = c :: cs ∧ c ≠ '+' ∧ c ≠ '-' := by
  obtain ⟨c, cs, rfl⟩ := List.exists_cons_of_ne_nil digits.filled
  have digit := digits.all c List.mem_cons_self
  refine ⟨c, cs, rfl, ?_, ?_⟩ <;> rintro rfl <;> exact absurd digit (by decide)

theorem integer_unsigned (digits : Digits s) :
    integer? s = (((digits? 10 s).map Int.ofNat).filter fun v =>
      -(Nat.pow 2 63 : Int) ≤ v && v < Nat.pow 2 63).map Int64.ofInt := by
  obtain ⟨c, cs, rfl, plus, minus⟩ := digits.eq_cons
  unfold integer?
  split
  · next shape => exact absurd (List.cons.inj shape).1 plus
  · next shape => exact absurd (List.cons.inj shape).1 minus
  · rfl

theorem in_range_iff {v : Int} :
    (-(Nat.pow 2 63 : Int) ≤ v && v < Nat.pow 2 63) = true ↔
      -(Nat.pow 2 63 : Int) ≤ v ∧ v < Nat.pow 2 63 := by
  rw [Bool.and_eq_true, decide_eq_true_eq, decide_eq_true_eq]

theorem integer_digits (digits : Digits s) (value : digits? 10 s = some n) :
    integer? s = if n < Nat.pow 2 63 then some (Int64.ofNat n) else none := by
  rw [integer_unsigned digits, value, Option.map_some, Option.filter_some]
  split
  · next inside =>
    have small : n < Nat.pow 2 63 := Int.ofNat_lt.mp (in_range_iff.mp inside).2
    rw [if_pos small]
    rfl
  · next outside =>
    have large : ¬ n < Nat.pow 2 63 := by
      intro small
      have negative : -(Nat.pow 2 63 : Int) ≤ 0 := by decide
      have above := Int.le_trans negative (Int.natCast_nonneg n)
      exact outside (in_range_iff.mpr ⟨above, Int.ofNat_lt.mpr small⟩)
    rw [if_neg large]
    rfl

theorem natural_decimal (small : n < Nat.pow 2 64) : natural? (decimal n).toList = some n := by
  have value := digits_decimal n
  obtain ⟨c, cs, shape, plus, -⟩ := (decimal_digits n).eq_cons
  rw [shape] at value ⊢
  unfold natural?
  split
  · next shape => exact absurd (List.cons.inj shape).1 plus
  · exact (congrArg _ value).trans (Option.filter_some_pos (decide_eq_true small))

theorem signed_chars (v : Int64) :
    (signed v).toList ≠ [] ∧ ∀ c ∈ (signed v).toList, isDigit c = true ∨ c = '-' := by
  have digits := decimal_digits v.toInt.natAbs
  rw [signed]
  split
  · rw [String.toList_append]
    refine ⟨nofun, List.forall_mem_cons.mpr ⟨.inr rfl, fun c member => .inl (digits.all c member)⟩⟩
  · exact ⟨digits.filled, fun c member => .inl (digits.all c member)⟩

theorem integer_signed (v : Int64) : integer? (signed v).toList = some v := by
  have range := in_range_iff.mpr ⟨v.le_toInt, v.toInt_lt⟩
  have value := digits_decimal v.toInt.natAbs
  rw [signed]
  split
  · next negative =>
    have back : -Int.ofNat v.toInt.natAbs = v.toInt := by
      rw [Int.ofNat_eq_natCast]
      omega
    rw [String.toList_append]
    change (((digits? 10 (decimal v.toInt.natAbs).toList).map fun n => -Int.ofNat n).filter _).map
      Int64.ofInt = _
    rw [value, Option.map_some, back, Option.filter_some, if_pos range, Option.map_some,
      Int64.ofInt_toInt]
  · next positive =>
    have back : Int.ofNat v.toInt.natAbs = v.toInt := by
      rw [Int.ofNat_eq_natCast]
      omega
    rw [integer_unsigned (decimal_digits _), value, Option.map_some, back, Option.filter_some,
      if_pos range, Option.map_some, Int64.ofInt_toInt]

end Interpose.Text

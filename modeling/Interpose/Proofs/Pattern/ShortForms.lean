import Interpose.Proofs.Pattern.Reading

/-!
Steps with an index, written in the mnemonic or behind it. Both forms mean the same where both are
accepted, but the short one is always accepted: also by opcodes that take no operand, and for indices
that fit no 64-bit integer, which it passes over.
-/

set_option autoImplicit false
set_option relaxedAutoImplicit false

namespace Interpose.Pattern

open Interpose.Text (Digits digits? digits_eq_some integer_digits)

/-- A step with its index in the mnemonic. -/
def shortForm (op : Opcode) (digits : List Char) : String :=
  String.ofList (op.mnemonic.toList ++ '.' :: digits)

/-- A step with its index as the operand. -/
def longForm (op : Opcode) (digits : List Char) : String :=
  String.ofList (op.mnemonic.toList ++ ' ' :: digits)

variable {op : Opcode} {name : String} {digits : List Char} {n : Nat}

theorem read_shortForm (op : Opcode) (name : String) (index : Digits digits)
    (value : digits? 10 digits = some n) : read name (shortForm op digits) =
      .ok ⟨name, [⟨0, if n < Nat.pow 2 63 then .index op (.ofNat n) else .opcode op⟩]⟩ := by
  rw [shortForm, read_alone name (.of_index op index), readAlternative_indexed op index,
    integer_digits index value]
  split <;> rfl

theorem read_longForm (name : String) (takes : op.operandKind = .index ∨ op.operandKind = .none)
    (index : Digits digits) (value : digits? 10 digits = some n) : read name (longForm op digits) =
      if op.operandKind = .index ∧ n < Nat.pow 2 63 then .ok ⟨name, [⟨0, .index op (.ofNat n)⟩]⟩
      else .error (.badOperand op.mnemonic (String.ofList digits)) := by
  have plain := plain_digits index
  have alone := read_alone name (.of_operand op .space index.visible.tight index.filled plain.step
    plain.alternative)
  have shape : op.mnemonic.toList ++ [' '] ++ digits = op.mnemonic.toList ++ ' ' :: digits := by simp
  rw [readAlternative_operand op .space nofun index.visible.tight, shape] at alone
  rw [longForm, alone, readOperand]
  rcases takes with takes | takes
  · simp only [takes, integer_digits index value]
    by_cases small : n < Nat.pow 2 63
    · rw [if_pos small, if_pos ⟨trivial, small⟩]
      rfl
    · rw [if_neg small, if_neg fun both => small both.2]
      rfl
  · simp only [takes]
    rw [if_neg (by simp)]
    rfl

/-- The two forms are accepted alike exactly if the opcode takes an index and the digits are a 64-bit
integer. Where both are accepted they mean the same. The index of a short form counts exactly if it is
a 64-bit integer. -/
theorem shortForm_agrees_iff (name : String)
    (takes : op.operandKind = .index ∨ op.operandKind = .none) (index : Digits digits) :
    ∃ n, digits? 10 digits = some n ∧
      read name (shortForm op digits) =
        .ok ⟨name, [⟨0, if n < Nat.pow 2 63 then .index op (.ofNat n) else .opcode op⟩]⟩ ∧
      (((∃ p, read name (shortForm op digits) = .ok p) ↔
          ∃ q, read name (longForm op digits) = .ok q) ↔ op.operandKind = .index ∧ n < Nat.pow 2 63) ∧
      ∀ p q, read name (shortForm op digits) = .ok p → read name (longForm op digits) = .ok q →
        p = q := by
  have value := digits_eq_some index
  have short := read_shortForm op name index value
  have long := read_longForm name takes index value
  refine ⟨_, value, short, ?_⟩
  by_cases both : op.operandKind = .index ∧ Nat.ofDigitChars 10 digits 0 < Nat.pow 2 63
  · rw [if_pos both] at long
    rw [if_pos both.2] at short
    exact ⟨iff_of_true (iff_of_true ⟨_, short⟩ ⟨_, long⟩) both, fun p q accepted accepted' =>
      Except.ok.inj ((accepted.symm.trans short).trans (long.symm.trans accepted'))⟩
  · rw [if_neg both] at long
    have refused : ∀ q, read name (longForm op digits) ≠ .ok q := by
      intro q accepted
      cases long.symm.trans accepted
    exact ⟨iff_of_false (fun alike => (alike.mp ⟨_, short⟩).elim refused) both,
      fun p q _ accepted => absurd accepted (refused q)⟩

/-- Zeros in front of an index do not count, however many there are. -/
theorem padded_constant_agrees : Opcode.ldcI8.operandKind = .index ∧
    Digits "0000000000000000000000042".toList ∧
    ((∃ p, read "answer" (shortForm .ldcI8 "0000000000000000000000042".toList) = .ok p) ↔
      ∃ q, read "answer" (longForm .ldcI8 "0000000000000000000000042".toList) = .ok q) := by
  have index : Digits "0000000000000000000000042".toList := by decide
  obtain ⟨n, value, -, agree, -⟩ :=
    shortForm_agrees_iff "answer" (.inl (rfl : Opcode.ldcI8.operandKind = .index)) index
  have small : n = 42 := Option.some.inj (value.symm.trans (by decide))
  exact ⟨rfl, index, agree.mpr ⟨rfl, by rw [small]; decide⟩⟩

/-- An index that is too large is passed over in the mnemonic and refused behind it. An index for an
opcode without operands is taken in the mnemonic and refused behind it. -/
theorem shortForm_differs :
    read "first" (shortForm .ldarg "9223372036854775808".toList) =
        .ok ⟨"first", [⟨0, .opcode .ldarg⟩]⟩ ∧
      read "first" (longForm .ldarg "9223372036854775808".toList) =
        .error (.badOperand "ldarg" "9223372036854775808") ∧
      read "copy" (shortForm .dup "3".toList) = .ok ⟨"copy", [⟨0, .index .dup 3⟩]⟩ ∧
      read "copy" (longForm .dup "3".toList) = .error (.badOperand "dup" "3") := by
  have large : Digits "9223372036854775808".toList := by decide
  have three : Digits "3".toList := by decide
  exact ⟨read_shortForm .ldarg "first" large (n := 9223372036854775808) (by decide),
    read_longForm "first" (.inl rfl) large (n := 9223372036854775808) (by decide),
    read_shortForm .dup "copy" three (n := 3) (by decide),
    read_longForm "copy" (.inr rfl) three (n := 3) (by decide)⟩

end Interpose.Pattern

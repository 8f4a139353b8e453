import Interpose.Opcode.Spelling
import Interpose.Proofs.Text.Numerals
import Interpose.Proofs.Text.Splitting

/-!
The spellings of an opcode. A canonical mnemonic is a spelling, and so is every mnemonic with an
index behind it. The suffix of a short form keeps the opcode of what it is put on, with one exception:
`ldc.i8` is a spelling of its own, but behind it `.s` uncovers the digit, and what is left counts as
`ldc.i4`.
-/

set_option autoImplicit false
set_option relaxedAutoImplicit false

namespace Interpose.Opcode

open Interpose.Text (Digits Tight Visible digit_lower digit_visible isBlank isDigit last_of_lower
  letter_lower letter_visible lower lower_eq_self stripEnd stripEnd_eq_some_iff trim trim_append
  trimEnd_append trimEnd_eq_self trimEnd_spec trimEnd trimStart)

/-- What marks a short form: `.s`, or a dot and the digits of an index. -/
inductive ShortSuffix : List Char → Prop
  | short : ShortSuffix ".s".toList
  | index {digits : List Char} : Digits digits → ShortSuffix ('.' :: digits)

/-- The opcode of a spelling in small letters with no white space around it. -/
def ofSpelling? (w : List Char) : Option Opcode := (ofMnemonic? w).or (ofMnemonic? (expand w))

/-- A spelling that ends neither in `.s` nor in a dot with or without digits behind it. -/
def isUnsuffixed (w : List Char) : Bool :=
  (stripEnd ".s".toList w).isNone && (trimEnd isDigit w).getLast? != some '.'

/-- The digit that the loads of constants keep: `ldc.i` stands for `ldc.i4`. -/
def restore (base : List Char) : List Char :=
  if base = "ldc.i".toList then "ldc.i4".toList else base

/-- A spelling without its last digits, and the dots before them. -/
def bare (w : List Char) : List Char := trimEnd (· == '.') (trimEnd isDigit w)

def isLetter (c : Char) : Bool := 'a' ≤ c && c ≤ 'z'

variable {op a b : Opcode} {s t u w base digits : List Char}

/-! ### Canonical mnemonics -/

theorem isLetter_iff {c : Char} : isLetter c = true ↔ 'a' ≤ c ∧ c ≤ 'z' := by
  rw [isLetter, Bool.and_eq_true, decide_eq_true_eq, decide_eq_true_eq]

theorem mem_all (op : Opcode) : op ∈ all := by cases op <;> decide

theorem ofMnemonic_eq_some_iff : ofMnemonic? w = some op ↔ w = op.mnemonic.toList := by
  have canonical : ∀ op ∈ all, ofMnemonic? op.mnemonic.toList = some op := by decide
  constructor
  · intro found
    have same := List.find?_some found
    exact (beq_iff_eq.mp same).symm
  · rintro rfl
    exact canonical op (mem_all op)

theorem mnemonic_chars (op : Opcode) :
    (∃ c cs, op.mnemonic.toList = c :: cs ∧ 'a' ≤ c ∧ c ≤ 'z') ∧
      ∀ c ∈ op.mnemonic.toList, ('a' ≤ c ∧ c ≤ 'z') ∨ isDigit c = true ∨ c = '.' := by
  have spelled : ∀ op ∈ all, op.mnemonic.toList.head?.any isLetter = true ∧
      op.mnemonic.toList.all (fun c => isLetter c || isDigit c || c == '.') = true := by decide
  obtain ⟨letter, chars⟩ := spelled op (mem_all op)
  obtain ⟨c, head, letter⟩ := (Option.any_eq_true ..).mp letter
  obtain ⟨cs, shape⟩ := List.head?_eq_some_iff.mp head
  refine ⟨⟨c, cs, shape, isLetter_iff.mp letter⟩, fun c member => ?_⟩
  have char := List.all_eq_true.mp chars c member
  rwa [Bool.or_eq_true, Bool.or_eq_true, isLetter_iff, beq_iff_eq, or_assoc] at char

theorem mnemonic_ne_nil (op : Opcode) : op.mnemonic.toList ≠ [] := by
  obtain ⟨⟨c, cs, shape, -⟩, -⟩ := mnemonic_chars op
  rw [shape]
  nofun

theorem mnemonic_visible (op : Opcode) : Visible op.mnemonic.toList := by
  intro c member
  rcases (mnemonic_chars op).2 c member with ⟨low, high⟩ | digit | rfl
  · exact letter_visible low high
  · exact digit_visible digit
  · decide

theorem lower_mnemonic (op : Opcode) : lower op.mnemonic.toList = op.mnemonic.toList := by
  refine lower_eq_self fun c member => ?_
  rcases (mnemonic_chars op).2 c member with ⟨low, -⟩ | digit | rfl
  · exact letter_lower low
  · exact digit_lower digit
  · decide

theorem mnemonic_unsuffixed (op : Opcode) : isUnsuffixed op.mnemonic.toList = true := by
  have unsuffixed : ∀ op ∈ all, isUnsuffixed op.mnemonic.toList = true := by decide
  exact unsuffixed op (mem_all op)

/-- A mnemonic without its digits is that of no other opcode, but for one that is left with `ldc.i`. -/
theorem of_bare_mnemonic (found : ofMnemonic? (restore (bare op.mnemonic.toList)) = some b) :
    b = op ∨ op = .ldcI8 ∧ b = .ldcI4 := by
  have bared : ∀ op ∈ all, ∀ b ∈ ofMnemonic? (restore (bare op.mnemonic.toList)),
      b = op ∨ op = .ldcI8 ∧ b = .ldcI4 := by decide
  exact bared op (mem_all op) b found

/-! ### Suffixes -/

theorem trim_digits_dot : trimEnd isDigit (s ++ ['.']) = s ++ ['.'] := by
  refine trimEnd_eq_self fun c last => ?_
  obtain rfl := Option.some.inj ((List.getLast?_concat ..).symm.trans last)
  decide

theorem trim_index (index : Digits digits) : trimEnd isDigit (s ++ '.' :: digits) = s ++ ['.'] := by
  rw [List.append_cons, trimEnd_append index.all, trim_digits_dot]

theorem strip_short (s : List Char) : stripEnd ".s".toList (s ++ ".s".toList) = some s :=
  stripEnd_eq_some_iff.mpr rfl

theorem strip_short_eq_none (last : ∀ c, w.getLast? = some c → c ≠ 's') :
    stripEnd ".s".toList w = none := by
  rw [Option.eq_none_iff_forall_ne_some]
  intro front stripped
  refine last 's' ?_ rfl
  rw [stripEnd_eq_some_iff.mp stripped, List.getLast?_append_of_ne_nil _ (by decide)]
  rfl

theorem ShortSuffix.tight (suffix : ShortSuffix t) : Tight t ∧ t ≠ [] := by
  refine ⟨Visible.tight ?_, ?_⟩
  · cases suffix with
    | short => decide
    | index index => exact List.forall_mem_cons.mpr ⟨by decide, index.visible⟩
  · cases suffix <;> nofun

theorem ShortSuffix.lower_eq (suffix : ShortSuffix t) : lower t = t := by
  cases suffix with
  | short => rfl
  | index index =>
    exact lower_eq_self (List.forall_mem_cons.mpr
      ⟨by decide, fun c member => digit_lower (index.all c member)⟩)

theorem ShortSuffix.suffixed (suffix : ShortSuffix t) : isUnsuffixed (u ++ t) = false := by
  rw [isUnsuffixed, Bool.and_eq_false_iff]
  cases suffix with
  | short => exact .inl (by rw [strip_short]; rfl)
  | index index =>
    rw [trim_index index, List.getLast?_concat]
    exact .inr (bne_self_eq_false _)

theorem withoutSuffix_short (u : List Char) : withoutSuffix (u ++ ".s".toList) = bare u := by
  rw [withoutSuffix, strip_short]; rfl

theorem withoutSuffix_index (index : Digits digits) :
    withoutSuffix (u ++ '.' :: digits) = trimEnd (· == '.') u := by
  have kept : stripEnd ".s".toList (u ++ '.' :: digits) = none := by
    refine strip_short_eq_none fun c last => ?_
    rw [List.append_cons] at last
    rintro rfl
    exact absurd (index.last last) (by decide)
  rw [withoutSuffix, kept, Option.getD_none, trim_index index]
  exact trimEnd_append (List.forall_mem_singleton.mpr rfl)

/-! ### Reading -/

theorem ofSpelling_suffixed (suffixed : isUnsuffixed w = false) :
    ofSpelling? w = ofMnemonic? (restore (withoutSuffix w)) := by
  have canonical : ofMnemonic? w = none := by
    rw [Option.eq_none_iff_forall_ne_some]
    intro op found
    rw [ofMnemonic_eq_some_iff.mp found, mnemonic_unsuffixed] at suffixed
    cases suffixed
  have unabbreviated : w ≠ "bne".toList ∧ w ≠ "unbox".toList := by
    constructor <;> rintro rfl <;> exact absurd suffixed (by decide)
  rw [ofSpelling?, canonical, Option.none_or, expand, if_neg unabbreviated.1,
    if_neg unabbreviated.2]
  rfl

theorem read_append (suffix : ShortSuffix t) :
    read? (s ++ t) = ofSpelling? (lower (trimStart isBlank s) ++ t) := by
  obtain ⟨tight, some⟩ := suffix.tight
  change ofSpelling? (lower (trim (s ++ t))) = _
  rw [trim_append tight some, lower, List.map_append, ← lower, ← lower, suffix.lower_eq]

theorem read_indexed (op : Opcode) (index : Digits digits) :
    read? (op.mnemonic.toList ++ '.' :: digits) = some op := by
  have bared : ∀ op ∈ all, restore (trimEnd (· == '.') op.mnemonic.toList) = op.mnemonic.toList := by
    decide
  have start : trimStart isBlank op.mnemonic.toList = op.mnemonic.toList := by
    obtain ⟨⟨c, cs, shape, -⟩, -⟩ := mnemonic_chars op
    have visible := mnemonic_visible op c (by rw [shape]; exact List.mem_cons_self)
    rw [shape]
    exact List.dropWhile_cons_of_neg (Bool.eq_false_iff.mp visible)
  rw [read_append (.index index), start, lower_mnemonic,
    ofSpelling_suffixed (ShortSuffix.index index).suffixed, withoutSuffix_index index,
    bared op (mem_all op), ofMnemonic_eq_some_iff]

/-! ### What a suffix uncovers -/

theorem restore_visible (found : ofMnemonic? (restore base) = some b) : Visible base := by
  rw [restore] at found
  split at found
  · next shortened => rw [shortened]; decide
  · rw [ofMnemonic_eq_some_iff.mp found]
    exact mnemonic_visible b

theorem ShortSuffix.behind (suffix : ShortSuffix t) :
    ∃ rest, u = withoutSuffix (u ++ t) ++ rest ∧ ∀ c ∈ rest, isDigit c = true ∨ c = '.' := by
  obtain ⟨digits, cut, all⟩ := trimEnd_spec isDigit u
  cases suffix with
  | short =>
    obtain ⟨dots, cut', all'⟩ := trimEnd_spec (· == '.') (trimEnd isDigit u)
    refine ⟨dots ++ digits, ?_, fun c member => ?_⟩
    · rw [withoutSuffix_short, bare, ← List.append_assoc, ← cut', ← cut]
    · exact (List.mem_append.mp member).elim (fun dot => .inr (beq_iff_eq.mp (all' c dot)))
        fun digit => .inl (all c digit)
  | index index =>
    obtain ⟨dots, cut', all'⟩ := trimEnd_spec (· == '.') u
    rw [withoutSuffix_index index]
    exact ⟨dots, cut', fun c dot => .inr (beq_iff_eq.mp (all' c dot))⟩

theorem ShortSuffix.visible (suffix : ShortSuffix t)
    (found : ofMnemonic? (restore (withoutSuffix (u ++ t))) = some b) : Visible u := by
  obtain ⟨rest, cut, behind⟩ := suffix.behind (u := u)
  intro c member
  rw [cut] at member
  rcases List.mem_append.mp member with member | member
  · exact restore_visible found c member
  · rcases behind c member with digit | rfl
    · exact digit_visible digit
    · decide

theorem ofSpelling_dots (found : ofMnemonic? (restore (trimEnd (· == '.') u)) = some b) :
    ofSpelling? u = some b := by
  obtain ⟨dots, cut, all⟩ := trimEnd_spec (· == '.') u
  rcases List.eq_nil_or_concat dots with rfl | ⟨front, last, rfl⟩
  · rw [List.append_nil] at cut
    rw [← cut, restore] at found
    split at found
    · next shortened =>
      rw [shortened, ← found]
      decide
    · rw [ofSpelling?, found, Option.some_or]
  · -- a spelling that ends in a dot counts without its suffix only
    obtain rfl : last = '.' := beq_iff_eq.mp (all last (by simp))
    have dot : u = (trimEnd (· == '.') u ++ front) ++ ['.'] := by
      rw [List.append_assoc, ← List.concat_eq_append, ← cut]
    have digits : trimEnd isDigit u = u := by rw [dot, trim_digits_dot]
    have kept : stripEnd ".s".toList u = none := by
      refine strip_short_eq_none fun c last => ?_
      rw [dot, List.getLast?_concat] at last
      obtain rfl := Option.some.inj last
      decide
    have suffixed : isUnsuffixed u = false := by
      rw [isUnsuffixed, digits, kept, dot, List.getLast?_concat]
      rfl
    rw [ofSpelling_suffixed suffixed, withoutSuffix, kept, Option.getD_none, digits, found]

/-- Digits at the end of a spelling count for `ldc.i8` alone. -/
theorem ofSpelling_bare (plain : ofSpelling? u = some a)
    (found : ofMnemonic? (restore (bare u)) = some b) :
    a = b ∨ u = "ldc.i8".toList ∧ a = .ldcI8 ∧ b = .ldcI4 := by
  rw [ofSpelling?] at plain
  cases canonical : ofMnemonic? u with
  | some op =>
    rw [canonical, Option.some_or] at plain
    obtain rfl := Option.some.inj plain
    have spelled := ofMnemonic_eq_some_iff.mp canonical
    rw [spelled] at found
    rcases of_bare_mnemonic found with same | ⟨rfl, eight⟩
    · exact .inl same.symm
    · exact .inr ⟨spelled, rfl, eight⟩
  | none =>
    have incomplete : ofMnemonic? (restore (bare "bne".toList)) = none ∧
        ofMnemonic? (restore (bare "unbox".toList)) = none := by decide
    have unabbreviated : u ≠ "bne".toList ∧ u ≠ "unbox".toList := by
      constructor <;> rintro rfl
      · exact nomatch incomplete.1.symm.trans found
      · exact nomatch incomplete.2.symm.trans found
    rw [canonical, Option.none_or, expand, if_neg unabbreviated.1, if_neg unabbreviated.2] at plain
    change ofMnemonic? (restore (withoutSuffix u)) = some a at plain
    cases stripped : stripEnd ".s".toList u with
    | none =>
      rw [withoutSuffix, stripped, Option.getD_none] at plain
      exact .inl (Option.some.inj (plain.symm.trans found))
    | some front =>
      -- what ends in `.s` has no digits to lose, and is no mnemonic as it stands
      have last : ∀ c, u.getLast? = some c → c = 's' := by
        intro c last
        rw [stripEnd_eq_some_iff.mp stripped, List.getLast?_append_of_ne_nil _ (by decide)] at last
        exact (Option.some.inj last).symm
      have digits : trimEnd isDigit u = u :=
        trimEnd_eq_self fun c here => by rw [last c here]; decide
      have same : bare u = u := by
        rw [bare, digits]
        exact trimEnd_eq_self fun c here => by rw [last c here]; decide
      have whole : u ≠ "ldc.i".toList := by
        rintro rfl
        exact absurd (last 'i' (by decide)) (by decide)
      rw [same, restore, if_neg whole, canonical] at found
      cases found

/-- A suffix of a short form keeps the opcode, but for `.s` behind `ldc.i8`. -/
theorem suffix_keeps_opcode_iff (suffix : ShortSuffix t) (plain : read? s = some a)
    (suffixed : read? (s ++ t) = some b) :
    (a = b ↔ ¬ (lower (trim s) = "ldc.i8".toList ∧ t = ".s".toList)) ∧
      (a ≠ b → a = .ldcI8 ∧ b = .ldcI4) := by
  rw [read_append suffix, ofSpelling_suffixed suffix.suffixed] at suffixed
  have visible := suffix.visible suffixed
  have trimmed : trim s = trimStart isBlank s :=
    trimEnd_eq_self (last_of_lower fun c last => visible c (List.mem_of_getLast? last))
  change ofSpelling? (lower (trim s)) = some a at plain
  rw [← trimmed] at suffixed
  cases suffix with
  | @index digits index =>
    rw [withoutSuffix_index index] at suffixed
    have same : a = b := Option.some.inj (plain.symm.trans (ofSpelling_dots suffixed))
    have other : '.' :: digits ≠ ".s".toList := by
      intro short
      have digit := index.all 's' (by rw [(List.cons.inj short).2]; exact List.mem_cons_self)
      exact absurd digit (by decide)
    exact ⟨iff_of_true same fun ⟨_, short⟩ => other short, fun differ => absurd same differ⟩
  | short =>
    rw [withoutSuffix_short] at suffixed
    rcases ofSpelling_bare plain suffixed with same | ⟨load, rfl, rfl⟩
    · refine ⟨iff_of_true same ?_, fun differ => absurd same differ⟩
      rintro ⟨load, -⟩
      have eight : ofSpelling? "ldc.i8".toList = some .ldcI8 ∧
          ofMnemonic? (restore (bare "ldc.i8".toList)) = some .ldcI4 := by decide
      rw [load] at plain suffixed
      rw [same] at plain
      exact absurd ((plain.symm.trans eight.1).symm.trans (suffixed.symm.trans eight.2)) (by decide)
    · exact ⟨iff_of_false (by decide) fun kept => kept ⟨load, rfl⟩, fun _ => ⟨rfl, rfl⟩⟩

theorem capital_load_keeps_opcode : ShortSuffix ".8".toList ∧
    read? "LDC.I".toList = some .ldcI4 ∧ read? ("LDC.I".toList ++ ".8".toList) = some .ldcI4 ∧
    ¬ (lower (trim "LDC.I".toList) = "ldc.i8".toList ∧ ".8".toList = ".s".toList) := by
  have suffix : ShortSuffix ".8".toList := .index (by decide)
  have plain : read? "LDC.I".toList = some .ldcI4 := by decide
  have suffixed : read? ("LDC.I".toList ++ ".8".toList) = some .ldcI4 := by decide
  exact ⟨suffix, plain, suffixed, (suffix_keeps_opcode_iff suffix plain suffixed).1.mp rfl⟩

/-- Behind `ldc.i8` the suffix of a short form gives another opcode. -/
theorem short_ldc_i8_differs : ShortSuffix ".s".toList ∧
    read? "ldc.i8".toList = some .ldcI8 ∧ read? ("ldc.i8".toList ++ ".s".toList) = some .ldcI4 :=
  ⟨.short, by decide, by decide⟩

end Interpose.Opcode

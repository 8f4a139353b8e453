import Interpose.Proofs.Pattern.Reading

/-!
The language of pattern texts, told apart from how it is read: which steps can be written, what their
alternatives mean, and all the texts that write them, with any white space around the separators. Each
of these texts is read as the steps that it writes.
-/

set_option autoImplicit false
set_option relaxedAutoImplicit false

namespace Interpose.Pattern

open Interpose.Text (Blank Joined Tight Unsplit decimal decimal_digits digit_visible integer_signed
  natural_decimal signed signed_chars stripEnd_eq_some_iff)

/-! ### Steps -/

/-- The families, each with the names that texts have for it. -/
def familyNames : List (String × Family) :=
  [("load", .load), ("store", .store), ("fieldload", .fieldLoad), ("field", .fieldLoad),
    ("call", .call), ("jump", .jump), ("brtrue", .branchTrue), ("brfalse", .branchFalse),
    ("compare", .branchCompare), ("branch", .branch), ("typetest", .typeTest), ("exit", .exit)]

/-- What a text can name as a member: something with no white space at its ends and no character
that has a meaning of its own outside of strings. -/
structure IsName (name : String) : Prop where
  filled : name.toList ≠ []
  tight : Tight name.toList
  plain : ∀ c ∈ name.toList, c ≠ ';' ∧ c ≠ '|' ∧ c ≠ '"'

inductive Alternative
  | any
  | family (name : String) (f : Family) (known : (name, f) ∈ familyNames)
  | opcode (op : Opcode)
  | member (op : Opcode) (name : String) (takes : op.operandKind = .member) (named : IsName name)
  | index (op : Opcode) (value : Int64) (takes : op.operandKind = .index)
  | string (value : String) (unquoted : '"' ∉ value.toList)

def Alternative.predicate : Alternative → Predicate
  | any => .any
  | family _ f _ => .family f
  | opcode op => .opcode op
  | member op name _ _ => .member op name
  | index op value _ => .index op value
  | string value _ => .string .ldstr value

/-- A step as it can be written: at least one alternative, and a gap that fits a machine word. -/
structure WrittenStep where
  gap : Nat
  gap_lt : gap < Nat.pow 2 64
  first : Alternative
  others : List Alternative

def WrittenStep.step (s : WrittenStep) : Step :=
  ⟨s.gap, (s.others.map (·.predicate)).foldl .or s.first.predicate⟩

/-! ### Texts -/

/-- The texts of an alternative. Any white space can stand between an opcode and its operand. -/
inductive Alternative.Spelled : Alternative → List Char → Prop
  | any : Spelled .any ['*']
  | family {name : String} {f : Family} (known : (name, f) ∈ familyNames) :
      Spelled (.family name f known) ('@' :: name.toList)
  | opcode (op : Opcode) : Spelled (.opcode op) op.mnemonic.toList
  | member {op : Opcode} {name : String} {gap : List Char} (takes : op.operandKind = .member)
      (named : IsName name) : Blank gap → gap ≠ [] →
      Spelled (.member op name takes named) (op.mnemonic.toList ++ gap ++ name.toList)
  | index {op : Opcode} {gap : List Char} (value : Int64) (takes : op.operandKind = .index) :
      Blank gap → gap ≠ [] →
      Spelled (.index op value takes) (op.mnemonic.toList ++ gap ++ (signed value).toList)
  | string {value : String} {gap : List Char} (unquoted : '"' ∉ value.toList) :
      Blank gap → gap ≠ [] → Spelled (.string value unquoted)
        (Opcode.ldstr.mnemonic.toList ++ gap ++ ('"' :: (value.toList ++ ['"'])))

/-- The texts of a step without its gap. -/
inductive WrittenStep.Spelled (s : WrittenStep) (token : List Char) : Prop
  | mk {cores : List (List Char)} :
      List.Forall₂ Alternative.Spelled (s.first :: s.others) cores → Joined '|' cores token →
      s.Spelled token

/-- The gap before a step, which is not written if there is none. -/
def WrittenStep.gapTokens (s : WrittenStep) : List (List Char) :=
  if s.gap = 0 then [] else ['?' :: (decimal s.gap).toList]

inductive Tokens : List WrittenStep → List (List Char) → Prop
  | nil : Tokens [] []
  | cons {s : WrittenStep} {token : List Char} {steps : List WrittenStep}
      {tokens : List (List Char)} : s.Spelled token → Tokens steps tokens →
      Tokens (s :: steps) (s.gapTokens ++ token :: tokens)

inductive Writes (steps : List WrittenStep) : List Char → Prop
  | mk {tokens : List (List Char)} {before core after : List Char} : Tokens steps tokens →
      Joined ';' tokens core → Blank before → Blank after → Writes steps (before ++ core ++ after)

theorem IsName.of_plain {name : String} (filled : name.toList ≠ []) (plain : IsPlain name.toList) :
    IsName name where
  filled := filled
  tight := plain.visible.tight
  plain := fun c here => ⟨(plain c here).1, (plain c here).2.1, (plain c here).2.2.1⟩

variable {op : Opcode} {name : String} {core token : List Char} {cores tokens : List (List Char)}
  {a : Alternative} {as : List Alternative} {s : WrittenStep} {steps : List WrittenStep}

/-! ### Alternatives are read back -/

theorem familyNames_read {f : Family} (known : (name, f) ∈ familyNames) :
    Family.read? name.toList = some f ∧ IsPlain ('@' :: name.toList) := by
  have all : ∀ entry ∈ familyNames, Family.read? entry.1.toList = some entry.2 ∧
      IsPlain ('@' :: entry.1.toList) := by decide
  exact all _ known

theorem plain_signed (value : Int64) : IsPlain (signed value).toList := by
  intro c here
  have char := (signed_chars value).2 c here
  refine ⟨?_, ?_, ?_, char.elim digit_visible fun minus => by rw [minus]; rfl⟩ <;> rintro rfl <;>
    exact absurd char (by decide)

theorem quoted_tight (value : List Char) : Tight ('"' :: (value ++ ['"'])) where
  first := by
    rintro c ⟨⟩
    decide
  last := by
    intro c last
    rw [← List.cons_append, List.getLast?_concat] at last
    obtain rfl := Option.some.inj last
    decide

theorem Alternative.Spelled.standalone (spelled : a.Spelled core) : Standalone core := by
  cases spelled with
  | any => exact .of_plain (by decide) nofun (by decide)
  | family known =>
    exact .of_plain (familyNames_read known).2 nofun fun same =>
      absurd (Option.some.inj same) (by decide)
  | opcode op => exact .of_bare op
  | member takes named blank filled =>
    exact .of_operand _ blank named.tight named.filled
      (.of_free fun c member => ⟨(named.plain c member).2.2, (named.plain c member).1⟩)
      (.of_free fun c member => ⟨(named.plain c member).2.2, (named.plain c member).2.1⟩)
  | index value takes blank filled =>
    have plain := plain_signed value
    exact .of_operand _ blank plain.visible.tight (signed_chars value).1 plain.step plain.alternative
  | string unquoted blank filled =>
    exact .of_operand _ blank (quoted_tight _) nofun (.of_quoted unquoted) (.of_quoted unquoted)

theorem Alternative.Spelled.read (spelled : a.Spelled core) :
    readAlternative core = .ok a.predicate := by
  cases spelled with
  | any => rfl
  | family known =>
    rw [readAlternative, (familyNames_read known).1]
    rfl
  | opcode op => exact readAlternative_bare op
  | member takes named blank filled =>
    rw [readAlternative_operand _ blank filled named.tight]
    simp only [readOperand, takes, String.ofList_toList, predicate]
  | index value takes blank filled =>
    rw [readAlternative_operand _ blank filled (plain_signed value).visible.tight]
    simp only [readOperand, takes, integer_signed, predicate]
  | @string value gap unquoted blank filled =>
    have unquote : unquote? ('"' :: (value.toList ++ ['"'])) = some value.toList :=
      stripEnd_eq_some_iff.mpr rfl
    rw [readAlternative_operand _ blank filled (quoted_tight _)]
    simp only [readOperand, Opcode.operandKind, unquote, String.ofList_toList, predicate]

theorem Alternative.exists_spelled (a : Alternative) : ∃ core, a.Spelled core := by
  cases a with
  | any => exact ⟨_, .any⟩
  | family name f known => exact ⟨_, .family known⟩
  | opcode op => exact ⟨_, .opcode op⟩
  | member op name takes named => exact ⟨_, .member takes named .space nofun⟩
  | index op value takes => exact ⟨_, .index value takes .space nofun⟩
  | string value unquoted => exact ⟨_, .string unquoted .space nofun⟩

theorem Alternative.exists_spelled_all (as : List Alternative) :
    ∃ cores, List.Forall₂ Alternative.Spelled as cores := by
  induction as with
  | nil => exact ⟨[], .nil⟩
  | cons a as ih =>
    obtain ⟨core, here⟩ := a.exists_spelled
    obtain ⟨cores, spelled⟩ := ih
    exact ⟨_, .cons here spelled⟩

/-! ### Steps are read back -/

theorem spelled_all (spelled : List.Forall₂ Alternative.Spelled as cores) :
    (∀ core ∈ cores, Standalone core) ∧
      List.Forall₂ (fun core q => readAlternative core = .ok q) cores (as.map (·.predicate)) := by
  induction spelled with
  | nil => exact ⟨nofun, .nil⟩
  | cons here _ ih =>
    exact ⟨List.forall_mem_cons.mpr ⟨here.standalone, ih.1⟩, .cons here.read ih.2⟩

theorem WrittenStep.Spelled.read (name : String) (spelled : s.Spelled token) :
    readStep name token = .ok s.step.predicate ∧ token.head? ≠ some '?' := by
  obtain ⟨spelled, joined⟩ := spelled
  obtain ⟨standalone, read⟩ := spelled_all spelled
  cases spelled with
  | @cons _ core _ cores _ _ =>
    obtain ⟨here, read⟩ := List.forall₂_cons.mp read
    have first := standalone core List.mem_cons_self
    refine ⟨readStep_joined name joined standalone here read, ?_⟩
    rw [joined.head first.filled]
    exact first.noGap

theorem WrittenStep.Spelled.whole (spelled : s.Spelled token) :
    Unsplit ';' false token ∧ Tight token ∧ token ≠ [] := by
  obtain ⟨spelled, joined⟩ := spelled
  have standalone := (spelled_all spelled).1
  exact ⟨joined.unsplit (by decide) (by decide) (by decide) fun part member =>
    (standalone part member).step, joined.tight fun part member =>
    ⟨(standalone part member).tight, (standalone part member).filled⟩⟩

theorem gap_whole {token : List Char} (gap : token ∈ s.gapTokens) :
    Unsplit ';' false token ∧ Tight token ∧ token ≠ [] := by
  rw [WrittenStep.gapTokens] at gap
  split at gap
  · cases gap
  · have digits := decimal_digits s.gap
    obtain rfl := List.mem_singleton.mp gap
    have mark : IsPlain ['?'] := by decide
    have plain := mark.append (plain_digits digits)
    exact ⟨plain.step, plain.visible.tight, nofun⟩

/-! ### Whole texts -/

theorem Tokens.whole (written : Tokens steps tokens) :
    ∀ token ∈ tokens, Unsplit ';' false token ∧ Tight token ∧ token ≠ [] := by
  induction written with
  | nil => nofun
  | cons spelled _ ih =>
    intro token member
    rcases List.mem_append.mp member with gap | member
    · exact gap_whole gap
    · rcases List.mem_cons.mp member with rfl | member
      · exact spelled.whole
      · exact ih token member

theorem Tokens.read (written : Tokens steps tokens) :
    readSteps name none tokens = .ok (steps.map (·.step)) := by
  induction written with
  | nil => rfl
  | @cons s token steps tokens spelled _ ih =>
    obtain ⟨read, noGap⟩ := spelled.read name
    rw [WrittenStep.gapTokens]
    split
    · next zero =>
      rw [List.nil_append, readSteps_step noGap, read, ih, List.map_cons, WrittenStep.step, zero]
      rfl
    · rw [List.singleton_append, readSteps_gap (decimal_digits s.gap).filled
        (natural_decimal s.gap_lt), readSteps_step noGap, read, ih, List.map_cons]
      rfl

theorem Tokens.exists_tokens (steps : List WrittenStep) : ∃ tokens, Tokens steps tokens := by
  induction steps with
  | nil => exact ⟨[], .nil⟩
  | cons s steps ih =>
    obtain ⟨cores, spelled⟩ := Alternative.exists_spelled_all (s.first :: s.others)
    obtain ⟨token, joined⟩ := Joined.exists_text '|' (List.ne_nil_of_length_pos (by
      rw [← spelled.length_eq]
      exact Nat.succ_pos _))
    obtain ⟨tokens, written⟩ := ih
    exact ⟨_, .cons ⟨spelled, joined⟩ written⟩

/-- Steps can be written, and every text that writes them is read as these steps: the same gaps, and
predicates built from the alternatives from left to right. -/
theorem read_written (name : String) (some : steps ≠ []) :
    (∃ text, Writes steps text) ∧ ∀ text, Writes steps text →
      read name (String.ofList text) = .ok ⟨name, steps.map (·.step)⟩ := by
  have filled : ∀ {tokens}, Tokens steps tokens → tokens ≠ [] := by
    rintro _ ⟨⟩
    · exact absurd rfl some
    · exact List.append_ne_nil_of_right_ne_nil _ nofun
  constructor
  · obtain ⟨tokens, written⟩ := Tokens.exists_tokens steps
    obtain ⟨core, joined⟩ := Joined.exists_text ';' (filled written)
    exact ⟨_, .mk written joined .nil .nil⟩
  · rintro _ ⟨written, joined, blank, blank'⟩
    rw [read, String.toList_ofList, tokens_joined joined written.whole blank blank', written.read]
    obtain ⟨s, steps, rfl⟩ := List.exists_cons_of_ne_nil some
    rfl

/-- A member or anything, and a string at most two instructions behind it. -/
def holdThenSay : List WrittenStep :=
  [⟨0, by decide, .member .ldfld "Player::Holding" rfl
      (.of_plain (by decide) (by decide)), [.any]⟩,
    ⟨2, by decide, .string "a;b|c" (by decide), []⟩]

/-- Separators inside a string do not count, and neither does the white space around the others. -/
theorem holdThenSay_read :
    Writes holdThenSay "\tldfld  Player::Holding |*;\n?2 ;ldstr \"a;b|c\" ".toList ∧
      holdThenSay ≠ [] ∧
      read "hold" "\tldfld  Player::Holding |*;\n?2 ;ldstr \"a;b|c\" " =
        .ok ⟨"hold", [⟨0, (Predicate.member .ldfld "Player::Holding").or .any⟩,
          ⟨2, .string .ldstr "a;b|c"⟩]⟩ := by
  have named : IsName "Player::Holding" := .of_plain (by decide) (by decide)
  have spaces : Blank [' ', ' '] := by decide
  have line : Blank ['\n'] := by decide
  have tab : Blank ['\t'] := by decide
  have hold : WrittenStep.Spelled ⟨0, by decide, .member .ldfld "Player::Holding" rfl named, [.any]⟩
      "ldfld  Player::Holding |*".toList :=
    ⟨.cons (.member rfl named spaces nofun) (.cons .any .nil), .more .space .nil (.one _)⟩
  have say : WrittenStep.Spelled ⟨2, by decide, .string "a;b|c" (by decide), []⟩
      "ldstr \"a;b|c\"".toList :=
    ⟨.cons (.string (by decide) .space nofun) .nil, .one _⟩
  have written : Writes holdThenSay "\tldfld  Player::Holding |*;\n?2 ;ldstr \"a;b|c\" ".toList :=
    .mk (.cons hold (.cons say .nil)) (.more .nil line (.more .space .nil (.one _))) tab .space
  have read := (read_written "hold" (by decide)).2 _ written
  rw [String.ofList_toList] at read
  exact ⟨written, nofun, read⟩

end Interpose.Pattern

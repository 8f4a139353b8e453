import Interpose.Proofs.Pattern.Syntax

/-!
Lines of a listing as patterns. The line of an instruction with a member, an integer or a string is
always read as one step with the instruction's opcode. That step accepts the instruction itself unless
the operand is a method, whose line ends in the number of its parameters, or a field whose name starts
with a colon, which the line gives to the owner.
-/

set_option autoImplicit false
set_option relaxedAutoImplicit false

namespace Interpose

namespace Text

/-! ### Double colons -/

variable {front back : List Char}

theorem no_double_colon_append (uncut : ¬ [':', ':'] <:+: front) (plain : ':' ∉ back) :
    ¬ [':', ':'] <:+: front ++ back := by
  induction front with
  | nil =>
    intro held
    exact plain (held.subset List.mem_cons_self)
  | cons c cs ih =>
    rw [List.infix_cons_iff, not_or] at uncut
    rw [List.cons_append, List.infix_cons_iff, not_or]
    refine ⟨?_, ih uncut.2⟩
    rintro ⟨rest, shape⟩
    obtain ⟨rfl, next⟩ := List.cons.inj shape
    cases cs with
    | nil => exact plain (by rw [← List.nil_append back, ← next]; exact List.mem_cons_self)
    | cons d ds =>
      obtain ⟨rfl, -⟩ := List.cons.inj next
      exact uncut.1 ⟨ds, rfl⟩

theorem splitAt_double_colon (owner : List Char) (uncut : ¬ [':', ':'] <:+: back)
    (other : back.head? ≠ some ':') :
    splitAtLast [':', ':'] (owner ++ ':' :: ':' :: back) = some (owner, back) := by
  have inner : splitAtLast [':', ':'] (':' :: back) = none := by
    rw [splitAtLast_eq_none_iff (by decide), List.infix_cons_iff, not_or]
    refine ⟨?_, uncut⟩
    rintro ⟨rest, shape⟩
    rw [← (List.cons.inj shape).2] at other
    exact other rfl
  have cut : splitAtLast [':', ':'] (':' :: ':' :: back) = some ([], back) := by
    rw [splitAtLast, inner]
    rfl
  rw [splitAtLast_append cut, List.append_nil]

/-- The last double colon is the one behind the owner, or starts one character later if a colon
follows. -/
theorem splitMember_cases {name : String} {owner : List Char} (uncut : ¬ [':', ':'] <:+: back)
    (shown : name.toList = owner ++ ':' :: ':' :: back) :
    (back.head? ≠ some ':' ∧
        Predicate.splitMember name = (some (String.ofList owner), String.ofList back)) ∨
      ∃ rest, back = ':' :: rest ∧
        Predicate.splitMember name = (some (String.ofList (owner ++ [':'])), String.ofList rest) := by
  by_cases colon : back.head? = some ':'
  · obtain ⟨rest, rfl⟩ := List.head?_eq_some_iff.mp colon
    rw [List.infix_cons_iff, not_or] at uncut
    have other : rest.head? ≠ some ':' := by
      intro again
      obtain ⟨rest, rfl⟩ := List.head?_eq_some_iff.mp again
      exact uncut.1 ⟨rest, rfl⟩
    refine .inr ⟨rest, rfl, ?_⟩
    have shape : owner ++ ':' :: ':' :: ':' :: rest = (owner ++ [':']) ++ ':' :: ':' :: rest := by simp
    rw [Predicate.splitMember, shown, shape, splitAt_double_colon _ uncut.2 other]
  · refine .inl ⟨colon, ?_⟩
    rw [Predicate.splitMember, shown, splitAt_double_colon _ uncut colon]

end Text

open Interpose.Text (decimal_digits splitMember_cases)
open Interpose.Text.Quoted (encodeChar)

/-- A plain name without double colons. -/
structure IsPlainName (name : String) : Prop where
  uncut : ¬ [':', ':'] <:+: name.toList
  plain : Pattern.IsPlain name.toList

theorem IsPlainName.of_whole {name : String} (whole : Text.splitAtLast [':', ':'] name.toList = none)
    (plain : Pattern.IsPlain name.toList) : IsPlainName name :=
  ⟨(Text.splitAtLast_eq_none_iff (by decide)).mp whole, plain⟩

/-- An instruction with an operand of the kind that its opcode takes in pattern texts: a member with
plain names, an integer, or a string of characters that listings show as they are. -/
inductive Instruction.Listed : Instruction → Prop
  | field {op : Opcode} {f : FieldRef} : op.operandKind = .member → IsPlainName f.owner.name →
      IsPlainName f.name → Listed ⟨op, .field f⟩
  | method {op : Opcode} {m : MethodRef} : op.operandKind = .member → IsPlainName m.owner.name →
      IsPlainName m.name → Listed ⟨op, .method m⟩
  | type {op : Opcode} {t : TypeRef} : op.operandKind = .member → IsPlainName t.name →
      Listed ⟨op, .type t⟩
  | int {op : Opcode} {v : Int64} : op.operandKind = .index → Listed ⟨op, .int v⟩
  | str {op : Opcode} {s : String} : op.operandKind = .string →
      (∀ c ∈ s.toList, encodeChar c = [c]) → Listed ⟨op, .str s⟩

/-- An operand whose text says what a pattern would ask for: no method, since a pattern knows nothing
of parameters, and no field whose name starts with a colon, which the last double colon would cut. -/
def Operand.ReadsBack : Operand → Prop
  | .method _ => False
  | .field f => f.name.toList.head? ≠ some ':'
  | _ => True

namespace Pattern

variable {op : Opcode} {name shown member : String} {owner : Option String} {insn : Instruction}
  {a : Alternative} {core : List Char}

/-! ### Lines are read -/

theorem IsName.of_owned {owner back : List Char} (plain : IsPlain owner) (plain' : IsPlain back)
    (text : shown.toList = owner ++ ':' :: ':' :: back) : IsName shown := by
  have colons : IsPlain [':', ':'] := by decide
  refine .of_plain ?_ ?_
  · rw [text]
    exact List.append_ne_nil_of_right_ne_nil _ nofun
  · rw [text]
    exact plain.append (colons.append plain')

theorem read_spelled (name : String) {line : String} (spelled : a.Spelled core)
    (shown : line.toList = core) : read name line = .ok ⟨name, [⟨0, a.predicate⟩]⟩ := by
  have alone := read_alone name spelled.standalone
  rw [spelled.read, ← shown, String.ofList_toList] at alone
  exact alone

theorem readMember_line (name : String) (takes : op.operandKind = .member)
    (named : IsName shown) : read name (op.mnemonic ++ " " ++ shown) =
      .ok ⟨name, [⟨0, .member op shown⟩]⟩ :=
  read_spelled name (.member takes named .space nofun) (by simp)

theorem member_accepts (split : Predicate.splitMember shown = (owner, member)) :
    (Predicate.member op shown).accepts insn =
      (insn.opcode == op && Predicate.isMember owner member insn.operand) := by
  rw [Predicate.member, split]

/-! ### Lines and their instructions -/

theorem ne_of_length {rest : List Char} (other : name.toList.length ≠ rest.length) :
    name ≠ String.ofList rest := by
  rintro rfl
  exact other (by rw [String.toList_ofList])

theorem field_line_accepts_iff (name : String) {f : FieldRef} (takes : op.operandKind = .member)
    (owned : IsPlainName f.owner.name) (named : IsPlainName f.name) :
    ∃ p, read name (Instruction.text ⟨op, .field f⟩) = .ok ⟨name, [⟨0, p⟩]⟩ ∧
      (p.accepts ⟨op, .field f⟩ = true ↔ f.name.toList.head? ≠ some ':') := by
  have text : f.text.toList = f.owner.name.toList ++ ':' :: ':' :: f.name.toList := by
    simp [FieldRef.text]
  refine ⟨.member op f.text, readMember_line name takes (.of_owned owned.plain named.plain text), ?_⟩
  rcases splitMember_cases named.uncut text with ⟨other, split⟩ | ⟨rest, colon, split⟩
  · rw [member_accepts split]
    refine iff_of_true ?_ other
    simp [Predicate.isMember, Predicate.isOwner]
  · rw [member_accepts split]
    have shorter : f.name ≠ String.ofList rest := ne_of_length (by
      rw [colon, List.length_cons]
      omega)
    exact iff_of_false (by simp [Predicate.isMember, shorter]) fun other => other (by rw [colon]; rfl)

theorem method_line_refuses (name : String) {m : MethodRef} (takes : op.operandKind = .member)
    (owned : IsPlainName m.owner.name) (named : IsPlainName m.name) :
    ∃ p, read name (Instruction.text ⟨op, .method m⟩) = .ok ⟨name, [⟨0, p⟩]⟩ ∧
      p.accepts ⟨op, .method m⟩ = false := by
  have digits := decimal_digits m.params.toNat
  obtain ⟨back, shape⟩ : ∃ back, back = m.name.toList ++ '/' :: (Text.decimal m.params.toNat).toList :=
    ⟨_, rfl⟩
  have text : m.text.toList = m.owner.name.toList ++ ':' :: ':' :: back := by
    simp [MethodRef.text, shape]
  have slash : IsPlain ['/'] := by decide
  have plain : IsPlain back := by
    rw [shape]
    exact named.plain.append (slash.append (plain_digits digits))
  have uncut : ¬ [':', ':'] <:+: back := by
    rw [shape]
    refine Text.no_double_colon_append named.uncut fun colon => ?_
    rcases List.mem_cons.mp colon with same | digit
    · exact absurd same (by decide)
    · exact absurd (digits.all _ digit) (by decide)
  have longer : m.name.toList.length + 2 ≤ back.length := by
    have some := List.length_pos_iff.mpr digits.filled
    rw [shape, List.length_append, List.length_cons]
    omega
  -- wherever the line is cut, what is taken for the name is longer than the name
  refine ⟨.member op m.text, readMember_line name takes (.of_owned owned.plain plain text), ?_⟩
  rcases splitMember_cases uncut text with ⟨-, split⟩ | ⟨rest, colon, split⟩
  · have other : m.name ≠ String.ofList back := ne_of_length (by omega)
    rw [member_accepts split]
    simp [Predicate.isMember, other]
  · rw [colon, List.length_cons] at longer
    have other : m.name ≠ String.ofList rest := ne_of_length (by omega)
    rw [member_accepts split]
    simp [Predicate.isMember, other]

theorem type_line_accepts (name : String) {t : TypeRef} (takes : op.operandKind = .member)
    (named : IsPlainName t.name) :
    ∃ p, read name (Instruction.text ⟨op, .type t⟩) = .ok ⟨name, [⟨0, p⟩]⟩ ∧
      p.accepts ⟨op, .type t⟩ = true := by
  by_cases filled : t.name.toList = []
  · -- the line ends behind the opcode
    have line : Instruction.text ⟨op, .type t⟩ =
        String.ofList ([] ++ op.mnemonic.toList ++ [' ']) := by
      apply String.toList_injective
      simp [Instruction.text, Operand.text, filled]
    refine ⟨.opcode op, ?_, by simp [Predicate.opcode]⟩
    rw [line, read_single name (.of_bare op) .nil .space,
      readAlternative_bare]
    rfl
  · refine ⟨.member op t.name, readMember_line name takes (.of_plain filled named.plain), ?_⟩
    have split : Predicate.splitMember t.name = (none, t.name) := by
      rw [Predicate.splitMember, (Text.splitAtLast_eq_none_iff (by decide)).mpr named.uncut]
    rw [member_accepts split]
    simp [Predicate.isMember]

theorem int_line_accepts (name : String) {v : Int64} (takes : op.operandKind = .index) :
    ∃ p, read name (Instruction.text ⟨op, .int v⟩) = .ok ⟨name, [⟨0, p⟩]⟩ ∧
      p.accepts ⟨op, .int v⟩ = true := by
  have line : (Instruction.text ⟨op, .int v⟩).toList =
      op.mnemonic.toList ++ [' '] ++ (Text.signed v).toList := by
    simp [Instruction.text, Operand.text]
  refine ⟨_, read_spelled name (.index v takes .space nofun) line, ?_⟩
  simp [Alternative.predicate, Predicate.index, Predicate.isIndex]

theorem str_line_accepts (name : String) {s : String} (takes : op.operandKind = .string)
    (shown : ∀ c ∈ s.toList, encodeChar c = [c]) :
    ∃ p, read name (Instruction.text ⟨op, .str s⟩) = .ok ⟨name, [⟨0, p⟩]⟩ ∧
      p.accepts ⟨op, .str s⟩ = true := by
  obtain rfl : op = .ldstr := by cases op <;> first | rfl | cases takes
  have unquoted : '"' ∉ s.toList := fun quote => absurd (shown _ quote) (by decide)
  have same : s.toList.flatMap encodeChar = s.toList :=
    (List.flatMap_congr shown).trans (List.flatMap_singleton' _)
  have line : (Instruction.text ⟨.ldstr, .str s⟩).toList =
      Opcode.ldstr.mnemonic.toList ++ [' '] ++ ('"' :: (s.toList ++ ['"'])) := by
    simp [Instruction.text, Operand.text, Text.Quoted.encode, same]
  refine ⟨_, read_spelled name (.string unquoted .space nofun) line, ?_⟩
  simp [Alternative.predicate, Predicate.string]

/-- The line of an instruction is a pattern of one step, and the step accepts the instruction exactly
if the text of the operand reads back. -/
theorem line_accepts_iff (name : String) (listed : insn.Listed) :
    ∃ p, read name insn.text = .ok ⟨name, [⟨0, p⟩]⟩ ∧
      (p.accepts insn = true ↔ insn.operand.ReadsBack) := by
  cases listed with
  | field takes owned named => exact field_line_accepts_iff name takes owned named
  | method takes owned named =>
    obtain ⟨p, line, refused⟩ := method_line_refuses name takes owned named
    exact ⟨p, line, iff_of_false (Bool.eq_false_iff.mp refused) id⟩
  | type takes named =>
    obtain ⟨p, line, accepted⟩ := type_line_accepts name takes named
    exact ⟨p, line, iff_of_true accepted trivial⟩
  | int takes =>
    obtain ⟨p, line, accepted⟩ := int_line_accepts name takes
    exact ⟨p, line, iff_of_true accepted trivial⟩
  | str takes shown =>
    obtain ⟨p, line, accepted⟩ := str_line_accepts name takes shown
    exact ⟨p, line, iff_of_true accepted trivial⟩

def holdingField : FieldRef := ⟨⟨"Game.Player"⟩, "holding", false⟩

theorem field_line_accepted : Instruction.Listed (.ldfld holdingField) ∧
    ∃ p, read "hold" (Instruction.ldfld holdingField).text = .ok ⟨"hold", [⟨0, p⟩]⟩ ∧
      p.accepts (.ldfld holdingField) = true := by
  have listed : Instruction.Listed (.ldfld holdingField) :=
    .field rfl (.of_whole (by decide) (by decide)) (.of_whole (by decide) (by decide))
  obtain ⟨p, line, accepts⟩ := line_accepts_iff "hold" listed
  have reads : holdingField.name.toList.head? ≠ some ':' := by decide
  exact ⟨listed, p, line, accepts.mpr reads⟩

/-- The line of a call is read as a step, which refuses the call. So is that of a load from a field
whose name starts with a colon. -/
theorem call_line_refused :
    (Instruction.Listed (.call ⟨⟨"Game.Player"⟩, "Jump", 0, true, false⟩) ∧
      ∃ p, read "jump" "call Game.Player::Jump/0" = .ok ⟨"jump", [⟨0, p⟩]⟩ ∧
        p.accepts (.call ⟨⟨"Game.Player"⟩, "Jump", 0, true, false⟩) = false) ∧
    Instruction.Listed (.ldfld ⟨⟨"Game.Player"⟩, ":holding", false⟩) ∧
      ∃ p, read "hold" "ldfld Game.Player:::holding" = .ok ⟨"hold", [⟨0, p⟩]⟩ ∧
        p.accepts (.ldfld ⟨⟨"Game.Player"⟩, ":holding", false⟩) = false := by
  have owner : IsPlainName "Game.Player" := .of_whole (by decide) (by decide)
  have jump : IsPlainName "Jump" := .of_whole (by decide) (by decide)
  have colon : IsPlainName ":holding" := .of_whole (by decide) (by decide)
  have call : Instruction.text (.call ⟨⟨"Game.Player"⟩, "Jump", 0, true, false⟩) =
      "call Game.Player::Jump/0" := by decide
  have load : Instruction.text (.ldfld ⟨⟨"Game.Player"⟩, ":holding", false⟩) =
      "ldfld Game.Player:::holding" := by decide
  obtain ⟨p, line, refused⟩ := method_line_refuses "jump"
    (m := ⟨⟨"Game.Player"⟩, "Jump", 0, true, false⟩) (rfl : Opcode.call.operandKind = _) owner jump
  obtain ⟨q, line', accepts⟩ := field_line_accepts_iff "hold"
    (f := ⟨⟨"Game.Player"⟩, ":holding", false⟩) (rfl : Opcode.ldfld.operandKind = _) owner colon
  rw [← call, ← load]
  refine ⟨⟨.method rfl owner jump, p, line, refused⟩, .field rfl owner colon, q, line', ?_⟩
  exact Bool.eq_false_iff.mpr fun accepted => absurd (accepts.mp accepted) (by decide)

end Pattern

end Interpose

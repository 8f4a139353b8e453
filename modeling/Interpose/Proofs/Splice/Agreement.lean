import Interpose.Proofs.Splice.Pair

/-!
Comparison of two bodies with the same points spliced in. Resolved code is the same exactly where
each instruction equals itself and its labels resolve alike. Of all labels in the two bodies, only
those that stood nowhere before and those of the skip targets can differ.
-/

set_option autoImplicit false
set_option relaxedAutoImplicit false

namespace Interpose

/-- With its labels renamed in two ways an instruction stays the same if the labels do. Only a
constant that is not a number differs from itself. -/
theorem Instruction.same_map_iff {insn : Instruction} {f g : Label → Label} :
    (insn.mapLabels f).same (insn.mapLabels g) = true ↔
      insn.same insn = true ∧ ∀ l ∈ insn.operand.mentioned, f l = g l := by
  obtain ⟨opcode, operand⟩ := insn
  cases operand <;>
    simp [Instruction.same, Instruction.mapLabels, Operand.same, Operand.mapLabels,
      Operand.mentioned]

namespace Body

variable {b v w : Body}

/-- The label that stands for another one in resolved code. -/
def number (b : Body) (l : Label) : Label :=
  match b.resolve? l with
  | some index => ⟨.ofNat index⟩
  | none => ⟨4294967295⟩

theorem number_of_target {l : Label} {k : Nat} (target : b.target? l = some k) :
    b.number l = ⟨.ofNat k⟩ := by
  have resolved := (Option.filter_eq_some_iff.mp target).1
  simp [number, resolved]

theorem ofNat_index_inj {j k : Nat} :
    UInt32.ofNat j = .ofNat k ↔ j % Nat.pow 2 32 = k % Nat.pow 2 32 := by
  rw [← UInt32.toNat_inj, UInt32.toNat_ofNat', UInt32.toNat_ofNat']

def AgreeAt (v w : Body) (x : Nat) : Prop :=
  ∀ a c, v.code[x]? = some a → w.code[x]? = some c →
    (a.mapLabels v.number).same (c.mapLabels w.number) = true

theorem sameCode_iff {as bs : List Instruction} :
    sameCode as bs = true ↔ as.length = bs.length ∧
      ∀ (x : Nat) (a b : Instruction), as[x]? = some a → bs[x]? = some b → a.same b = true := by
  induction as generalizing bs with
  | nil => cases bs <;> simp [sameCode]
  | cons a as ih =>
    cases bs with
    | nil => simp [sameCode]
    | cons b bs =>
      simp only [sameCode, Bool.and_eq_true, ih, List.length_cons, Nat.add_right_cancel_iff]
      constructor
      · rintro ⟨first, length, rest⟩
        refine ⟨length, fun x c d left right => ?_⟩
        cases x with
        | zero =>
          obtain rfl : a = c := by simpa using left
          obtain rfl : b = d := by simpa using right
          exact first
        | succ x => exact rest x c d (by simpa using left) (by simpa using right)
      · rintro ⟨length, each⟩
        exact ⟨each 0 a b rfl rfl, length, fun x c d left right =>
          each (x + 1) c d (by simpa using left) (by simpa using right)⟩

theorem same_resolved_iff :
    sameCode v.resolved w.resolved = true ↔
      v.code.length = w.code.length ∧ ∀ x, v.AgreeAt w x := by
  have resolved : ∀ b : Body, b.resolved = b.code.map fun insn => insn.mapLabels b.number :=
    fun _ => rfl
  simp only [sameCode_iff, resolved, List.length_map, List.getElem?_map, Option.map_eq_some_iff,
    AgreeAt]
  refine and_congr_right fun _ => forall_congr' fun x => ⟨?_, ?_⟩
  · exact fun each a c left right => each _ _ ⟨a, left, rfl⟩ ⟨c, right, rfl⟩
  · rintro each _ _ ⟨a, left, rfl⟩ ⟨c, right, rfl⟩
    exact each a c left right

theorem agreeAt_iff {x : Nat} {a c : Instruction} (left : v.code[x]? = some a)
    (right : w.code[x]? = some c) :
    v.AgreeAt w x ↔ (a.mapLabels v.number).same (c.mapLabels w.number) = true := by
  constructor
  · exact fun agree => agree a c left right
  · intro same a' c' left' right'
    obtain rfl := Option.some.inj (left.symm.trans left')
    obtain rfl := Option.some.inj (right.symm.trans right')
    exact same

theorem agreeAt_same_iff {x : Nat} {a : Instruction} (left : v.code[x]? = some a)
    (right : w.code[x]? = some a) :
    v.AgreeAt w x ↔ v.AgreeAt v x ∧ ∀ l ∈ a.operand.mentioned, v.number l = w.number l := by
  rw [agreeAt_iff left right, agreeAt_iff left left, Instruction.same_map_iff,
    Instruction.same_map_iff]
  simp

end Body

namespace Template

variable {loads : Loads} {t : Template} {name other : Symbol → Label} {v w : Body}
  {start skip skipToo : Nat}

theorem code_cases {x : Nat} {a : Instruction} (here : (t.code loads name)[x]? = some a) :
    (∃ symbol ∈ t.targets, ∃ opcode, ∀ name, (t.code loads name)[x]? =
      some ⟨opcode, .label (name symbol)⟩) ∨
    (∀ name, (t.code loads name)[x]? = some a) ∧ ∀ l ∈ a.operand.mentioned, t.Foreign loads l := by
  induction t generalizing x with
  | nil => simp [Template.code] at here
  | cons op t ih =>
    have whole : ∀ name, Template.code loads name (op :: t) =
        op.code loads name ++ Template.code loads name t := fun _ => rfl
    have length := fun name => TemplateOp.code_length loads name op
    by_cases first : x < op.size loads
    · have head : ∀ name, (Template.code loads name (op :: t))[x]? = (op.code loads name)[x]? :=
        fun name => by rw [whole, List.getElem?_append_left (length name ▸ first)]
      cases target : op.target? with
      | some symbol =>
        obtain ⟨opcode, code⟩ := TemplateOp.branch_code loads target
        obtain rfl : x = 0 := by
          have one : (op.code loads name).length = 1 := by rw [code]; rfl
          rw [length] at one
          omega
        refine .inl ⟨symbol, List.mem_filterMap.mpr ⟨op, List.mem_cons_self, target⟩, opcode,
          fun name => ?_⟩
        rw [head, code]
        rfl
      | none =>
        rw [head] at here
        refine .inr ⟨fun other => ?_, fun l mentioned => ?_⟩
        · rw [head, TemplateOp.code_congr other name (by simp [target]), here]
        · exact ⟨op, List.mem_cons_self, target, name, a, List.mem_of_getElem? here, mentioned⟩
    · have tail : ∀ name, (Template.code loads name (op :: t))[x]? =
          (Template.code loads name t)[x - op.size loads]? := fun name => by
        rw [whole, List.getElem?_append_right (by rw [length]; omega), length]
      simp only [tail] at here ⊢
      rcases ih here with ⟨symbol, target, opcode, code⟩ | ⟨same, foreign⟩
      · refine .inl ⟨symbol, ?_, opcode, code⟩
        obtain ⟨op', member, named⟩ := List.mem_filterMap.mp target
        exact List.mem_filterMap.mpr ⟨op', List.mem_cons_of_mem _ member, named⟩
      · refine .inr ⟨same, fun l mentioned => ?_⟩
        obtain ⟨op', member, rest⟩ := foreign l mentioned
        exact ⟨op', List.mem_cons_of_mem _ member, rest⟩

theorem mem_symbols {symbol : Symbol} (target : symbol ∈ t.targets) : symbol ∈ t.symbols := by
  obtain ⟨op, member, named⟩ := List.mem_filterMap.mp target
  exact mem_symbols_of_target member named

theorem Hosted.targets (one : t.Hosted loads v start skip name)
    (two : t.Hosted loads w start skipToo other)
    (marked : ∀ mark, .named mark ∈ t.targets → ∃ x < t.size loads, t.MarksAt loads mark x)
    {symbol : Symbol} (target : symbol ∈ t.targets) :
    ∃ j k, v.target? (name symbol) = some j ∧ w.target? (other symbol) = some k ∧
      (j = k ∨ symbol = .skip ∧ j = skip ∧ k = skipToo) := by
  have known := mem_symbols target
  cases symbol with
  | resume => exact ⟨_, _, one.resume known, two.resume known, .inl rfl⟩
  | skip => exact ⟨_, _, one.skip known, two.skip known, .inr ⟨rfl, rfl, rfl⟩⟩
  | named mark =>
    obtain ⟨y, below, stands⟩ := marked mark target
    exact ⟨_, _, one.named mark y known stands below, two.named mark y known stands below, .inl rfl⟩

theorem Hosted.agree_iff (one : t.Hosted loads v start skip name)
    (two : t.Hosted loads w start skipToo other)
    (marked : ∀ mark, .named mark ∈ t.targets → ∃ x < t.size loads, t.MarksAt loads mark x)
    (foreign : ∀ l, t.Foreign loads l → v.number l = w.number l)
    (skips : t.usesSkip = true → skip % Nat.pow 2 32 = skipToo % Nat.pow 2 32) {x : Nat}
    (inside : x < t.size loads) : v.AgreeAt w (start + x) ↔ v.AgreeAt v (start + x) := by
  have left := one.code x inside
  have right := two.code x inside
  obtain ⟨a, here⟩ : ∃ a, (t.code loads name)[x]? = some a :=
    ⟨_, List.getElem?_eq_getElem (by simpa using inside)⟩
  rcases code_cases here with ⟨symbol, target, opcode, code⟩ | ⟨same, labels⟩
  · have alike : v.number (name symbol) = w.number (other symbol) := by
      obtain ⟨j, k, onV, onW, meet⟩ := one.targets two marked target
      rw [Body.number_of_target onV, Body.number_of_target onW]
      rcases meet with rfl | ⟨rfl, rfl, rfl⟩
      · rfl
      · rw [Body.ofNat_index_inj.mpr (skips (List.contains_iff_mem.mpr target))]
    rw [Body.agreeAt_iff (left.trans (code _)) (right.trans (code _)),
      Body.agreeAt_iff (left.trans (code _)) (left.trans (code _))]
    simp [Instruction.same, Instruction.mapLabels, Operand.same, Operand.mapLabels, alike]
  · rw [Body.agreeAt_same_iff (left.trans (same _)) (right.trans (same _))]
    exact and_iff_left fun l mentioned => foreign l (labels l mentioned)

theorem Hosted.skip_agrees (one : t.Hosted loads v start skip name)
    (two : t.Hosted loads w start skipToo other) (uses : t.usesSkip = true)
    (agree : ∀ x < t.size loads, v.AgreeAt w (start + x)) :
    skip % Nat.pow 2 32 = skipToo % Nat.pow 2 32 := by
  have target : .skip ∈ t.targets := List.contains_iff_mem.mp uses
  have known := mem_symbols target
  obtain ⟨op, member, branches⟩ := List.mem_filterMap.mp target
  obtain ⟨opcode, code⟩ := TemplateOp.branch_code loads branches
  obtain ⟨front, back, rfl⟩ := List.append_of_mem member
  have here : ∀ name, (Template.code loads name (front ++ op :: back))[Template.size loads front]? =
      some ⟨opcode, .label (name .skip)⟩ := by
    intro name
    rw [code_append, List.getElem?_append_right (by simp), code_length, Nat.sub_self]
    simp [Template.code, code]
  have inside : Template.size loads front < Template.size loads (front ++ op :: back) := by
    have one := TemplateOp.code_length loads name op
    rw [code] at one
    simp only [size_append, size_cons, ← one, List.length_singleton]
    omega
  have same := (Body.agreeAt_iff ((one.code _ inside).trans (here _))
    ((two.code _ inside).trans (here _))).mp (agree _ inside)
  refine Body.ofNat_index_inj.mp ?_
  simpa only [Instruction.same, Instruction.mapLabels, Operand.same, Operand.mapLabels,
    Body.number_of_target (one.skip known), Body.number_of_target (two.skip known),
    Bool.and_eq_true, decide_eq_true_eq, Operand.label.injEq, Label.mk.injEq, true_and] using same

end Template

namespace Point

variable {p q : Point} {lp lq : Loads} {b v w : Body} {r o : SpliceReport}
  {np nq mp mq : Symbol → Label} {skipP skipQ skipP' skipQ' : Nat}

/-- What the comparison asks of a template: its marks have instructions behind them, and its labels
from elsewhere are mentioned in a body. -/
structure Comparable (loads : Loads) (b : Body) (t : Template) : Prop where
  marked : ∀ mark, .named mark ∈ t.targets → ∃ x < t.size loads, t.MarksAt loads mark x
  foreign : ∀ l, t.Foreign loads l → ∃ insn ∈ b.code, l ∈ insn.operand.mentioned

section Paired

variable (one : p.Paired q lp lq b v r o np nq skipP skipQ)
  (two : p.Paired q lp lq b w r o mp mq skipP' skipQ') (byP : Comparable lp b p.template)
  (byQ : Comparable lq b q.template)
include one two

theorem Paired.agree_original_iff {k : Nat} {insn : Instruction} (here : b.code[k]? = some insn) :
    v.AgreeAt w (r.beside o k) ↔ v.AgreeAt v (r.beside o k) ∧
      ∀ l ∈ insn.operand.mentioned, v.number l = w.number l :=
  Body.agreeAt_same_iff ((one.kept _).trans here) ((two.kept _).trans here)

include byP byQ

theorem Paired.agree_iff
    (labels : ∀ insn ∈ b.code, ∀ l ∈ insn.operand.mentioned, v.number l = w.number l)
    (skipsP : p.template.usesSkip = true → skipP % Nat.pow 2 32 = skipP' % Nat.pow 2 32)
    (skipsQ : q.template.usesSkip = true → skipQ % Nat.pow 2 32 = skipQ' % Nat.pow 2 32) (x : Nat) :
    v.AgreeAt w x ↔ v.AgreeAt v x := by
  have foreign : ∀ {t loads}, Comparable loads b t → ∀ l, t.Foreign loads l →
      v.number l = w.number l := by
    intro t loads comparable l elsewhere
    obtain ⟨insn, member, mentioned⟩ := comparable.foreign l elsewhere
    exact labels insn member l mentioned
  rcases SpliceReport.beside_cases one.apart x with ⟨k, rfl⟩ | ⟨y, inside, rfl⟩ | ⟨y, inside, rfl⟩
  · cases here : b.code[k]? with
    | none => simp [Body.AgreeAt, one.kept, here]
    | some insn =>
      rw [one.agree_original_iff two here]
      exact and_iff_left (labels insn (List.mem_of_getElem? here))
  · exact one.hostedP.agree_iff two.hostedP byP.marked (foreign byP) skipsP (one.sizeP ▸ inside)
  · exact one.hostedQ.agree_iff two.hostedQ byQ.marked (foreign byQ) skipsQ (one.sizeQ ▸ inside)

/-- Two bodies with the same two points spliced in have the same resolved code exactly if the first
is free of constants that differ from themselves, the labels that stood nowhere before resolve
alike, and so do the skip targets. -/
theorem Paired.same_iff :
    Body.sameCode v.resolved w.resolved = true ↔
      Body.sameCode v.resolved v.resolved = true ∧
      (∀ insn ∈ b.code, ∀ l ∈ insn.operand.mentioned, b.target? l = none →
        v.number l = w.number l) ∧
      (p.template.usesSkip = true → skipP % Nat.pow 2 32 = skipP' % Nat.pow 2 32) ∧
      (q.template.usesSkip = true → skipQ % Nat.pow 2 32 = skipQ' % Nat.pow 2 32) := by
  have length : v.code.length = w.code.length := one.length.trans two.length.symm
  simp only [Body.same_resolved_iff, length, true_and]
  constructor
  · intro agree
    have labels : ∀ insn ∈ b.code, ∀ l ∈ insn.operand.mentioned, v.number l = w.number l := by
      intro insn member
      obtain ⟨k, here⟩ := List.mem_iff_getElem?.mp member
      exact ((one.agree_original_iff two here).mp (agree _)).2
    have skipsP := fun uses => one.hostedP.skip_agrees two.hostedP uses fun x _ => agree _
    have skipsQ := fun uses => one.hostedQ.skip_agrees two.hostedQ uses fun x _ => agree _
    exact ⟨fun x => (one.agree_iff two byP byQ labels skipsP skipsQ x).mp (agree x),
      fun insn member l mentioned _ => labels insn member l mentioned, skipsP, skipsQ⟩
  · rintro ⟨itself, strays, skipsP, skipsQ⟩ x
    refine (one.agree_iff two byP byQ (fun insn member l mentioned => ?_) skipsP skipsQ x).mpr
      (itself x)
    cases target : b.target? l with
    | some k =>
      rw [Body.number_of_target (one.moved l k target),
        Body.number_of_target (two.moved l k target)]
    | none => exact strays insn member l mentioned target

end Paired

end Point

end Interpose

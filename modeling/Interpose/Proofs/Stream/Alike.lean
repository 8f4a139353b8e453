import Interpose.Proofs.Splice.Order

/-!
Streams that differ in nothing but the names of their labels. They have the same instructions up to
labels, and branches at the same index go to the same indices, whichever labels stand there. What one
stream answers about a position, the other answers about the position with the same index.
-/

set_option autoImplicit false
set_option relaxedAutoImplicit false

namespace Interpose

/-! ### Related results -/

/-- Two computations fail alike, or have related results. -/
inductive ExceptRel {ε δ α β : Type} (E : ε → δ → Prop) (R : α → β → Prop) :
    Except ε α → Except δ β → Prop
  | ok {a : α} {b : β} : R a b → ExceptRel E R (.ok a) (.ok b)
  | error {e : ε} {f : δ} : E e f → ExceptRel E R (.error e) (.error f)

theorem ExceptRel.map {ε δ α β γ ζ : Type} {E : ε → δ → Prop} {R : α → β → Prop} {S : γ → ζ → Prop}
    {f : α → γ} {g : β → ζ} {x : Except ε α} {y : Except δ β} (related : ExceptRel E R x y)
    (keeps : ∀ {a b}, R a b → S (f a) (g b)) : ExceptRel E S (x.map f) (y.map g) := by
  cases related with
  | ok here => exact .ok (keeps here)
  | error causes => exact .error causes

theorem ExceptRel.ok_left {ε δ α : Type} {E : ε → δ → Prop} {a : α} {y : Except δ α}
    (related : ExceptRel E Eq (.ok a) y) : .ok a = y := by
  cases related with
  | ok same => rw [same]

theorem rel_get {α β : Type} {R : α → β → Prop} {as : List α} {bs : List β}
    (related : as.Forall₂ R bs) (i : Nat) : Option.Rel R as[i]? bs[i]? := by
  induction related generalizing i with
  | nil => exact .none
  | cons here _ ih =>
    cases i with
    | zero => exact .some here
    | succ i => exact ih i

theorem rel_map {α β γ δ : Type} {R : α → β → Prop} {S : γ → δ → Prop} {f : α → γ} {g : β → δ}
    {x : Option α} {y : Option β} (related : Option.Rel R x y)
    (keeps : ∀ {a b}, R a b → S (f a) (g b)) :
    Option.Rel S (x.map f) (y.map g) := by
  cases related with
  | none => exact .none
  | some here => exact .some (keeps here)

namespace Instruction

variable {a c : Instruction}

/-- The instruction with one and the same label for all it mentions. -/
def unnamed (insn : Instruction) : Instruction := insn.mapLabels fun _ => ⟨0⟩

theorem opcode_of_unnamed (same : a.unnamed = c.unnamed) : a.opcode = c.opcode := by
  change a.unnamed.opcode = c.unnamed.opcode
  rw [same]

theorem length_of_unnamed (same : a.unnamed = c.unnamed) :
    a.operand.mentioned.length = c.operand.mentioned.length := by
  have length : ∀ insn : Instruction,
      insn.unnamed.operand.mentioned.length = insn.operand.mentioned.length := by
    rintro ⟨opcode, operand⟩
    cases operand <;> simp [unnamed, mapLabels, Operand.mapLabels, Operand.mentioned]
  rw [← length a, same, length c]

theorem map_eq_of_unnamed {f g : Label → Label} (same : a.unnamed = c.unnamed)
    (labels : a.operand.mentioned.map f = c.operand.mentioned.map g) :
    a.mapLabels f = c.mapLabels g := by
  obtain ⟨opcode, operand⟩ := a
  obtain ⟨other, operand'⟩ := c
  obtain ⟨rfl, same⟩ := Instruction.mk.inj same
  cases operand <;> cases operand' <;>
    simp_all [mapLabels, Operand.mapLabels, Operand.mentioned]

end Instruction

namespace Body

variable {b c : Body}

/-- The same instructions up to the names of labels, with branches to the same indices. -/
structure Alike (b c : Body) : Prop where
  length : b.code.length = c.code.length
  insn : ∀ {i : Nat} {x y : Instruction}, b.code[i]? = some x → c.code[i]? = some y →
    x.unnamed = y.unnamed
  targets : ∀ {i : Nat} {x y : Instruction}, b.code[i]? = some x → c.code[i]? = some y →
    x.branchTargets.map b.target? = y.branchTargets.map c.target?

/-- Only branches mention labels. -/
def BranchLabels (b : Body) : Prop :=
  ∀ insn ∈ b.code, insn.opcode.isBranch = false → insn.operand.mentioned = []

instance (b : Body) : Decidable b.BranchLabels :=
  inferInstanceAs (Decidable (∀ insn ∈ b.code, _ → _))

theorem BranchLabels.mentioned (only : b.BranchLabels) {insn : Instruction}
    (member : insn ∈ b.code) : insn.operand.mentioned = insn.branchTargets := by
  unfold Instruction.branchTargets
  split
  · rfl
  · next still => exact only insn member (by simpa using still)

theorem Alike.at (alike : b.Alike c) {i : Nat} {x : Instruction} (here : b.code[i]? = some x) :
    ∃ y, c.code[i]? = some y := by
  have inside : i < c.code.length := alike.length ▸ (List.getElem?_eq_some_iff.mp here).1
  exact ⟨_, List.getElem?_eq_getElem inside⟩

theorem Alike.refl (b : Body) : b.Alike b where
  length := rfl
  insn here there := congrArg _ (Option.some.inj (here.symm.trans there))
  targets here there := by rw [Option.some.inj (here.symm.trans there)]

theorem Alike.symm (alike : b.Alike c) : c.Alike b where
  length := alike.length.symm
  insn here there := (alike.insn there here).symm
  targets here there := (alike.targets there here).symm

theorem Alike.branchLabels (alike : b.Alike c) (only : b.BranchLabels) : c.BranchLabels := by
  intro y member still
  obtain ⟨i, here⟩ := List.mem_iff_getElem?.mp member
  obtain ⟨x, there⟩ := alike.symm.at here
  have same := alike.insn there here
  have plain := only x (List.mem_of_getElem? there)
    (Instruction.opcode_of_unnamed same ▸ still)
  have length := Instruction.length_of_unnamed same
  rw [plain] at length
  exact List.length_eq_zero_iff.mp length.symm

end Body

namespace Stream

variable {s t : Stream}

/-- Well-formed streams that are alike, in which only branches mention labels. -/
structure Alike (s t : Stream) : Prop where
  left : s.WellFormed
  right : t.WellFormed
  bodies : s.toBody.Alike t.toBody
  only : s.toBody.BranchLabels

theorem number_of_toBody (s : Stream) (l : Label) :
    s.toBody.number l = match s.toBody.target? l with
      | some index => ⟨.ofNat index⟩
      | none => ⟨4294967295⟩ := by
  have resolved : s.toBody.target? l = s.toBody.resolve? l := by
    rw [toBody_target, Body.resolve?, toBody, LabelTable.find?_filterMap]
  exact resolved ▸ rfl

namespace Alike

variable (alike : s.Alike t)
include alike

theorem symm : t.Alike s where
  left := alike.right
  right := alike.left
  bodies := alike.bodies.symm
  only := alike.bodies.branchLabels alike.only

theorem listing : s.listing = t.listing := by
  have numbers : ∀ (u : Stream) (ls : List Label), ls.map u.toBody.number =
      (ls.map u.toBody.target?).map fun
        | some index => ⟨.ofNat index⟩
        | none => ⟨4294967295⟩ := by
    intro u ls
    rw [List.map_map]
    exact List.map_congr_left fun l _ => number_of_toBody u l
  refine List.ext_getElem? fun i => ?_
  simp only [Stream.listing, Body.resolved, List.getElem?_map]
  cases here : s.toBody.code[i]? with
  | none =>
    have beyond : t.toBody.code[i]? = none := by
      rw [List.getElem?_eq_none_iff, ← alike.bodies.length]
      exact List.getElem?_eq_none_iff.mp here
    rw [beyond]
    rfl
  | some x =>
    obtain ⟨y, there⟩ := alike.bodies.at here
    have mentionedX := alike.only.mentioned (List.mem_of_getElem? here)
    have mentionedY := alike.symm.only.mentioned (List.mem_of_getElem? there)
    have labels : x.operand.mentioned.map s.toBody.number =
        y.operand.mentioned.map t.toBody.number := by
      rw [numbers, numbers, mentionedX, mentionedY, alike.bodies.targets here there]
    rw [there]
    exact congrArg some (Instruction.map_eq_of_unnamed (alike.bodies.insn here there) labels)

/-- They are the same for an observer unless they differ in whether a value is returned, or have a
constant that differs from itself. -/
theorem same_iff : s.same t = true ↔
    s.returns = t.returns ∧ ∀ insn ∈ s.code, insn.same insn = true := by
  have itself : Body.sameCode s.listing s.listing = true ↔
      ∀ insn ∈ s.code, insn.same insn = true := by
    rw [Stream.listing, Body.same_resolved_iff, and_iff_right rfl]
    constructor
    · intro agree insn member
      obtain ⟨i, here⟩ := List.mem_iff_getElem?.mp member
      exact (Instruction.same_map_iff.mp ((Body.agreeAt_iff here here).mp (agree i))).1
    · intro each i x y left right
      obtain rfl := Option.some.inj (left.symm.trans right)
      exact Instruction.same_map_iff.mpr ⟨each x (List.mem_of_getElem? left), fun _ _ => rfl⟩
  simp only [Stream.same, ← alike.listing, Bool.and_eq_true, beq_iff_eq, itself]

end Alike

/-! ### Positions with the same index -/

/-- Two positions have the same index, each in its stream. -/
def Level (s t : Stream) (p q : Position) : Prop :=
  ∃ i, s.index? p = some i ∧ t.index? q = some i

/-- Two cells have the same index and the same instruction up to names. -/
structure Twin (s t : Stream) (c d : Cell) : Prop where
  level : s.Level t c.pos d.pos
  insn : c.insn.unnamed = d.insn.unnamed

structure LevelSpan (s t : Stream) (a b : Span) : Prop where
  first : s.Level t a.first b.first
  last : s.Level t a.last b.last

theorem Level.symm {p q : Position} (level : s.Level t p q) : t.Level s q p :=
  level.imp fun _ both => both.symm

theorem Level.mem {p q : Position} (ok : s.WellFormed) (level : s.Level t p q) :
    p ∈ s.positions := by
  obtain ⟨i, index, -⟩ := level
  exact mem_of_index ok.distinct index

theorem insn_at {p : Position} {i : Nat} (index : s.index? p = some i) :
    s.insn? p = s.code[i]? := by
  obtain ⟨⟨before, onward⟩, split, rfl⟩ := Option.map_eq_some_iff.mp index
  have whole := (split_iff.mp split).1
  have there : s.code[before.length]? = (onward.map (·.insn))[0]? := by
    rw [code, whole, List.map_append, List.getElem?_append_right (by simp)]
    simp
  rw [there, insn?, Stream.onward, split, List.head?_eq_getElem?, List.getElem?_map]

namespace Alike

variable (alike : s.Alike t) {p q p' q' : Position}
include alike

theorem level_iff (one : s.Level t p q) (two : s.Level t p' q') : p = p' ↔ q = q' := by
  obtain ⟨i, left, right⟩ := one
  obtain ⟨j, left', right'⟩ := two
  rw [← index_eq_iff alike.left.distinct left left',
    ← index_eq_iff alike.right.distinct right right']

theorem cells : s.cells.Forall₂ (Twin s t) t.cells := by
  have length : s.cells.length = t.cells.length := by
    simpa [toBody] using alike.bodies.length
  have index : ∀ {u : Stream} (ok : u.WellFormed) {i : Nat} (inside : i < u.cells.length),
      u.index? (u.cells[i]).pos = some i := by
    intro u ok i inside
    rw [index_iff ok.distinct, positions, List.getElem?_map, List.getElem?_eq_getElem inside]
    rfl
  refine List.forall₂_iff_get.mpr ⟨length, fun i left right => ⟨?_, ?_⟩⟩
  · exact ⟨i, index alike.left left, index alike.right right⟩
  · refine alike.bodies.insn (i := i) ?_ ?_
    · simp [toBody, code, left]
    · simp [toBody, code, right]

theorem split (level : s.Level t p q) {cs ds : List Cell} (twins : cs.Forall₂ (Twin s t) ds) :
    Option.Rel (fun x y => x.1.Forall₂ (Twin s t) y.1 ∧ x.2.Forall₂ (Twin s t) y.2)
      (splitAt? p cs) (splitAt? q ds) := by
  induction twins with
  | nil => exact .none
  | @cons c d cs ds here rest ih =>
    have same := alike.level_iff here.level level
    by_cases found : c.pos = p
    · rw [splitAt?, splitAt?, if_pos found, if_pos (same.mp found)]
      exact .some ⟨.nil, .cons here rest⟩
    · rw [splitAt?, splitAt?, if_neg found, if_neg (found ∘ same.mpr)]
      exact rel_map ih fun parts => ⟨.cons here parts.1, parts.2⟩

theorem parts (level : s.Level t p q) : (s.before p).Forall₂ (Twin s t) (t.before q) ∧
    (s.onward p).Forall₂ (Twin s t) (t.onward q) := by
  have split := alike.split level alike.cells
  unfold Stream.before Stream.onward
  generalize splitAt? p s.cells = x at split ⊢
  generalize splitAt? q t.cells = y at split ⊢
  cases split with
  | none => exact ⟨.nil, .nil⟩
  | some parts => exact parts

theorem next (level : s.Level t p q) : Option.Rel (Level s t) (s.next? p) (t.next? q) :=
  rel_map (rel_get (alike.parts level).2 1) fun twin => twin.level

theorem prev (level : s.Level t p q) : Option.Rel (Level s t) (s.prev? p) (t.prev? q) := by
  have before := (alike.parts level).1
  simp only [prev?, List.getLast?_eq_getElem?, before.length_eq]
  exact rel_map (rel_get before _) fun twin => twin.level

theorem insn (level : s.Level t p q) :
    Option.Rel (fun x y => x.unnamed = y.unnamed) (s.insn? p) (t.insn? q) := by
  simp only [insn?, List.head?_eq_getElem?]
  exact rel_map (rel_get (alike.parts level).2 0) fun twin => twin.insn

theorem label {l k : Label} (same : s.toBody.target? l = t.toBody.target? k) :
    Option.Rel (Level s t) (s.labels.find? l) (t.labels.find? k) := by
  cases left : s.labels.find? l with
  | none =>
    have nowhere := alike.right.target_none_iff.mp (same ▸ alike.left.target_none_iff.mpr left)
    rw [nowhere]
    exact .none
  | some p =>
    obtain ⟨i, index⟩ := index_of_mem (alike.left.live left)
    have target : t.toBody.target? k = some i := by
      rw [← same, toBody_target, left, Option.bind_some, index]
    rw [toBody_target, Option.bind_eq_some_iff] at target
    obtain ⟨q, right, there⟩ := target
    rw [right]
    exact .some ⟨i, index, there⟩

theorem spanPositions {a b : Span} (ends : s.LevelSpan t a b) :
    ExceptRel Eq (List.Forall₂ (Level s t)) (s.spanPositions a) (t.spanPositions b) := by
  have first := alike.split ends.first alike.cells
  have last := alike.split ends.last alike.cells
  unfold Stream.spanPositions cut
  generalize splitAt? a.first s.cells = x at first ⊢
  generalize splitAt? b.first t.cells = y at first ⊢
  cases first with
  | none => exact .error rfl
  | @some x y first =>
    generalize splitAt? a.last s.cells = x' at last ⊢
    generalize splitAt? b.last t.cells = y' at last ⊢
    cases last with
    | none => exact .error rfl
    | some _ =>
      have inner := alike.split ends.last first.2
      dsimp only
      generalize splitAt? a.last x.2 = x'' at inner ⊢
      generalize splitAt? b.last y.2 = y'' at inner ⊢
      cases inner with
      | none => exact .error rfl
      | some parts =>
        refine .ok ?_
        rw [List.forall₂_map_left_iff, List.forall₂_map_right_iff]
        have inside := List.rel_append parts.1 (List.forall₂_take 1 parts.2)
        exact inside.imp fun _ _ twin => twin.level

end Alike

end Stream

end Interpose

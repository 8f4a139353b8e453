import Interpose.Point
import Interpose.Proofs.Splice.Lowering

/-!
What building an extension point has checked. The two passes over a template accept exactly the
sound templates; in a sound template every mark has an instruction behind it, so that a block
lowered from it has a place for every symbol.
-/

set_option autoImplicit false
set_option relaxedAutoImplicit false

namespace Interpose

namespace Template

variable {loads : Loads} {t : Template}

/-- A template that can be lowered for a point with some number of captures. -/
structure Sound (captures : Nat) (maySkip : Bool) (t : Template) : Prop where
  single : t.marks.Nodup
  captured : ∀ index, .loadCapture index ∈ t → index < captures
  plain : ∀ insn, .emit insn ∈ t → insn.operand.mentioned = []
  continues : ∀ name, t.getLast? ≠ some (.mark name)
  called : t.count .invokeCallback = 1
  skips : t.usesSkip = true → maySkip = true
  marked : ∀ name, .named name ∈ t.targets → name ∈ t.marks

theorem checkOps_iff {point : String} {captures : Nat} {marked : List String} :
    checkOps point captures marked t = .ok () ↔
      (t.marks.Nodup ∧ ∀ name ∈ t.marks, name ∉ marked) ∧
      (∀ index, .loadCapture index ∈ t → index < captures) ∧
      (∀ insn, .emit insn ∈ t → insn.operand.mentioned = []) := by
  induction t generalizing marked with
  | nil => simp [checkOps, marks]
  | cons op t ih =>
    cases op with
    | mark name =>
      have marks_cons : Template.marks (.mark name :: t) = name :: marks t := rfl
      by_cases taken : name ∈ marked
      · simp [checkOps, marks_cons, taken]
      · simp only [checkOps, List.contains_iff_mem, taken, if_false, ih, marks_cons,
          List.nodup_cons, List.mem_cons, forall_eq_or_imp, not_or, reduceCtorEq, false_or,
          not_false_eq_true, true_and]
        refine and_congr_left fun _ => ⟨?_, ?_⟩
        · rintro ⟨once, apart⟩
          exact ⟨⟨fun member => (apart name member).1 rfl, once⟩, fun k member => (apart k member).2⟩
        · rintro ⟨⟨absent, once⟩, apart⟩
          exact ⟨once, fun k member => ⟨fun same => absent (same ▸ member), apart k member⟩⟩
    | loadCapture index =>
      have marks_cons : Template.marks (.loadCapture index :: t) = marks t := rfl
      by_cases beyond : captures ≤ index
      · simp [checkOps, beyond, Nat.not_lt.mpr beyond]
      · simp [checkOps, beyond, ih, marks_cons, Nat.lt_of_not_le beyond]
    | emit insn =>
      have marks_cons : Template.marks (.emit insn :: t) = marks t := rfl
      by_cases plain : insn.operand.mentioned = []
      · simp [checkOps, plain, ih, marks_cons]
      · simp [checkOps, plain]
    | loadActive | typeTest | invokeCallback | branch _ | branchTrue _ | branchFalse _ =>
      simpa [checkOps, marks] using ih

theorem checkShape_iff {point : String} {maySkip : Bool} :
    checkShape point maySkip t = .ok () ↔
      (∀ name, t.getLast? ≠ some (.mark name)) ∧ t.count .invokeCallback = 1 ∧
      (t.usesSkip = true → maySkip = true) ∧ ∀ name, .named name ∈ t.targets → name ∈ t.marks := by
  unfold checkShape
  dsimp only
  split
  · next name final => simp [final]
  · next open_ =>
    have continues : ∀ name, t.getLast? ≠ some (.mark name) := open_
    by_cases once : t.count .invokeCallback = 1
    · by_cases may : (!maySkip && t.usesSkip) = true
      · obtain ⟨never, uses⟩ := Bool.and_eq_true_iff.mp may
        have never : maySkip = false := by simpa using never
        simp [once, uses, never]
      · have skips : t.usesSkip = true → maySkip = true := by
          cases maySkip <;> simp_all
        simp only [once, may, ne_eq, not_true_eq_false, if_false, Bool.false_eq_true]
        split
        · next symbol lost =>
          have target := List.mem_of_find?_eq_some lost
          have unmarked := List.find?_some lost
          simp only [reduceCtorEq, false_iff]
          rintro ⟨-, -, -, marked⟩
          cases symbol with
          | resume | skip => simp at unmarked
          | named name => exact absurd (marked name target) (by simpa using unmarked)
        · next found =>
          refine iff_of_true rfl ⟨continues, trivial, skips, fun name target => ?_⟩
          simpa using List.find?_eq_none.mp found (.named name) target
    · simp [once]

theorem validate_iff {point : String} {maySkip : Bool} :
    t.validate point maySkip loads = .ok () ↔
      t.Sound loads.captures.length maySkip ∧ checkBalance point loads t = .ok () := by
  have ops : checkOps point loads.captures.length [] t = .ok () ↔ _ := checkOps_iff
  have shape : checkShape point maySkip t = .ok () ↔ _ := checkShape_iff
  simp only [List.not_mem_nil, not_false_eq_true, implies_true, and_true] at ops
  unfold validate
  split
  · next e refused =>
    simp only [reduceCtorEq, false_iff]
    rintro ⟨sound, -⟩
    exact absurd (refused.symm.trans (ops.mpr ⟨sound.single, sound.captured, sound.plain⟩)) (by simp)
  · next accepted =>
    obtain ⟨single, captured, plain⟩ := ops.mp accepted
    split
    · next e refused =>
      simp only [reduceCtorEq, false_iff]
      rintro ⟨sound, -⟩
      exact absurd (refused.symm.trans
        (shape.mpr ⟨sound.continues, sound.called, sound.skips, sound.marked⟩)) (by simp)
    · next accepted =>
      obtain ⟨continues, called, skips, marked⟩ := shape.mp accepted
      exact ⟨fun balanced => ⟨⟨single, captured, plain, continues, called, skips, marked⟩, balanced⟩,
        And.right⟩

end Template

/-! ### Loads -/

/-- Code that pushes one value: a plain load, or a field of the receiver. -/
inductive Pushes : List Instruction → Prop
  | load {insn : Instruction} : insn.opcode.isPureLoad = true → Pushes [insn]
  | field {insn : Instruction} : insn.opcode = .ldfld → Pushes [.ldarg 0, insn]

/-- Loads with code for each of a number of captures, all of which pushes one value. -/
structure Loads.Simple (loads : Loads) (captures : Nat) : Prop where
  active : Pushes loads.active
  captured : ∀ index < captures, ∃ code, loads.captures[index]? = some code ∧ Pushes code

theorem Pushes.length {code : List Instruction} (pushes : Pushes code) :
    0 < code.length ∧ code.length ≤ 2 := by
  cases pushes <;> simp

theorem ObjectSource.load_pushes (source : ObjectSource) : Pushes source.load := by
  cases source
  · exact .load rfl
  · exact .load rfl
  · exact .field rfl

theorem PointDraft.trialLoads_simple (d : PointDraft) : d.trialLoads.Simple d.captures.length where
  active := d.active.load_pushes
  captured index inside := by
    refine ⟨[.ldnull], ?_, .load rfl⟩
    simp [trialLoads, inside]

namespace Template

variable {loads : Loads} {captures : Nat} {maySkip : Bool} {t : Template}

theorem Sound.size_pos (sound : t.Sound captures maySkip) (simple : loads.Simple captures)
    {op : TemplateOp} (member : op ∈ t) (unmarked : ∀ name, op ≠ .mark name) :
    0 < op.size loads := by
  cases op with
  | mark name => exact absurd rfl (unmarked name)
  | loadActive => exact simple.active.length.1
  | loadCapture index =>
    obtain ⟨code, found, pushes⟩ := simple.captured index (sound.captured index member)
    simpa [TemplateOp.size, found] using pushes.length.1
  | typeTest | invokeCallback | branch _ | branchTrue _ | branchFalse _ | emit _ =>
    exact Nat.one_pos

theorem Sound.named_iff (sound : t.Sound captures maySkip) {name : String} :
    .named name ∈ t.symbols ↔ name ∈ t.marks := by
  constructor
  · intro member
    obtain ⟨op, here, named⟩ := List.mem_filterMap.mp member
    cases op with
    | mark other =>
      obtain rfl : other = name := Symbol.named.inj (Option.some.inj named)
      exact mem_marks.mpr here
    | branch | branchTrue | branchFalse =>
      exact sound.marked name (List.mem_filterMap.mpr ⟨_, here, named⟩)
    | _ => cases named
  · exact fun member => List.mem_filterMap.mpr ⟨_, mem_marks.mp member, rfl⟩

theorem Sound.placed_perm (sound : t.Sound captures maySkip) : t.placed.Perm t.symbols.dedup := by
  have once : t.placed.Nodup := by
    refine List.Nodup.append ((List.nodup_dedup _).filter _)
      (sound.single.map fun a b same => Symbol.named.inj same) fun symbol fixed marked => ?_
    obtain ⟨name, -, rfl⟩ := List.mem_map.mp marked
    simp [Symbol.fixed] at fixed
  refine (List.perm_ext_iff_of_nodup once (List.nodup_dedup _)).mpr fun symbol => ?_
  simp only [placed, List.mem_append, List.mem_filter, List.mem_map, List.mem_dedup]
  cases symbol with
  | resume | skip => simp [Symbol.fixed]
  | named name => simp [Symbol.fixed, sound.named_iff]

theorem Sound.mark_lt (sound : t.Sound captures maySkip) (simple : loads.Simple captures)
    {name : String} {index : Nat} (marked : t.MarksAt loads name index) :
    index < t.size loads := by
  obtain ⟨front, back, rfl, rfl⟩ := marked
  rcases List.eq_nil_or_concat back with rfl | ⟨back, final, rfl⟩
  · exact absurd List.getLast?_concat (sound.continues name)
  · have unmarked : ∀ other, final ≠ .mark other := by
      rintro other rfl
      refine sound.continues other ?_
      rw [List.concat_eq_append, ← List.cons_append, ← List.append_assoc]
      exact List.getLast?_concat
    have member : final ∈ front ++ .mark name :: back.concat final := by simp
    have some := sound.size_pos simple member unmarked
    simp only [List.concat_eq_append, size_append, size_cons, size_nil]
    omega

theorem Sound.size_template_pos (sound : t.Sound captures maySkip) : 0 < t.size loads := by
  have member : .invokeCallback ∈ t :=
    List.count_pos_iff.mp (by rw [sound.called]; exact Nat.one_pos)
  obtain ⟨front, back, rfl⟩ := List.append_of_mem member
  simp only [size_append, size_cons, TemplateOp.size]
  omega

end Template

theorem PointDraft.build_ok {d : PointDraft} {p : Point} (built : d.build = .ok p) :
    d.chosenTemplate.Sound d.captures.length (d.mode = .consume) ∧
      Template.checkBalance d.name d.trialLoads d.chosenTemplate = .ok () ∧
      p = ⟨d.name, d.mode, d.anchors, d.capability, d.active, d.placement, d.occurrence, d.skip,
        d.captures, d.chosenTemplate, d.callback⟩ := by
  unfold PointDraft.build at built
  split at built
  · cases built
  · split at built
    · cases built
    · split at built
      · cases built
      · next accepted =>
        obtain ⟨sound, balanced⟩ := Template.validate_iff.mp accepted
        simp only [trialLoads, List.length_map] at sound
        exact ⟨sound, balanced, (Except.ok.inj built).symm⟩

theorem PointDraft.build_sound {d : PointDraft} {p : Point} (built : d.build = .ok p) :
    p.template.Sound p.captures.length (p.mode = .consume) := by
  obtain ⟨sound, -, rfl⟩ := build_ok built
  exact sound

end Interpose

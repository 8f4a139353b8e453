import Interpose.Proofs.Splice.Layout

/-!
The stack inside a splice. Building a point runs its template once from an empty stack, with a
stand-in for every captured value, in front of two returns. Whatever depth control enters the
spliced template with, it moves through the elements as the trial run does, with that much more on
the stack, and leaves at the depth it came with.
-/

set_option autoImplicit false
set_option relaxedAutoImplicit false

namespace Interpose

open Body (depthAfter depthAtTarget leads_iff)

/-! ### Single elements -/

theorem Opcode.pure_load_flow {op : Opcode} :
    op.isPureLoad = true → op.isBranch = false ∧ op.fallsThrough = true ∧ op ≠ .ret := by
  cases op <;> decide

theorem Instruction.pure_load_effect {insn : Instruction} (pure : insn.opcode.isPureLoad = true) :
    insn.stackEffect = ⟨0, 1⟩ := by
  obtain ⟨op, operand⟩ := insn
  cases op <;> first | rfl | cases pure

theorem Pushes.effect {code : List Instruction} (pushes : Pushes code) {x : Nat} {insn : Instruction}
    (here : code[x]? = some insn) :
    insn.opcode.isBranch = false ∧ insn.opcode.fallsThrough = true ∧ insn.opcode ≠ .ret ∧
      ∀ d, insn.stackEffect.pops ≤ d + x ∧ depthAfter insn (d + x) = d + 1 := by
  cases pushes with
  | @load insn pure =>
    cases x with
    | zero =>
      obtain rfl := Option.some.inj here
      obtain ⟨still, falls, stays⟩ := Opcode.pure_load_flow pure
      refine ⟨still, falls, stays, fun d => ?_⟩
      simp [depthAfter, Instruction.pure_load_effect pure]
    | succ x => simp at here
  | @field insn field =>
    have inside : x < 2 := (List.getElem?_eq_some_iff.mp here).1
    obtain rfl | rfl : x = 0 ∨ x = 1 := by omega
    · obtain rfl := Option.some.inj here
      exact ⟨rfl, rfl, by decide, fun d => ⟨Nat.zero_le _, rfl⟩⟩
    · obtain rfl := Option.some.inj here
      obtain ⟨op, operand⟩ := insn
      obtain rfl : op = .ldfld := field
      exact ⟨rfl, rfl, by simp, fun d => ⟨Nat.le_add_left _ _, rfl⟩⟩

theorem Pushes.branchTargets {code : List Instruction} (pushes : Pushes code) {x : Nat}
    {insn : Instruction} (here : code[x]? = some insn) : insn.branchTargets = [] := by
  unfold Instruction.branchTargets
  rw [(pushes.effect here).1]
  rfl

/-- Two instructions that an element is lowered to, with its symbol named in two ways. -/
structure TemplateOp.Twins (name other : Symbol → Label) (op : TemplateOp)
    (insn twin : Instruction) : Prop where
  opcode : insn.opcode = twin.opcode
  effect : insn.stackEffect = twin.stackEffect
  targets : insn.branchTargets = op.target?.toList.map name
  twinTargets : twin.branchTargets = op.target?.toList.map other
  stays : op.target? ≠ none → insn.opcode ≠ .leave
  returns : insn.opcode = .ret → op = .emit insn

theorem TemplateOp.shape {loads trial : Loads} {captures : Nat} (simple : loads.Simple captures)
    (trialSimple : trial.Simple captures) (capability : loads.capability = trial.capability)
    (callback : loads.callback = trial.callback) (name other : Symbol → Label) {op : TemplateOp}
    (captured : ∀ index, op = .loadCapture index → index < captures)
    (plain : ∀ insn, op = .emit insn → insn.operand.mentioned = []) :
    (∃ mark, op = .mark mark) ∨
      (Pushes (op.code loads name) ∧ Pushes (op.code trial other)) ∨
      ∃ insn twin, op.code loads name = [insn] ∧ op.code trial other = [twin] ∧
        op.Twins name other insn twin := by
  cases op with
  | mark mark => exact .inl ⟨mark, rfl⟩
  | loadActive => exact .inr (.inl ⟨simple.active, trialSimple.active⟩)
  | loadCapture index =>
    obtain ⟨code, found, pushes⟩ := simple.captured index (captured index rfl)
    obtain ⟨stand, there, also⟩ := trialSimple.captured index (captured index rfl)
    refine .inr (.inl ⟨?_, ?_⟩)
    · simpa [TemplateOp.code, found] using pushes
    · simpa [TemplateOp.code, there] using also
  | typeTest =>
    exact .inr (.inr ⟨_, _, rfl, by rw [TemplateOp.code, ← capability],
      rfl, rfl, rfl, rfl, by simp [target?], by simp [Instruction.isinst]⟩)
  | invokeCallback =>
    exact .inr (.inr ⟨_, _, rfl, by rw [TemplateOp.code, ← callback],
      rfl, rfl, rfl, rfl, by simp [target?], by simp [Instruction.call]⟩)
  | branch symbol | branchTrue symbol | branchFalse symbol =>
    exact .inr (.inr ⟨_, _, rfl, rfl, rfl, rfl, rfl, rfl,
      by simp [Instruction.br, Instruction.brtrue, Instruction.brfalse],
      by simp [Instruction.br, Instruction.brtrue, Instruction.brfalse]⟩)
  | emit insn =>
    have targets : insn.branchTargets = [] := by
      simp [Instruction.branchTargets, plain insn rfl]
    exact .inr (.inr ⟨insn, insn, rfl, rfl, rfl, rfl, targets, targets, by simp [target?],
      fun _ => rfl⟩)

namespace Template

variable {loads trialLoads : Loads} {t : Template} {captures : Nat} {maySkip : Bool}
  {b trial : Body} {start skip : Nat} {name trialName : Symbol → Label}

theorem Hosted.code_at (hosted : t.Hosted loads b start skip name) {front back : Template}
    {op : TemplateOp} (whole : t = front ++ op :: back) {x : Nat} (inside : x < op.size loads) :
    b.code[start + size loads front + x]? = (op.code loads name)[x]? := by
  subst whole
  have size : (op.code loads name).length = op.size loads := op.code_length loads name
  rw [Nat.add_assoc, hosted.code _ (by simp; omega), code_append,
    List.getElem?_append_right (by simp)]
  simp only [code_length, Nat.add_sub_cancel_left]
  exact List.getElem?_append_left (by omega)

/-- A template that is spliced into a body and had its trial run. -/
structure Rehearsed (captures : Nat) (maySkip : Bool) (loads trialLoads : Loads) (t : Template)
    (b trial : Body) (start skip : Nat) (name trialName : Symbol → Label) : Prop where
  sound : t.Sound captures maySkip
  simple : loads.Simple captures
  trialSimple : trialLoads.Simple captures
  capability : loads.capability = trialLoads.capability
  callback : loads.callback = trialLoads.callback
  hosted : t.Hosted loads b start skip name
  trialHosted : t.Hosted trialLoads trial 0 (t.size trialLoads + 1) trialName
  onward : start + t.size loads < b.code.length
  resumes : trial.code[t.size trialLoads]? = some .ret
  skips : trial.code[t.size trialLoads + 1]? = some .ret
  void : trial.returns = false
  disciplined : trial.Disciplined

/-- Control stands in front of an element that the trial run reaches, with `e` more values on the
stack than there. -/
def Fronts (loads trialLoads : Loads) (t : Template) (trial : Body) (start e : Nat) (s : State) :
    Prop :=
  ∃ front back m, t = front ++ back ∧ s = (start + size loads front, e + m) ∧
    trial.Reaches (size trialLoads front, m)

/-- Control stands in an element that the trial run reaches, with `e` more values on the stack than
there. Inside an element every instruction before has pushed one value. -/
def Within (loads trialLoads : Loads) (t : Template) (trial : Body) (start e : Nat) (s : State) :
    Prop :=
  ∃ front op back m x, t = front ++ op :: back ∧ x < op.size loads ∧
    s = (start + size loads front + x, e + m + x) ∧ trial.Reaches (size trialLoads front, m)

theorem Within.inside {e : Nat} {s : State} (within : Within loads trialLoads t trial start e s) :
    start ≤ s.1 ∧ s.1 < start + t.size loads := by
  obtain ⟨front, op, back, m, x, rfl, inside, rfl, -⟩ := within
  simp only [size_append, size_cons]
  omega

theorem depthAfter_add {insn twin : Instruction} (same : insn.stackEffect = twin.stackEffect)
    {m : Nat} (enough : twin.stackEffect.pops ≤ m) (e : Nat) :
    depthAfter insn (e + m) = e + depthAfter twin m := by
  simp only [depthAfter, same]
  omega

section Rehearsed

variable (r : Rehearsed captures maySkip loads trialLoads t b trial start skip name trialName)
include r

theorem Rehearsed.shape {front back : Template} {op : TemplateOp} (whole : t = front ++ op :: back) :
    (∃ mark, op = .mark mark) ∨
      (Pushes (op.code loads name) ∧ Pushes (op.code trialLoads trialName)) ∨
      ∃ insn twin, op.code loads name = [insn] ∧ op.code trialLoads trialName = [twin] ∧
        op.Twins name trialName insn twin := by
  have member : op ∈ t := by simp [whole]
  refine TemplateOp.shape r.simple r.trialSimple r.capability r.callback name trialName ?_ ?_
  · rintro index rfl
    exact r.sound.captured index member
  · rintro insn rfl
    exact r.sound.plain insn member

theorem Rehearsed.trial_end {m : Nat} (reached : trial.Reaches (t.size trialLoads, m) ∨
    trial.Reaches (t.size trialLoads + 1, m)) : m = 0 := by
  have void : trial.returns.toNat = 0 := by rw [r.void]; rfl
  rcases reached with resumes | skips
  · exact ((r.disciplined.canRun resumes r.resumes).returns rfl).trans void
  · exact ((r.disciplined.canRun skips r.skips).returns rfl).trans void

theorem Rehearsed.enters (e : Nat) : Fronts loads trialLoads t trial start e (start, e) := by
  refine ⟨[], t, 0, rfl, rfl, .entry ?_⟩
  have inside := (List.getElem?_eq_some_iff.mp r.resumes).1
  omega

/-- In front of the remaining elements control is in the next one that has an instruction, or behind
the template. -/
theorem Rehearsed.settle {e : Nat} {s : State} (fronts : Fronts loads trialLoads t trial start e s) :
    Within loads trialLoads t trial start e s ∨ s = (start + t.size loads, e) := by
  obtain ⟨front, back, m, whole, rfl, reached⟩ := fronts
  induction back generalizing front with
  | nil =>
    obtain rfl : t = front := by simpa using whole
    obtain rfl := r.trial_end (.inl reached)
    exact .inr rfl
  | cons op back ih =>
    by_cases marked : ∃ mark, op = .mark mark
    · obtain ⟨mark, rfl⟩ := marked
      have same : ∀ loads, size loads (front ++ [.mark mark]) = size loads front := by
        simp [TemplateOp.size]
      have rest := ih (front ++ [.mark mark]) (by simpa using whole)
      rw [same, same] at rest
      exact rest reached
    · have member : op ∈ t := by simp [whole]
      have some := r.sound.size_pos r.simple member fun mark here => marked ⟨mark, here⟩
      exact .inl ⟨front, op, back, m, 0, whole, some, rfl, reached⟩

theorem Rehearsed.trial_push {front back : Template} {op : TemplateOp}
    (whole : t = front ++ op :: back) (pushes : Pushes (op.code trialLoads trialName)) {m : Nat}
    (reached : trial.Reaches (size trialLoads front, m)) :
    trial.Reaches (size trialLoads (front ++ [op]), m + 1) := by
  have length : (op.code trialLoads trialName).length = op.size trialLoads :=
    op.code_length trialLoads trialName
  have bounds := pushes.length
  have step : ∀ x, x < op.size trialLoads → trial.Reaches (size trialLoads front + x, m + x) →
      trial.Reaches (size trialLoads front + x + 1, m + 1) := by
    intro x inside here
    have found := List.getElem?_eq_getElem (l := op.code trialLoads trialName) (i := x) (by omega)
    have code := r.trialHosted.code_at whole inside
    rw [Nat.zero_add, found] at code
    obtain ⟨-, falls, -, depth⟩ := pushes.effect found
    have next := r.disciplined.next here code falls
    rwa [(depth m).2] at next
  have first := step 0 (by omega) reached
  simp only [size_append, size_cons, size_nil]
  by_cases one : op.size trialLoads = 1
  · rw [one]
    exact first
  · obtain two : op.size trialLoads = 2 := by omega
    rw [two]
    exact step 1 (by omega) first

theorem Rehearsed.target {front back : Template} {op : TemplateOp} (whole : t = front ++ op :: back)
    {symbol : Symbol} (target : op.target? = some symbol) :
    (b.target? (name symbol) = some (start + t.size loads) ∧
        trial.target? (trialName symbol) = some (t.size trialLoads)) ∨
      (symbol = .skip ∧ b.target? (name symbol) = some skip ∧
        trial.target? (trialName symbol) = some (t.size trialLoads + 1)) ∨
      ∃ before after : Template, t = before ++ after ∧
        b.target? (name symbol) = some (start + size loads before) ∧
        trial.target? (trialName symbol) = some (size trialLoads before) := by
  have member : op ∈ t := by simp [whole]
  have aimed : symbol ∈ t.targets := List.mem_filterMap.mpr ⟨op, member, target⟩
  have known : symbol ∈ t.symbols := by
    refine List.mem_filterMap.mpr ⟨op, member, ?_⟩
    cases op <;> first | exact target | cases target
  cases symbol with
  | resume =>
    have there := r.trialHosted.resume known
    rw [Nat.zero_add] at there
    exact .inl ⟨r.hosted.resume known, there⟩
  | skip => exact .inr (.inl ⟨rfl, r.hosted.skip known, r.trialHosted.skip known⟩)
  | named mark =>
    obtain ⟨before, after, parts⟩ := List.append_of_mem (mem_marks.mp (r.sound.marked mark aimed))
    have marked : ∀ loads, t.MarksAt loads mark (size loads before) := fun _ =>
      ⟨before, after, parts, rfl⟩
    have here := r.hosted.named mark _ known (marked loads) (r.sound.mark_lt r.simple (marked _))
    have there := r.trialHosted.named mark _ known (marked trialLoads)
      (r.sound.mark_lt r.trialSimple (marked _))
    rw [Nat.zero_add] at there
    exact .inr (.inr ⟨before, _, parts, here, there⟩)

theorem Rehearsed.trial_twin {front back : Template} {op : TemplateOp}
    (whole : t = front ++ op :: back) {twin : Instruction}
    (alone : op.code trialLoads trialName = [twin]) {m : Nat}
    (reached : trial.Reaches (size trialLoads front, m)) :
    op.size trialLoads = 1 ∧ trial.code[size trialLoads front]? = some twin ∧
      trial.CanRun twin (size trialLoads front) m := by
  have one : op.size trialLoads = 1 := by
    rw [← op.code_length trialLoads trialName, alone]
    rfl
  have code := r.trialHosted.code_at whole (x := 0) (by omega)
  simp only [Nat.zero_add, Nat.add_zero, alone, List.getElem?_cons_zero] at code
  exact ⟨one, code, r.disciplined.canRun reached code⟩

theorem Rehearsed.branch_within {front back : Template} {op : TemplateOp}
    (whole : t = front ++ op :: back) {insn twin : Instruction}
    (alone : op.code trialLoads trialName = [twin]) (twins : op.Twins name trialName insn twin)
    {m : Nat} (reached : trial.Reaches (size trialLoads front, m)) {l : Label}
    (target : l ∈ insn.branchTargets) {j : Nat} (found : b.target? l = some j) (e : Nat) :
    Within loads trialLoads t trial start e (j, depthAtTarget insn (e + m)) ∨
      (j, depthAtTarget insn (e + m)) = (start + t.size loads, e) ∨
      op.target? = some .skip ∧ (j, depthAtTarget insn (e + m)) = (skip, e) := by
  obtain ⟨-, code, can⟩ := r.trial_twin whole alone reached
  rw [twins.targets, List.mem_map] at target
  obtain ⟨symbol, aims, rfl⟩ := target
  have aims : op.target? = some symbol := Option.mem_toList.mp aims
  have stays := twins.stays (by simp [aims])
  have level : depthAtTarget insn (e + m) = e + depthAtTarget twin m := by
    rw [depthAtTarget, depthAtTarget, if_neg stays, if_neg (twins.opcode ▸ stays),
      depthAfter_add twins.effect can.enough]
  have aimed : trialName symbol ∈ twin.branchTargets := by
    rw [twins.twinTargets]
    exact List.mem_map_of_mem (Option.mem_toList.mpr aims)
  rw [level]
  rcases r.target whole aims with
    ⟨on, there⟩ | ⟨rfl, past, there⟩ | ⟨before, after, parts, here, there⟩
  · have zero := r.trial_end (.inl (r.disciplined.jump reached code aimed there))
    obtain rfl := Option.some.inj (found.symm.trans on)
    exact .inr (.inl (by rw [zero, Nat.add_zero]))
  · have zero := r.trial_end (.inr (r.disciplined.jump reached code aimed there))
    obtain rfl := Option.some.inj (found.symm.trans past)
    exact .inr (.inr ⟨aims, by rw [zero, Nat.add_zero]⟩)
  · obtain rfl := Option.some.inj (found.symm.trans here)
    exact (r.settle ⟨before, after, _, parts, rfl,
      r.disciplined.jump reached code aimed there⟩).imp_right .inl

/-- A step from inside a splice stays inside, goes on behind it, or skips; then the depth is the one
that control came with. -/
theorem Rehearsed.leads_within {e i d : Nat} {u : State}
    (within : Within loads trialLoads t trial start e (i, d)) (leads : b.Leads (i, d) u) :
    Within loads trialLoads t trial start e u ∨ u = (start + t.size loads, e) ∨
      ∃ front op back, t = front ++ op :: back ∧ op.target? = some .skip ∧
        i = start + size loads front ∧ u = (skip, e) := by
  obtain ⟨front, op, back, m, x, whole, inside, same, reached⟩ := within
  obtain ⟨rfl, rfl⟩ := Prod.mk.inj same
  obtain ⟨j, depth⟩ := u
  obtain ⟨insn, code, can, way⟩ := leads_iff.mp leads
  rw [r.hosted.code_at whole inside] at code
  have passed : ∀ {m'}, trial.Reaches (size trialLoads (front ++ [op]), m') →
      x + 1 = op.size loads → Within loads trialLoads t trial start e
        (start + size loads front + x + 1, e + m') ∨
      (start + size loads front + x + 1, e + m') = (start + t.size loads, e) := by
    intro m' reached' last
    refine r.settle ⟨front ++ [op], back, m', by simp [whole], ?_, reached'⟩
    simp only [size_append, size_cons, size_nil]
    congr 1
    omega
  rcases r.shape whole with ⟨mark, rfl⟩ | ⟨pushes, trialPushes⟩ |
    ⟨insn', twin, alone, trialAlone, twins⟩
  · exact absurd inside (Nat.not_lt_zero _)
  · have bounds := pushes.length
    rw [op.code_length] at bounds
    obtain ⟨-, -, -, after⟩ := pushes.effect code
    rcases way with ⟨-, rfl, rfl⟩ | ⟨l, target, -⟩
    · rw [(after (e + m)).2]
      by_cases more : x + 1 < op.size loads
      · obtain rfl : x = 0 := by omega
        exact .inl ⟨front, op, back, m, 1, whole, more, rfl, reached⟩
      · exact (passed (r.trial_push whole trialPushes reached) (by omega)).imp_right .inl
    · rw [pushes.branchTargets code] at target
      cases target
  · have one : op.size loads = 1 := by rw [← op.code_length loads name, alone]; rfl
    obtain ⟨trialOne, trialCode, trialCan⟩ := r.trial_twin whole trialAlone reached
    obtain rfl : x = 0 := by omega
    obtain rfl : insn' = insn := by simpa [alone] using code
    simp only [Nat.add_zero] at way ⊢
    rcases way with ⟨falls, rfl, rfl⟩ | ⟨l, target, found, rfl⟩
    · rw [depthAfter_add twins.effect trialCan.enough]
      have next := r.disciplined.next reached trialCode (twins.opcode ▸ falls)
      have there : size trialLoads (front ++ [op]) = size trialLoads front + 1 := by simp [trialOne]
      exact (passed (there ▸ next) (by omega)).imp_right .inl
    · rcases r.branch_within whole trialAlone twins reached target found e with
        stays | behind | ⟨aims, past⟩
      · exact .inl stays
      · exact .inr (.inl behind)
      · exact .inr (.inr ⟨front, op, back, whole, aims, rfl, past⟩)

theorem Rehearsed.runs_within (stays : ∀ insn, .emit insn ∈ t → insn.opcode ≠ .ret) {e i d : Nat}
    (within : Within loads trialLoads t trial start e (i, d)) :
    ∃ insn, b.code[i]? = some insn ∧ b.CanRun insn i d := by
  have bound := within.inside
  obtain ⟨front, op, back, m, x, whole, inside, same, reached⟩ := within
  obtain ⟨rfl, rfl⟩ := Prod.mk.inj same
  have size : x < (op.code loads name).length := by rwa [op.code_length]
  have code := r.hosted.code_at whole inside
  have onward : start + Template.size loads front + x + 1 < b.code.length :=
    Nat.lt_of_le_of_lt bound.2 r.onward
  rw [List.getElem?_eq_getElem size] at code
  refine ⟨_, code, ?_⟩
  have found := List.getElem?_eq_getElem size
  generalize (op.code loads name)[x] = insn at code found
  rcases r.shape whole with ⟨mark, rfl⟩ | ⟨pushes, -⟩ | ⟨insn', twin, alone, trialAlone, twins⟩
  · exact absurd inside (Nat.not_lt_zero _)
  · obtain ⟨-, -, returns, after⟩ := pushes.effect found
    refine ⟨(after (e + m)).1, fun ret => absurd ret returns, fun _ => onward, fun l target => ?_⟩
    rw [pushes.branchTargets found] at target
    cases target
  · obtain ⟨-, -, trialCan⟩ := r.trial_twin whole trialAlone reached
    obtain rfl : x = 0 := by
      rw [alone] at size
      exact Nat.lt_one_iff.mp size
    obtain rfl : insn' = insn := by simpa [alone] using found
    refine ⟨?_, fun ret => ?_, fun _ => onward, fun l target => ?_⟩
    · rw [twins.effect]
      exact Nat.le_trans trialCan.enough (by omega)
    · obtain rfl := twins.returns ret
      exact absurd ret (stays insn' (by simp [whole]))
    · rw [twins.targets, List.mem_map] at target
      obtain ⟨symbol, aims, rfl⟩ := target
      rcases r.target whole (Option.mem_toList.mp aims) with ⟨on, -⟩ | ⟨-, past, -⟩ |
        ⟨before, after, -, here, -⟩
      · exact ⟨_, on⟩
      · exact ⟨_, past⟩
      · exact ⟨_, here⟩

end Rehearsed

end Template

end Interpose

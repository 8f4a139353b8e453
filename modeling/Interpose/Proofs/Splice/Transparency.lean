import Interpose.Proofs.Splice.Trial
import Mathlib.Logic.Relation

/-!
Splices of the default templates are transparent. As long as the test of the active object fails,
the patched body runs like the body before: its steps are those of the body before, with a detour
through the splice wherever control comes to the place of the splice. Where the test succeeds, the
splice is left for the place to go on or for the skip target, at the depth control came with.
-/

set_option autoImplicit false
set_option relaxedAutoImplicit false

namespace Interpose

open Body (depthAfter depthAtTarget leads_iff)
open Relation (ReflTransGen)

namespace Point

def testIndex (p : Point) (r : SpliceReport) : Nat := r.index + p.active.load.length + 1

/-- A step of the patched body from an inserted instruction, on which a failed test goes on with the
method. -/
def Declines (p : Point) (r : SpliceReport) (after : Body) (s u : State) : Prop :=
  r.Inside s.1 ∧ after.Leads s u ∧ (s.1 = p.testIndex r → u.1 = r.index + r.inserted)

/-- A step of the patched body from an inserted instruction, on which the test succeeds. -/
def Proceeds (p : Point) (r : SpliceReport) (after : Body) (s u : State) : Prop :=
  r.Inside s.1 ∧ after.Leads s u ∧ (s.1 = p.testIndex r → u.1 ≠ r.index + r.inserted)

/-- The patched body `after` does what the body `b` does, apart from what the callback decides.
`skip` is the index of the skip target in `b`. -/
structure Transparent (p : Point) (r : SpliceReport) (skip : Nat) (b after : Body) : Prop where
  /-- The inserted instructions stand together among those of the body before. -/
  kept : ∃ inserted, inserted.length = r.inserted ∧
    after.code = b.code.take r.index ++ inserted ++ b.code.drop r.index
  /-- The branch behind the test goes on with the method. -/
  test : ∃ l, after.code[p.testIndex r]? = some (.brfalse l) ∧
    after.target? l = some (r.index + r.inserted) ∧ p.testIndex r + 1 < r.index + r.inserted
  /-- The method starts at its first instruction, perhaps by way of the splice. -/
  entry : b.code ≠ [] → ReflTransGen (p.Declines r after) (0, 0) (r.place 0, 0) ∧
    ∀ v, ReflTransGen (p.Declines r after) (0, 0) v → ¬r.Inside v.1 → v = (r.place 0, 0)
  /-- Every step of the body before is one of the patched body, perhaps by way of the splice. -/
  forth : ∀ {i d j e}, b.Leads (i, d) (j, e) → ∃ u, after.Leads (r.place i, d) u ∧
    ReflTransGen (p.Declines r after) u (r.place j, e)
  /-- The patched body has no other steps, perhaps by way of the splice. -/
  back : ∀ {i d u v}, after.Leads (r.place i, d) u → ReflTransGen (p.Declines r after) u v →
    ¬r.Inside v.1 → ∃ j e, v = (r.place j, e) ∧ b.Leads (i, d) (j, e)
  /-- The splice is entered at its first instruction. -/
  enters : ∀ {i d u}, after.Leads (r.place i, d) u → r.Inside u.1 → u.1 = r.index
  /-- Where the test succeeds, the splice is left at the depth it was entered with. -/
  leaves : ∀ {e w v}, ReflTransGen (p.Proceeds r after) (r.index, e) w → r.Inside w.1 →
    after.Leads w v → ¬r.Inside v.1 → (w.1 = p.testIndex r → v.1 ≠ r.index + r.inserted) →
    v = (r.index + r.inserted, e) ∨
      p.mode = .consume ∧ v = (r.place skip, e) ∧
        ∃ l, after.code[w.1]? = some (.brtrue l) ∧ after.target? l = some v.1

end Point

/-! ### The default templates -/

def Template.handler (mode : SpliceMode) (captures : Nat) : Template :=
  match mode with
  | .consume => [.loadActive, .invokeCallback, .branchTrue .skip]
  | .augment => .loadActive :: (List.range captures).map .loadCapture ++ [.invokeCallback]

/-- A template that tests the active object first and handles it afterwards. -/
def Template.tested (mode : SpliceMode) (captures : Nat) : Template :=
  [.loadActive, .typeTest] ++ .branchFalse .resume :: handler mode captures

theorem PointDraft.default_template {d : PointDraft} (default : d.template = none) :
    d.chosenTemplate = .tested d.mode d.captures.length := by
  simp only [PointDraft.chosenTemplate, default, Option.getD_none]
  cases d.mode <;> rfl

namespace Template

variable {mode : SpliceMode} {captures : Nat}

theorem handler_pos (loads : Loads) (mode : SpliceMode) (captures : Nat) :
    0 < size loads (handler mode captures) := by
  cases mode <;> simp only [handler, size_cons, size_append, size_nil, TemplateOp.size,
    List.cons_append] <;> omega

theorem tested_skips {front back : Template} {op : TemplateOp}
    (parts : tested mode captures = front ++ op :: back) (target : op.target? = some .skip) :
    mode = .consume ∧ op = .branchTrue .skip ∧ back = [] := by
  have member : op ∈ handler mode captures := by
    have here : op ∈ tested mode captures := by
      rw [parts]
      simp
    simp only [tested, List.cons_append, List.nil_append, List.mem_cons] at here
    rcases here with rfl | rfl | rfl | later
    · cases target
    · cases target
    · cases target
    · exact later
  cases mode with
  | augment =>
    simp only [handler, List.cons_append, List.mem_cons, List.mem_append, List.mem_map,
      List.not_mem_nil, or_false] at member
    rcases member with rfl | ⟨index, -, rfl⟩ | rfl <;> cases target
  | consume =>
    simp only [handler, List.mem_cons, List.not_mem_nil, or_false] at member
    rcases member with rfl | rfl | rfl
    · cases target
    · cases target
    · refine ⟨rfl, rfl, ?_⟩
      rcases List.eq_nil_or_concat back with rfl | ⟨rest, final, rfl⟩
      · rfl
      · -- the element would stand in front of the last one, where no other is like it
        have same : front ++ .branchTrue .skip :: rest ++ [final] =
            [.loadActive, .typeTest, .branchFalse .resume, .loadActive, .invokeCallback] ++
              [.branchTrue .skip] := by
          rw [List.append_assoc, List.cons_append, ← List.concat_eq_append, ← parts]
          rfl
        have init := (List.append_inj' same rfl).1
        have impossible : TemplateOp.branchTrue .skip ∈ ([.loadActive, .typeTest,
            .branchFalse .resume, .loadActive, .invokeCallback] : Template) := by
          rw [← init]
          simp
        exact absurd impossible (by decide)

end Template

/-! ### The detour -/

namespace Point

variable {p : Point} {loads : Loads} {skip : Nat} {b after : Body} {r : SpliceReport}
  {name : Symbol → Label} {captures : Nat}

section Detour

variable (patched : p.Patched loads skip b after r name)
  (tested : p.template = .tested p.mode captures) (active : loads.active = p.active.load)
include patched tested active

theorem Patched.tested_size : r.inserted =
    p.active.load.length + 2 + Template.size loads (Template.handler p.mode captures) := by
  rw [patched.size, tested, Template.tested]
  simp only [List.cons_append, List.nil_append, Template.size_cons, TemplateOp.size, active]
  omega

theorem Patched.active_code {x : Nat} (inside : x < p.active.load.length) :
    after.code[r.index + x]? = some p.active.load[x] := by
  have within : x < TemplateOp.size loads .loadActive := by
    simpa [TemplateOp.size, active] using inside
  have code := patched.hosted.code_at
    (show p.template = [] ++ .loadActive :: _ from tested) within
  simpa [TemplateOp.code, active, inside] using code

theorem Patched.typeTest_code :
    after.code[r.index + p.active.load.length]? = some (.isinst loads.capability) := by
  have code := patched.hosted.code_at (x := 0)
    (show p.template = [.loadActive] ++ .typeTest :: _ from tested) Nat.one_pos
  simpa [TemplateOp.code, TemplateOp.size, active] using code

theorem Patched.test_code : after.code[p.testIndex r]? = some (.brfalse (name .resume)) := by
  have code := patched.hosted.code_at (x := 0)
    (show p.template = [.loadActive, .typeTest] ++ .branchFalse .resume :: _ from tested) Nat.one_pos
  simpa [TemplateOp.code, TemplateOp.size, active, testIndex, Nat.add_assoc] using code

omit active in
theorem Patched.test_target : after.target? (name .resume) = some (r.index + r.inserted) := by
  rw [patched.size]
  refine patched.hosted.resume ?_
  rw [tested]
  exact List.mem_filterMap.mpr ⟨.branchFalse .resume, by simp [Template.tested], rfl⟩

theorem Patched.declines_iff {x e : Nat} (bound : x ≤ p.active.load.length + 1) {u : State} :
    p.Declines r after (r.index + x, e + min x 1) u ↔
      u = if x ≤ p.active.load.length then (r.index + x + 1, e + 1)
        else (r.index + r.inserted, e) := by
  have size := patched.tested_size tested active
  have handler := Template.handler_pos loads p.mode captures
  have length := patched.length
  have front := patched.inside
  have loadLength := p.active.load_pushes.length
  have inside : r.Inside (r.index + x) := ⟨Nat.le_add_right _ _, by omega⟩
  have onward : r.index + x + 1 < after.code.length := by omega
  simp only [Declines, testIndex, inside, true_and]
  rcases Nat.lt_trichotomy x p.active.load.length with early | rfl | late
  · -- a load of the active object
    have code := patched.active_code tested active early
    have found := List.getElem?_eq_getElem early
    obtain ⟨-, falls, stays, depth⟩ := p.active.load_pushes.effect found
    have still := p.active.load_pushes.branchTargets found
    have level : e + min x 1 = e + x := by omega
    rw [Body.leads_next_iff code falls still, level, (depth e).2, if_pos (by omega)]
    refine ⟨fun both => both.1.2, fun same => ⟨⟨⟨(depth e).1, fun ret => absurd ret stays,
      fun _ => onward, fun l target => ?_⟩, same⟩, fun at_ => by omega⟩⟩
    rw [still] at target
    cases target
  · -- the type test
    have code := patched.typeTest_code tested active
    have level : e + min p.active.load.length 1 = e + 1 := by omega
    rw [Body.leads_next_iff code rfl rfl, level, if_pos (Nat.le_refl _)]
    refine ⟨fun both => both.1.2, fun same => ⟨⟨⟨?_, nofun, fun _ => onward, nofun⟩, same⟩,
      fun at_ => by omega⟩⟩
    exact Nat.le_add_left 1 e
  · -- the branch on the test
    obtain rfl : x = p.active.load.length + 1 := by omega
    have code := patched.test_code tested active
    rw [testIndex, Nat.add_assoc] at code
    have target := patched.test_target tested
    have level : e + min (p.active.load.length + 1) 1 = e + 1 := by omega
    obtain ⟨j, depth⟩ := u
    simp only [leads_iff, code, Option.some.injEq, exists_eq_left', level, Nat.add_assoc]
    rw [if_neg (by omega)]
    constructor
    · rintro ⟨⟨can, ⟨-, rfl, -⟩ | ⟨l, member, found, rfl⟩⟩, taken⟩
      · have here := taken trivial
        omega
      · obtain rfl := List.mem_singleton.mp member
        obtain rfl := Option.some.inj (found.symm.trans target)
        rfl
    · intro same
      obtain ⟨rfl, rfl⟩ := Prod.mk.inj same
      refine ⟨⟨⟨Nat.le_add_left 1 depth, nofun, fun _ => onward, fun l member => ?_⟩,
        .inr ⟨_, List.mem_singleton.mpr rfl, target, rfl⟩⟩, fun _ => rfl⟩
      obtain rfl := List.mem_singleton.mp member
      exact ⟨_, target⟩

theorem Patched.detour (e : Nat) :
    ReflTransGen (p.Declines r after) (r.index, e) (r.place r.index, e) := by
  have reached : ∀ x ≤ p.active.load.length + 1,
      ReflTransGen (p.Declines r after) (r.index, e) (r.index + x, e + min x 1) := by
    intro x
    induction x with
    | zero => exact fun _ => .refl
    | succ x ih =>
      intro bound
      refine (ih (by omega)).tail ((patched.declines_iff tested active (by omega)).mpr ?_)
      rw [if_pos (by omega), Nat.min_eq_right (by omega)]
      rfl
  refine (reached _ (Nat.le_refl _)).tail
    ((patched.declines_iff tested active (Nat.le_refl _)).mpr ?_)
  rw [if_neg (by omega), SpliceReport.place_at]

theorem Patched.detour_unique {e : Nat} {v : State}
    (path : ReflTransGen (p.Declines r after) (r.index, e) v) (outside : ¬r.Inside v.1) :
    v = (r.place r.index, e) := by
  have ways : (∃ x ≤ p.active.load.length + 1, v = (r.index + x, e + min x 1)) ∨
      v = (r.index + r.inserted, e) := by
    clear outside
    induction path with
    | refl => exact .inl ⟨0, Nat.zero_le _, rfl⟩
    | tail _ step ih =>
      rcases ih with ⟨x, bound, rfl⟩ | rfl
      · rw [patched.declines_iff tested active bound] at step
        subst step
        split
        · exact .inl ⟨x + 1, by omega, by rw [Nat.min_eq_right (by omega)]; rfl⟩
        · exact .inr rfl
      · have here := step.1.2
        omega
  rcases ways with ⟨x, bound, rfl⟩ | rfl
  · have size := patched.tested_size tested active
    have handler := Template.handler_pos loads p.mode captures
    exact absurd ⟨Nat.le_add_right _ _, by simp only; omega⟩ outside
  · rw [SpliceReport.place_at]

end Detour

theorem Patched.arrives_iff {j e : Nat} {u : State} (patched : p.Patched loads skip b after r name)
    (tested : p.template = .tested p.mode captures) (active : loads.active = p.active.load)
    (arrives : Arrives r j e u) :
    ReflTransGen (p.Declines r after) u (r.place j, e) ∧
      ∀ v, ReflTransGen (p.Declines r after) u v → ¬r.Inside v.1 → v = (r.place j, e) := by
  rcases arrives with rfl | ⟨rfl, rfl⟩
  · refine ⟨.refl, fun v path _ => ?_⟩
    rcases path.cases_head with rfl | ⟨w, step, -⟩
    · rfl
    · exact absurd step.1 (SpliceReport.not_inside_place j)
  · exact ⟨patched.detour tested active e, fun v path => patched.detour_unique tested active path⟩

theorem proceeds_within {trialLoads : Loads} {trial : Body} {trialName : Symbol → Label}
    {maySkip : Bool} (patched : p.Patched loads skip b after r name)
    (rehearsed : p.template.Rehearsed captures maySkip loads trialLoads after trial r.index
      (r.place skip) name trialName) {e : Nat} {w : State}
    (path : ReflTransGen (p.Proceeds r after) (r.index, e) w) (inside : r.Inside w.1) :
    p.template.Within loads trialLoads trial r.index e w := by
  have size := patched.size
  induction path with
  | refl =>
    rcases rehearsed.settle (rehearsed.enters e) with within | behind
    · exact within
    · have here := inside.2
      rw [behind, ← size] at here
      exact absurd here (Nat.lt_irrefl _)
  | tail _ step ih =>
    have within := ih step.1
    rcases rehearsed.leads_within within step.2.1 with
      next | behind | ⟨front, op, back, -, -, -, past⟩
    · exact next
    · have here := inside.2
      rw [behind, ← size] at here
      exact absurd here (Nat.lt_irrefl _)
    · rw [past] at inside
      exact absurd inside (SpliceReport.not_inside_place skip)

theorem Patched.transparent {trialLoads : Loads} {trial : Body} {trialName : Symbol → Label}
    {maySkip : Bool} (patched : p.Patched loads skip b after r name)
    (rehearsed : p.template.Rehearsed captures maySkip loads trialLoads after trial r.index
      (r.place skip) name trialName)
    (tested : p.template = .tested p.mode captures) (active : loads.active = p.active.load)
    (kept : ∃ inserted, inserted.length = r.inserted ∧
      after.code = b.code.take r.index ++ inserted ++ b.code.drop r.index) :
    p.Transparent r skip b after where
  kept := kept
  test := by
    refine ⟨_, patched.test_code tested active, patched.test_target tested, ?_⟩
    have size := patched.tested_size tested active
    have handler := Template.handler_pos loads p.mode captures
    unfold testIndex
    omega
  entry _ := by
    refine patched.arrives_iff tested active ?_
    by_cases first : r.index = 0
    · exact .inr ⟨first.symm, by rw [first]⟩
    · exact .inl (by rw [SpliceReport.place, if_pos (Nat.pos_of_ne_zero first)])
  forth leads := by
    obtain ⟨u, step, arrives⟩ := patched.leads_of leads
    exact ⟨u, step, (patched.arrives_iff tested active arrives).1⟩
  back {i d u v} step path outside := by
    obtain ⟨j, e, leads, arrives⟩ := patched.leads_from step
    exact ⟨j, e, (patched.arrives_iff tested active arrives).2 v path outside, leads⟩
  enters step inside := by
    obtain ⟨j, e, -, rfl | ⟨rfl, rfl⟩⟩ := patched.leads_from step
    · exact absurd inside (SpliceReport.not_inside_place j)
    · rfl
  leaves {e w v} path inside step outside _ := by
    have within := proceeds_within patched rehearsed path inside
    have size := patched.size
    rcases rehearsed.leads_within within step with next | behind |
      ⟨front, op, back, whole, target, here, past⟩
    · have here := next.inside
      rw [← size] at here
      exact absurd here outside
    · exact .inl (by rw [behind, size])
    · obtain ⟨mode, rfl, rfl⟩ := Template.tested_skips (tested.symm.trans whole) target
      have code := patched.hosted.code_at whole (x := 0) Nat.one_pos
      rw [Nat.add_zero, ← here] at code
      refine .inr ⟨mode, past, name .skip, code, ?_⟩
      rw [past]
      refine patched.hosted.skip (List.mem_filterMap.mpr ⟨.branchTrue .skip, ?_, rfl⟩)
      simp [whole]

end Point

theorem Point.Spliced.transparent {s t : Stream} {d : PointDraft} {p : Point} {site : Point.Site}
    {skip : Nat} {r : SpliceReport} {name : Symbol → Label} (ok : s.WellFormed)
    (kept : t.WellFormed) (spliced : p.Spliced s site r t name) (default : d.template = none)
    (built : d.build = .ok p) (found : p.site s = .ok site)
    (onSkip : s.index? site.skipAt = some skip) : p.Transparent r skip s.toBody t.toBody := by
  have patched := spliced.patched ok kept onSkip
  obtain ⟨trial, trialName, rehearsed⟩ := PointDraft.rehearsed built found patched
  have tested : p.template = .tested p.mode p.captures.length := by
    obtain ⟨-, -, rfl⟩ := d.build_ok built
    exact d.default_template default
  exact patched.transparent rehearsed tested rfl spliced.code

/-- A splice of a default template into any body is transparent: it goes in front of the instruction
that the method goes on with, keeps all instructions at their places, and while the test of the
active object fails the patched body makes the steps of the body before and no others. -/
theorem default_splice_transparent {b : Body} {s t : Stream} {d : PointDraft} {p : Point}
    {r : SpliceReport} (loaded : Stream.ofBody b = .ok s) (default : d.template = none)
    (built : d.build = .ok p) (applied : p.apply s = (.ok r, t)) :
    ∃ site skip, p.site s = .ok site ∧ s.index? site.resumeAt = some r.index ∧
      s.index? site.skipAt = some skip ∧
      (∀ q i, s.index? q = some i → t.index? q = some (r.place i)) ∧
      p.Transparent r skip b t.toBody := by
  have ok := Stream.ofBody_wellFormed loaded
  obtain ⟨site, name, found, spliced, kept⟩ := Point.apply_spliced ok applied
  obtain ⟨skip, onSkip⟩ := spliced.skip_index found
  have transparent := spliced.transparent ok kept default built found onSkip
  rw [Stream.ofBody_toBody loaded] at transparent
  exact ⟨site, skip, found, spliced.index, onSkip, fun q i index => spliced.place ok kept index,
    transparent⟩

/-- A method that returns at once unless its argument holds. -/
def guardedBody : Body :=
  ⟨[.ldarg 0, .brfalse ⟨0⟩, .nop, .ret], .ofList [(⟨0⟩, 3)], false⟩

/-- A point behind the branch of such a method, which may skip to where the branch goes. -/
def guardPoint : PointDraft :=
  .make .consume "guard" ⟨"Capable"⟩ ⟨⟨"branch", [⟨0, .opcode .brfalse⟩]⟩, []⟩

theorem guard_splice_transparent : ∃ s t p r site skip, Stream.ofBody guardedBody = .ok s ∧
    guardPoint.build = .ok p ∧ p.apply s = (.ok r, t) ∧ p.site s = .ok site ∧
    s.index? site.resumeAt = some r.index ∧ s.index? site.skipAt = some skip ∧
    p.Transparent r skip guardedBody t.toBody := by
  obtain ⟨s, loaded⟩ : ∃ s, Stream.ofBody guardedBody = .ok s := ⟨_, rfl⟩
  obtain ⟨p, built⟩ : ∃ p, guardPoint.build = .ok p := ⟨_, rfl⟩
  obtain ⟨r, t, applied⟩ : ∃ r t, p.apply s = (.ok r, t) := by
    cases loaded
    cases built
    exact ⟨_, _, rfl⟩
  obtain ⟨site, skip, found, resume, past, -, transparent⟩ :=
    default_splice_transparent loaded rfl built applied
  exact ⟨s, t, p, r, site, skip, loaded, built, applied, found, resume, past, transparent⟩

end Interpose

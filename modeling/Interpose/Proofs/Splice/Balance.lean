import Interpose.Proofs.Splice.Transparency

/-!
Stack depths across a splice. Where the instructions that a splice goes on with have one depth, the
patched body keeps the discipline that the body before keeps, and every instruction of the body
before has the depth that it had. The single trial run of the template, from an empty stack, is
enough for that.
-/

set_option autoImplicit false
set_option relaxedAutoImplicit false

namespace Interpose

open Relation (ReflTransGen)

namespace Template

variable {loads trialLoads : Loads} {t : Template} {trial : Body} {start e : Nat}

theorem element_unique {front front' back back' : Template} {op op' : TemplateOp} {x x' : Nat}
    (same : front ++ op :: back = front' ++ op' :: back')
    (place : size loads front + x = size loads front' + x') (inside : x < op.size loads)
    (inside' : x' < op'.size loads) : front = front' ∧ x = x' := by
  rcases List.append_eq_append_iff.mp same with ⟨more, rfl, rest⟩ | ⟨more, rfl, rest⟩
  · cases more with
    | nil => exact ⟨by simp, by simpa using place⟩
    | cons first more =>
      obtain ⟨rfl, -⟩ := List.cons.inj rest
      simp only [size_append, size_cons] at place
      omega
  · cases more with
    | nil => exact ⟨by simp, by simpa using place⟩
    | cons first more =>
      obtain ⟨rfl, -⟩ := List.cons.inj rest
      simp only [size_append, size_cons] at place
      omega

theorem Within.depth_unique (disciplined : trial.Disciplined) {i d d' : Nat}
    (first : Within loads trialLoads t trial start e (i, d))
    (second : Within loads trialLoads t trial start e (i, d')) : d = d' := by
  obtain ⟨front, op, back, m, x, whole, inside, same, reached⟩ := first
  obtain ⟨front', op', back', m', x', whole', inside', same', reached'⟩ := second
  obtain ⟨place, depth⟩ := Prod.mk.inj same
  obtain ⟨place', depth'⟩ := Prod.mk.inj same'
  obtain ⟨rfl, rfl⟩ := element_unique (whole.symm.trans whole') (by omega) inside inside'
  rw [depth, depth', disciplined.agree reached reached']

end Template

namespace Point

variable {p : Point} {loads trialLoads : Loads} {skip : Nat} {b after trial : Body}
  {r : SpliceReport} {name trialName : Symbol → Label} {captures : Nat} {maySkip : Bool}

/-- Where control is in the patched body: at an instruction of the body before that control reaches
there with the same depth, or in the splice, with the depth of the place to go on underneath. -/
def Follows (p : Point) (loads trialLoads : Loads) (b trial : Body) (r : SpliceReport) (u : State) :
    Prop :=
  (∃ i d, u = (r.place i, d) ∧ b.Reaches (i, d)) ∨
    ∃ e, b.Reaches (r.index, e) ∧ p.template.Within loads trialLoads trial r.index e u

section Follows

variable (patched : p.Patched loads skip b after r name)
  (rehearsed : p.template.Rehearsed captures maySkip loads trialLoads after trial r.index
    (r.place skip) name trialName)
include patched rehearsed

theorem Patched.follows_arrival {j e : Nat} (reached : b.Reaches (j, e)) {u : State}
    (arrives : Arrives r j e u) : p.Follows loads trialLoads b trial r u := by
  rcases arrives with rfl | ⟨rfl, rfl⟩
  · exact .inl ⟨j, e, rfl, reached⟩
  · rcases rehearsed.settle (rehearsed.enters e) with within | behind
    · exact .inr ⟨e, reached, within⟩
    · exact .inl ⟨r.index, e, by rw [behind, SpliceReport.place_at, patched.size], reached⟩

/-- Control follows the body before, if the skip target has the depth of the place to go on. -/
theorem Patched.follows (level : p.template.usesSkip = true →
      ∀ e, b.Reaches (r.index, e) → b.Reaches (skip, e)) {u : State} (reached : after.Reaches u) :
    p.Follows loads trialLoads b trial r u := by
  induction reached with
  | entry nonempty =>
    have start : b.Reaches (0, 0) := .entry (Nat.lt_of_le_of_lt (Nat.zero_le _) patched.inside)
    refine patched.follows_arrival rehearsed start ?_
    by_cases first : r.index = 0
    · exact .inr ⟨first.symm, by rw [first]⟩
    · exact .inl (by rw [SpliceReport.place, if_pos (Nat.pos_of_ne_zero first)])
  | step _ leads ih =>
    rcases ih with ⟨i, d, rfl, reached⟩ | ⟨e, reached, within⟩
    · obtain ⟨j, e, before, arrives⟩ := patched.leads_from leads
      exact patched.follows_arrival rehearsed (reached.step before) arrives
    · rcases rehearsed.leads_within within leads with next | behind |
        ⟨front, op, back, whole, target, -, past⟩
      · exact .inr ⟨e, reached, next⟩
      · exact .inl ⟨r.index, e, by rw [behind, SpliceReport.place_at, patched.size], reached⟩
      · have uses : p.template.usesSkip = true := by
          refine List.contains_iff_mem.mpr (List.mem_filterMap.mpr ⟨op, ?_, target⟩)
          simp [whole]
        exact .inl ⟨skip, e, past, level uses e reached⟩

omit rehearsed in
theorem Patched.not_within {i d e : Nat} :
    ¬p.template.Within loads trialLoads trial r.index e (r.place i, d) := by
  intro within
  have inside := within.inside
  rw [← patched.size] at inside
  exact SpliceReport.not_inside_place i inside

theorem Patched.disciplined (level : p.template.usesSkip = true →
      ∀ e, b.Reaches (r.index, e) → b.Reaches (skip, e))
    (stays : ∀ insn, .emit insn ∈ p.template → insn.opcode ≠ .ret)
    (before : b.Disciplined) : after.Disciplined where
  runs {u} reached := by
    rcases patched.follows rehearsed level reached with ⟨i, d, rfl, origin⟩ | ⟨e, -, within⟩
    · have code := List.getElem?_eq_getElem origin.lt
      have there := (patched.kept i).trans code
      exact (Body.canRun_iff there).mpr
        ((patched.canRun_iff code).mpr (before.canRun origin code))
    · obtain ⟨insn, code, can⟩ := rehearsed.runs_within stays within
      exact (Body.canRun_iff code).mpr can
  agree {x d d'} first second := by
    rcases patched.follows rehearsed level first with ⟨i, m, at_, origin⟩ | ⟨e, origin, within⟩
    · rcases patched.follows rehearsed level second with ⟨j, n, at_', origin'⟩ | ⟨e, -, within⟩
      · obtain ⟨here, rfl⟩ := Prod.mk.inj at_
        obtain ⟨there, rfl⟩ := Prod.mk.inj at_'
        obtain rfl := SpliceReport.place_inj (here.symm.trans there)
        exact before.agree origin origin'
      · obtain ⟨rfl, rfl⟩ := Prod.mk.inj at_
        exact absurd within patched.not_within
    · rcases patched.follows rehearsed level second with ⟨j, n, at_, -⟩ | ⟨e', origin', within'⟩
      · obtain ⟨rfl, rfl⟩ := Prod.mk.inj at_
        exact absurd within patched.not_within
      · obtain rfl := before.agree origin origin'
        exact within.depth_unique rehearsed.disciplined within'

theorem Patched.reaches_place (level : p.template.usesSkip = true →
      ∀ e, b.Reaches (r.index, e) → b.Reaches (skip, e)) {i d : Nat}
    (reached : after.Reaches (r.place i, d)) : b.Reaches (i, d) := by
  rcases patched.follows rehearsed level reached with ⟨j, m, at_, origin⟩ | ⟨e, -, within⟩
  · obtain ⟨here, rfl⟩ := Prod.mk.inj at_
    exact SpliceReport.place_inj here ▸ origin
  · exact absurd within patched.not_within

end Follows

theorem Transparent.reaches (transparent : p.Transparent r skip b after)
    (nonempty : 0 < after.code.length) {s : State} (reached : b.Reaches s) :
    after.Reaches (r.place s.1, s.2) := by
  have along : ∀ {u v : State}, after.Reaches u → ReflTransGen (p.Declines r after) u v →
      after.Reaches v := by
    intro u v start path
    induction path with
    | refl => exact start
    | tail _ step ih => exact ih.step step.2.1
  induction reached with
  | entry some =>
    exact along (.entry nonempty) (transparent.entry (List.length_pos_iff.mp some)).1
  | @step s t _ leads ih =>
    obtain ⟨u, step, path⟩ := transparent.forth (i := s.1) (d := s.2) (j := t.1) (e := t.2) leads
    exact along (ih.step step) path

end Point

/-- A built point whose template does not return can be spliced into every body that keeps the stack
discipline, provided that its template does not skip or the skip target has the depth of the place to
go on. The patched body keeps the discipline; every instruction that control still reaches has its
depth, and none is reached that was not; with a default template no depth changes at all. -/
theorem splice_keeps_depths {b : Body} {depths : List (Option Nat)} {s t : Stream} {d : PointDraft}
    {p : Point} {r : SpliceReport} {site : Point.Site} {resume skip : Nat}
    (explored : b.stackDepths = .ok depths) (built : d.build = .ok p)
    (stays : ∀ insn, .emit insn ∈ p.template → insn.opcode ≠ .ret)
    (loaded : Stream.ofBody b = .ok s) (applied : p.apply s = (.ok r, t))
    (found : p.site s = .ok site) (onResume : s.index? site.resumeAt = some resume)
    (onSkip : s.index? site.skipAt = some skip)
    (level : p.template.usesSkip = false ∨ depths[resume]? = depths[skip]?) :
    ∃ patched, t.toBody.stackDepths = .ok patched ∧
      (∀ i e, patched[r.place i]? = some (some e) → depths[i]? = some (some e)) ∧
      (d.template = none → ∀ i, patched[r.place i]? = depths[i]?) := by
  obtain ⟨before, length, reached⟩ := Body.stackDepths_iff.mp explored
  have ok := Stream.ofBody_wellFormed loaded
  obtain ⟨site', name, found', spliced, kept⟩ := Point.apply_spliced ok applied
  obtain rfl : site = site' := Except.ok.inj (found.symm.trans found')
  obtain rfl : resume = r.index := Option.some.inj (onResume.symm.trans spliced.index)
  have patched := spliced.patched ok kept onSkip
  rw [Stream.ofBody_toBody loaded] at patched
  obtain ⟨trial, trialName, rehearsed⟩ := PointDraft.rehearsed built found patched
  have level : p.template.usesSkip = true →
      ∀ e, b.Reaches (r.index, e) → b.Reaches (skip, e) := by
    intro uses e here
    have same := level.resolve_left (by simp [uses])
    rw [← reached, ← same, reached]
    exact here
  obtain ⟨after, done⟩ := (patched.disciplined rehearsed level stays before).stackDepths
  obtain ⟨-, size, reaches⟩ := Body.stackDepths_iff.mp done
  have back : ∀ i e, after[r.place i]? = some (some e) → depths[i]? = some (some e) :=
    fun i e here => (reached i e).mpr
      (patched.reaches_place rehearsed level ((reaches _ e).mp here))
  refine ⟨after, done, back, fun default i => ?_⟩
  have transparent := spliced.transparent ok kept default built found onSkip
  rw [Stream.ofBody_toBody loaded] at transparent
  have inside := patched.inside
  have place := SpliceReport.place_lt_iff inside (i := i)
  rw [← patched.length, ← size, ← length] at place
  by_cases bound : i < depths.length
  · have entries : ∀ e, after[r.place i]? = some (some e) ↔ depths[i]? = some (some e) := by
      refine fun e => ⟨back i e, fun here => (reaches _ e).mpr ?_⟩
      have nonempty : 0 < t.toBody.code.length := by
        rw [patched.length]
        omega
      exact transparent.reaches nonempty ((reached i e).mp here)
    simp only [List.getElem?_eq_getElem bound, List.getElem?_eq_getElem (place.mpr bound),
      Option.some.injEq] at entries ⊢
    exact Option.ext entries
  · rw [List.getElem?_eq_none (Nat.le_of_not_lt bound),
      List.getElem?_eq_none (Nat.le_of_not_lt fun here => bound (place.mp here))]

theorem guard_splice_keeps_depths : ∃ s t p r patched, Stream.ofBody guardedBody = .ok s ∧
    guardPoint.build = .ok p ∧ p.apply s = (.ok r, t) ∧ t.toBody.stackDepths = .ok patched ∧
    ∀ i, patched[r.place i]? = [some 0, some 1, some 0, some 0][i]? := by
  obtain ⟨s, loaded⟩ : ∃ s, Stream.ofBody guardedBody = .ok s := ⟨_, rfl⟩
  obtain ⟨p, built⟩ : ∃ p, guardPoint.build = .ok p := ⟨_, rfl⟩
  obtain ⟨r, t, site, resume, skip, applied, found, onResume, onSkip, level⟩ :
      ∃ r t site resume skip, p.apply s = (.ok r, t) ∧ p.site s = .ok site ∧
        s.index? site.resumeAt = some resume ∧ s.index? site.skipAt = some skip ∧
        [some 0, some 1, some 0, some 0][resume]? = [some 0, some 1, some 0, some 0][skip]? := by
    cases loaded
    cases built
    exact ⟨_, _, _, _, _, rfl, rfl, rfl, rfl, rfl⟩
  have stays : ∀ insn, .emit insn ∈ p.template → insn.opcode ≠ .ret := by
    cases built
    intro insn member
    change .emit insn ∈ Template.consume at member
    simp [Template.consume] at member
  obtain ⟨patched, done, -, same⟩ := splice_keeps_depths (b := guardedBody) rfl built stays loaded
    applied found onResume onSkip (.inr level)
  exact ⟨s, t, p, r, patched, loaded, built, applied, done, same rfl⟩

end Interpose

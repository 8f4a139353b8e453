import Interpose.Proofs.Splice.LevelSite
import Interpose.Proofs.Splice.Transparency

/-!
Splicing does not depend on the names of labels. In streams that are alike a point fails for the same
kind of reason, or it does the same and leaves streams that are alike again. Whether these are the
same for an observer is a matter of constants that differ from themselves, not of labels.
-/

set_option autoImplicit false
set_option relaxedAutoImplicit false

namespace Interpose

namespace Template

variable {t : Template} {loads : Loads} {v w : Body} {start skip : Nat}
  {name other : Symbol → Label}

theorem Hosted.alike_at (one : t.Hosted loads v start skip name)
    (two : t.Hosted loads w start skip other)
    (marked : ∀ mark, .named mark ∈ t.targets → ∃ x < t.size loads, t.MarksAt loads mark x)
    (plain : ∀ l, ¬t.Foreign loads l) {n : Nat} (inside : n < t.size loads) {x y : Instruction}
    (left : v.code[start + n]? = some x) (right : w.code[start + n]? = some y) :
    x.unnamed = y.unnamed ∧ x.branchTargets.map v.target? = y.branchTargets.map w.target? := by
  rw [one.code n inside] at left
  rw [two.code n inside] at right
  rcases code_cases left with ⟨symbol, target, opcode, code⟩ | ⟨same, foreign⟩
  · obtain rfl := Option.some.inj ((code name).symm.trans left)
    obtain rfl := Option.some.inj ((code other).symm.trans right)
    obtain ⟨j, k, onV, onW, meet⟩ := one.targets two marked target
    obtain rfl : j = k := by
      rcases meet with same | ⟨-, rfl, rfl⟩
      · exact same
      · rfl
    refine ⟨rfl, ?_⟩
    unfold Instruction.branchTargets
    split
    · simp only [Operand.mentioned, List.map_cons, List.map_nil, onV, onW]
    · rfl
  · obtain rfl := Option.some.inj ((same other).symm.trans right)
    have none : x.branchTargets = [] := List.eq_nil_iff_forall_not_mem.mpr fun l target =>
      plain l (foreign l (Stream.branch_mentions target))
    exact ⟨rfl, by rw [none]; rfl⟩

end Template

namespace Point

variable {p : Point} {s t u v : Stream} {a b : Site} {r o : SpliceReport}
  {name other : Symbol → Label} {maySkip : Bool}

/-! ### The code of a template -/

theorem not_foreign (only : s.toBody.BranchLabels)
    (sound : p.template.Sound p.captures.length maySkip) (finds : p.site s = .ok a) (l : Label) :
    ¬p.template.Foreign (p.loads a) l := by
  intro foreign
  obtain ⟨insn, member, still, mentioned⟩ := foreign_mentioned sound finds foreign
  rw [only insn member still] at mentioned
  cases mentioned

theorem Spliced.mem_code (spliced : p.Spliced s a r u name) {insn : Instruction} :
    insn ∈ u.code ↔ insn ∈ s.code ∨ insn ∈ p.template.code (p.loads a) name := by
  obtain ⟨before, onward, whole, -, cells⟩ := spliced.cells
  simp only [Stream.code, whole, cells, List.map_append, List.mem_append, Stream.code_numbered]
  tauto

theorem Spliced.branchLabels (only : s.toBody.BranchLabels)
    (sound : p.template.Sound p.captures.length maySkip) (finds : p.site s = .ok a)
    (spliced : p.Spliced s a r u name) : u.toBody.BranchLabels := by
  intro insn member still
  rcases spliced.mem_code.mp member with old | new
  · exact only insn old still
  · obtain ⟨op, inside, here⟩ := List.mem_flatMap.mp new
    rcases code_origin finds here with rfl | ⟨known, -⟩ | ⟨-, branches, -⟩
    · exact sound.plain insn inside
    · exact only insn known still
    · rw [← branches, Instruction.branchTargets, if_neg (by simp [still])]

theorem Patched.targets {b after : Body} {loads : Loads} {skip : Nat}
    (patched : p.Patched loads skip b after r name) {x : Instruction} (member : x ∈ b.code) :
    x.branchTargets.map after.target? =
      (x.branchTargets.map b.target?).map (Option.map (p.arrival r)) := by
  rw [List.map_map]
  refine List.map_congr_left fun l target => ?_
  obtain ⟨k, found⟩ := patched.closed x member l target
  simp [found, patched.moved l k found]

theorem Patched.alike {b c after later : Body} {loads : Loads} {skip : Nat}
    (one : p.Patched loads skip b after r name) (two : p.Patched loads skip c later r other)
    (marked : ∀ mark, .named mark ∈ p.template.targets →
      ∃ x < p.template.size loads, p.template.MarksAt loads mark x)
    (plain : ∀ l, ¬p.template.Foreign loads l) (alike : b.Alike c) : after.Alike later := by
  have length : after.code.length = later.code.length := by
    rw [one.length, two.length, alike.length]
  -- an instruction is one of the template, or one from before at its place
  have each : ∀ {i : Nat} {x y : Instruction}, after.code[i]? = some x → later.code[i]? = some y →
      x.unnamed = y.unnamed ∧
        x.branchTargets.map after.target? = y.branchTargets.map later.target? := by
    intro i x y left right
    by_cases inside : r.Inside i
    · obtain ⟨n, rfl⟩ := Nat.exists_eq_add_of_le inside.1
      have within : n < p.template.size loads :=
        one.size ▸ Nat.lt_of_add_lt_add_left inside.2
      exact one.hosted.alike_at two.hosted marked plain within left right
    · obtain ⟨j, rfl⟩ := SpliceReport.exists_place inside
      rw [one.kept] at left
      rw [two.kept] at right
      refine ⟨alike.insn left right, ?_⟩
      rw [one.targets (List.mem_of_getElem? left), two.targets (List.mem_of_getElem? right),
        alike.targets left right]
  exact ⟨length, fun left right => (each left right).1, fun left right => (each left right).2⟩

/-! ### Streams with the same splice -/

theorem site_holds (sound : p.template.Sound p.captures.length maySkip) (finds : p.site s = .ok a)
    (resume : a.resumeAt ∈ s.positions) (skip : a.skipAt ∈ s.positions) {symbol : Symbol}
    {binding : Binding}
    (stands : p.template.Stands (p.loads a) a.resumeAt a.skipAt symbol binding) :
    s.Holds (p.template.size (p.loads a)) binding := by
  cases stands with
  | resume => exact resume
  | skip => exact skip
  | named marks => exact sound.mark_lt (site_simple finds) marks

theorem lowered_admitted (only : s.toBody.BranchLabels)
    (sound : p.template.Sound p.captures.length maySkip)
    (free : s.Free p.template.symbols.dedup.length) (finds : p.site s = .ok a)
    (resume : a.resumeAt ∈ s.positions) (skip : a.skipAt ∈ s.positions) :
    (p.template.lower (p.loads a) s a.resumeAt a.skipAt).2.Admits
      (p.template.lower (p.loads a) s a.resumeAt a.skipAt).1 := by
  obtain ⟨name, lowered⟩ := Template.lower_lowered (p.loads a) s a.resumeAt a.skipAt p.template
  generalize p.template.lower (p.loads a) s a.resumeAt a.skipAt = result at lowered ⊢
  obtain ⟨block, defined⟩ := result
  obtain ⟨n, rfl⟩ : ∃ n, defined = { s with nextLabel := n } := ⟨_, lowered.stream⟩
  exact lowered.admits sound free (fun _ _ _ stands => site_holds sound finds resume skip stands)
    fun l foreign => absurd foreign (not_foreign only sound finds l)

theorem applies (ok : s.WellFormed) (only : s.toBody.BranchLabels)
    (sound : p.template.Sound p.captures.length maySkip)
    (free : s.Free p.template.symbols.dedup.length) (finds : p.site s = .ok a)
    (resume : a.resumeAt ∈ s.positions) (skip : a.skipAt ∈ s.positions) :
    ∃ r u, p.apply s = (.ok r, u) :=
  apply_ok ok finds resume (lowered_admitted only sound free finds resume skip)

theorem LevelSite.loads (level : LevelSite s t a b) : p.loads a = p.loads b := by
  simp only [Point.loads, level.captures]

theorem Spliced.reports (level : LevelSite s t a b) (one : p.Spliced s a r u name)
    (two : p.Spliced t b o v other) : r = o := by
  obtain ⟨i, left, right⟩ := level.resume
  have names := one.point.trans two.point.symm
  have patterns := one.pattern.trans (level.anchor.pattern.trans two.pattern.symm)
  have alternatives := one.alternative.trans (level.anchor.alternative.trans two.alternative.symm)
  have onS := Option.some.inj (left.symm.trans one.index)
  have onT := Option.some.inj (right.symm.trans two.index)
  have sizes := one.inserted.trans (level.loads ▸ two.inserted.symm)
  cases r
  cases o
  simp_all

end Point

end Interpose

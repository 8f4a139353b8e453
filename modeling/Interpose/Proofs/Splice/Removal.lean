import Interpose.Proofs.Splice.Renaming

/-!
Cutting a splice out again. A splice in front of its anchor takes the labels there, and a removal
hands the labels of what it removes to the instruction behind, which is the anchor again. So removing
the inserted span undoes the splice; only the splice's own labels stay behind, bound but not used.
-/

set_option autoImplicit false
set_option relaxedAutoImplicit false

namespace Interpose

namespace Stream

variable {s t : Stream}

theorem listing_congr (cells : t.cells = s.cells)
    (labels : ∀ insn ∈ s.code, ∀ l ∈ insn.operand.mentioned,
      t.labels.find? l = s.labels.find? l) : t.listing = s.listing := by
  have code : t.code = s.code := by rw [Stream.code, cells, Stream.code]
  have index : t.index? = s.index? := by
    funext q
    rw [Stream.index?, cells, Stream.index?]
  simp only [listing, Body.resolved, toBody, code]
  refine List.map_congr_left fun insn member => Instruction.map_eq_of_unnamed rfl ?_
  refine List.map_congr_left fun l mentions => ?_
  simp only [Body.resolve?, LabelTable.find?_filterMap, labels insn member l mentions, index]

theorem WellFormed.mentioned_bound (ok : s.WellFormed) (only : s.toBody.BranchLabels)
    {insn : Instruction} (member : insn ∈ s.code) {l : Label}
    (mentions : l ∈ insn.operand.mentioned) : ∃ q, s.labels.find? l = some q :=
  ok.closed member (only.mentioned member ▸ mentions)

end Stream

namespace Point

variable {p : Point} {s t : Stream} {site : Site} {r : SpliceReport} {name : Symbol → Label}

theorem Spliced.inside_iff (ok : s.WellFormed) (spliced : p.Spliced s site r t name) (i : Nat) :
    r.Inside i ↔ ∃ q, t.position? i = some q ∧ q ∉ s.positions := by
  constructor
  · rintro ⟨above, below⟩
    obtain ⟨k, rfl⟩ := Nat.exists_eq_add_of_le above
    refine ⟨_, spliced.position_inserted (Nat.lt_of_add_lt_add_left below), fun old => ?_⟩
    exact absurd (ok.issued old) (Nat.not_lt.mpr (Nat.le_add_right _ _))
  · rintro ⟨q, here, new⟩
    by_contra outside
    obtain ⟨j, rfl⟩ := SpliceReport.exists_place outside
    obtain ⟨before, onward, whole, front, cells⟩ := spliced.cells
    rw [Stream.position?, cells,
      SpliceReport.get_place front (by simp [spliced.inserted]), ← whole] at here
    obtain ⟨c, cell, rfl⟩ := Option.map_eq_some_iff.mp here
    exact new (List.mem_map_of_mem (List.mem_of_getElem? cell))

theorem Spliced.removed (kept : t.WellFormed) (spliced : p.Spliced s site r t name) :
    ∃ u, t.remove ⟨⟨s.nextSerial⟩, ⟨s.nextSerial + r.inserted - 1⟩⟩ =
        (.ok (p.template.code (p.loads site) name), u) ∧
      u.cells = s.cells ∧ u.returns = s.returns ∧
      ∀ l, u.labels.find? l = (t.labels.find? l).map fun q =>
        if s.nextSerial ≤ q.serial ∧ q.serial < s.nextSerial + r.inserted then site.resumeAt
        else q := by
  obtain ⟨before, onward, whole, front, cells⟩ := spliced.cells
  have size : (p.template.code (p.loads site) name).length = r.inserted := by
    rw [Template.code_length, spliced.inserted]
  have cut := cut_inserted kept.distinct cells
    (List.length_pos_iff.mp (size ▸ spliced.nonempty))
  -- what follows the splice is the instruction that the method goes on with
  obtain ⟨⟨front', onward'⟩, split, long⟩ := Option.map_eq_some_iff.mp spliced.index
  obtain ⟨c, rest, rfl, here, again⟩ := Stream.split_cell split
  obtain ⟨rfl, rfl⟩ := List.append_inj (whole.symm.trans again) (front.trans long.symm)
  rw [size] at cut
  have inside : ∀ q : Position, q ∈ (Stream.numbered s.nextSerial
      (p.template.code (p.loads site) name)).map (·.pos) ↔
        s.nextSerial ≤ q.serial ∧ q.serial < s.nextSerial + r.inserted := by
    intro q
    rw [Stream.mem_numbered, size]
  rcases Stream.remove_cases t ⟨⟨s.nextSerial⟩, ⟨s.nextSerial + r.inserted - 1⟩⟩ with
    ⟨e, refused⟩ | ⟨_, _, _, labels, same, removed, moved⟩
  · simp [Stream.remove, cut] at refused
  · obtain ⟨rfl, rfl, rfl⟩ : before = _ ∧ _ = _ ∧ c :: rest = _ := by
      simpa using cut.symm.trans same
    rcases moved with ⟨nothing, -⟩ | ⟨_, _, behind, rfl⟩
    · cases nothing
    · obtain ⟨rfl, rfl⟩ := List.cons.inj behind
      rw [Stream.code_numbered] at removed
      refine ⟨_, removed, again.symm, spliced.returns, fun l => ?_⟩
      simp only [LabelTable.find?_filterMap, inside, here]
      cases t.labels.find? l <;> rfl

/-- A splice can be cut out again. The instructions from the index of the report on, as many as it
tells, are those whose positions are new. Removing them gives back the code of the template, and
leaves the instructions from before at their positions, the listing from before, and every label that
stood somewhere before where it stood, also if the splice in front of its anchor took it. -/
theorem remove_inserted_restores (reached : s.Reachable) (only : s.toBody.BranchLabels)
    (applied : p.apply s = (.ok r, t)) :
    (∀ i, (r.index ≤ i ∧ i < r.index + r.inserted) ↔
      ∃ q, t.position? i = some q ∧ q ∉ s.positions) ∧
    ∃ site name first last u, p.site s = .ok site ∧
      t.position? r.index = some first ∧
      t.position? (r.index + r.inserted - 1) = some last ∧
      t.remove ⟨first, last⟩ = (.ok (p.template.code (p.loads site) name), u) ∧
      u.cells = s.cells ∧ u.returns = s.returns ∧ u.listing = s.listing ∧
      ∀ l q, s.labels.find? l = some q → u.labels.find? l = some q := by
  have ok := reached.wellFormed
  obtain ⟨site, name, found, spliced, kept⟩ := apply_spliced ok applied
  have nonempty := spliced.nonempty
  obtain ⟨u, removed, cells, returns, labels⟩ := spliced.removed kept
  have back : ∀ l q, s.labels.find? l = some q → u.labels.find? l = some q := by
    intro l q bound
    have old := ok.issued (ok.live bound)
    rw [labels, spliced.moved l q bound, Option.map_some]
    split
    · next both => simp [both.2, nonempty]
    · rw [if_neg fun new => absurd old (Nat.not_lt.mpr new.1)]
  refine ⟨spliced.inside_iff ok, site, name, _, _, u, found, spliced.position_inserted nonempty, ?_,
    removed, cells, returns, ?_, back⟩
  · have last := spliced.position_inserted (Nat.sub_lt nonempty Nat.one_pos)
    rwa [← Nat.add_sub_assoc nonempty, ← Nat.add_sub_assoc nonempty] at last
  · refine Stream.listing_congr cells fun insn member l mentions => ?_
    obtain ⟨q, bound⟩ := ok.mentioned_bound only member mentions
    rw [bound, back l q bound]

end Point

/-- A splice in front of the return takes the target of the branch, which goes back to the return when
the splice is cut out. -/
theorem exit_splice_removed : ∃ s p r t first last code u, Stream.ofBody guardedBody = .ok s ∧
    exitPoint.build = .ok p ∧ p.apply s = (.ok r, t) ∧
    t.position? r.index = some first ∧ t.position? (r.index + r.inserted - 1) = some last ∧
    t.labels.find? ⟨0⟩ = some first ∧ t.remove ⟨first, last⟩ = (.ok code, u) ∧
    u.cells = s.cells ∧ u.listing = s.listing ∧
    s.labels.find? ⟨0⟩ = s.position? 3 ∧ u.labels.find? ⟨0⟩ = s.position? 3 := by
  obtain ⟨s, loaded⟩ : ∃ s, Stream.ofBody guardedBody = .ok s := ⟨_, rfl⟩
  obtain ⟨p, built⟩ : ∃ p, exitPoint.build = .ok p := ⟨_, rfl⟩
  obtain ⟨r, t, applied, led⟩ : ∃ r t, p.apply s = (.ok r, t) ∧
      t.labels.find? ⟨0⟩ = t.position? r.index := by
    cases loaded
    cases built
    exact ⟨_, _, rfl, rfl⟩
  have only : s.toBody.BranchLabels := by
    rw [Stream.ofBody_toBody loaded]
    decide
  have target : s.labels.find? ⟨0⟩ = s.position? 3 ∧ s.labels.find? ⟨0⟩ = some ⟨3⟩ := by
    cases loaded
    exact ⟨rfl, rfl⟩
  obtain ⟨-, site, name, first, last, u, -, starts, stops, removed, cells, -, listing, back⟩ :=
    Point.remove_inserted_restores (.loaded loaded) only applied
  exact ⟨s, p, r, t, first, last, _, u, loaded, built, applied, starts, stops, led.trans starts,
    removed, cells, listing, target.1, (back _ _ target.2).trans (target.2.symm.trans target.1)⟩

end Interpose

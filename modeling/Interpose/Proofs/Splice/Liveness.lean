import Interpose.Proofs.Splice.Refusal

/-!
Splices that control comes to. In front of an anchor that runs, a splice runs first: whatever comes to
the anchor, falling or branching, comes to the splice. Behind an anchor it is a matter of the last
instruction of the anchor alone. If that goes on with the next one, the splice runs; if not, nothing
comes to the splice, since no label is led through it.
-/

set_option autoImplicit false
set_option relaxedAutoImplicit false

namespace Interpose

namespace Point

variable {p : Point} {s t : Stream} {site : Site} {r : SpliceReport} {name : Symbol → Label}

section Patched

variable {loads : Loads} {skip : Nat} {b after : Body}
  (patched : p.Patched loads skip b after r name)
include patched

/-- Until control comes to the splice, it comes to what it came to before. In front of its anchor the
splice cannot be passed by. -/
theorem Patched.enters_or_reaches {u : State} (reached : b.Reaches u) :
    (∃ e, after.Reaches (r.index, e)) ∨
      after.Reaches (r.place u.1, u.2) ∧ (p.placement = .before → u.1 ≠ r.index) := by
  induction reached with
  | entry =>
    have entry : after.Reaches (0, 0) := .entry (by rw [patched.length]; omega)
    by_cases first : r.index = 0
    · exact .inl ⟨0, first ▸ entry⟩
    · refine .inr ⟨?_, fun _ => Ne.symm first⟩
      rwa [SpliceReport.place, if_pos (Nat.pos_of_ne_zero first)]
  | @step u v _ leads ih =>
    rcases ih with entered | ⟨here, -⟩
    · exact .inl entered
    · obtain ⟨i, d⟩ := u
      obtain ⟨j, e⟩ := v
      obtain ⟨k, lands, way⟩ := patched.lands leads
      have there : after.Reaches (k, e) := .step here lands
      by_cases start : k = r.index
      · exact .inl ⟨e, start ▸ there⟩
      · -- elsewhere control lands at the place of the instruction
        have apart : ¬(p.placement = .before ∧ j = r.index) ∧ k = r.place j := by
          rcases way with ⟨rfl, rfl⟩ | rfl
          · have next : i + 1 ≠ r.index := fun same => start (SpliceReport.place_before same)
            exact ⟨fun both => next both.2, (SpliceReport.place_succ next).symm⟩
          · by_cases led : p.placement = .before ∧ j = r.index
            · exact absurd (if_pos led) start
            · exact ⟨led, if_neg led⟩
        exact .inr ⟨apart.2 ▸ there, fun before same => apart.1 ⟨before, same⟩⟩

theorem Patched.entered_before (placed : p.placement = .before) {d : Nat}
    (reached : b.Reaches (r.index, d)) : ∃ e, after.Reaches (r.index, e) :=
  (patched.enters_or_reaches reached).resolve_right fun past => past.2 placed rfl

theorem Patched.entered_after (disciplined : b.Disciplined) {k d : Nat} {insn : Instruction}
    (next : k + 1 = r.index) (code : b.code[k]? = some insn)
    (falls : insn.opcode.fallsThrough = true) (reached : b.Reaches (k, d)) :
    ∃ e, after.Reaches (r.index, e) := by
  rcases patched.enters_or_reaches reached with entered | ⟨there, -⟩
  · exact entered
  · have can := (Body.canRun_iff code).mp (disciplined.runs reached)
    exact ⟨_, .step there (Body.leads_iff.mpr ⟨insn, (patched.kept k).trans code,
      (patched.canRun_iff code).mpr can,
      .inl ⟨falls, (SpliceReport.place_before next).symm, rfl⟩⟩)⟩

theorem Patched.never_enters (placed : p.placement = .after) {k : Nat} (behind : r.index = k + 1)
    {insn : Instruction} (last : b.code[k]? = some insn) (ends : insn.opcode.fallsThrough = false)
    {u : State} (reached : after.Reaches u) : ¬r.Inside u.1 := by
  induction reached with
  | entry =>
    rintro ⟨above, -⟩
    omega
  | @step u v _ leads ih =>
    obtain ⟨i, same⟩ := SpliceReport.exists_place ih
    obtain ⟨x, d⟩ := u
    obtain ⟨y, e⟩ := v
    obtain rfl : x = r.place i := same
    obtain ⟨other, code, -, way⟩ := Body.leads_iff.mp leads
    have here : b.code[i]? = some other := (patched.kept i).symm.trans code
    rcases way with ⟨falls, rfl, -⟩ | ⟨l, target, found, -⟩
    · have next : i + 1 ≠ r.index := by
        intro same
        obtain rfl : i = k := Nat.succ.inj (same.trans behind)
        obtain rfl := Option.some.inj (here.symm.trans last)
        rw [ends] at falls
        cases falls
      exact SpliceReport.place_succ next ▸ SpliceReport.not_inside_place (i + 1)
    · obtain ⟨j, before⟩ := patched.closed other (List.mem_of_getElem? here) l target
      obtain rfl := Option.some.inj (found.symm.trans (patched.moved l j before))
      rw [arrival, if_neg (by simp [placed])]
      exact SpliceReport.not_inside_place j

end Patched

theorem Spliced.beside_anchor (ok : s.WellFormed) (finds : p.site s = .ok site)
    (spliced : p.Spliced s site r t name) {i j : Nat}
    (first : s.index? site.anchor.span.first = some i)
    (last : s.index? site.anchor.span.last = some j) :
    (p.placement = .before → r.index = i) ∧ (p.placement = .after → r.index = j + 1) := by
  obtain ⟨-, continues, -⟩ := site_iff.mp finds
  have index := spliced.index
  constructor
  · intro placed
    have same : site.anchor.span.first = site.resumeAt := by
      simpa [Point.resumeAt, placed] using continues
    exact Option.some.inj ((same ▸ index).symm.trans first)
  · intro placed
    cases next : s.next? site.anchor.span.last with
    | none => simp [Point.resumeAt, placed, next] at continues
    | some q =>
      obtain rfl : q = site.resumeAt := by simpa [Point.resumeAt, placed, next] using continues
      obtain ⟨k, there, behind⟩ := (Stream.next_iff ok.distinct).mp next
      obtain rfl := Option.some.inj (there.symm.trans last)
      exact Option.some.inj (index.symm.trans behind)

/-- A splice runs in a method in which its anchor runs, unless it is behind an anchor whose last
instruction does not go on with the next one. -/
theorem splice_reached_iff {b : Body} {depths patched : List (Option Nat)}
    {anchor : Stream.Anchor} (explored : b.stackDepths = .ok depths)
    (loaded : Stream.ofBody b = .ok s) (located : p.locate s = .ok anchor)
    (runs : ∀ q, s.Within anchor.span q → ∃ i e, s.index? q = some i ∧ depths[i]? = some (some e))
    (applied : p.apply s = (.ok r, t)) (verified : t.toBody.stackDepths = .ok patched) :
    (∃ e, patched[r.index]? = some (some e)) ↔
      p.placement = .before ∨
        ∃ insn, s.insn? anchor.span.last = some insn ∧ insn.opcode.fallsThrough = true := by
  have ok := Stream.ofBody_wellFormed loaded
  obtain rfl := Stream.ofBody_toBody loaded
  obtain ⟨disciplined, -, reaches⟩ := Body.stackDepths_iff.mp explored
  obtain ⟨-, -, after⟩ := Body.stackDepths_iff.mp verified
  obtain ⟨site, name, finds, spliced, kept⟩ := apply_spliced ok applied
  obtain rfl : anchor = site.anchor := Except.ok.inj (located.symm.trans (site_iff.mp finds).1)
  obtain ⟨skip, onSkip⟩ := spliced.skip_index finds
  have whole := spliced.patched ok kept onSkip
  obtain ⟨i, j, first, last, le⟩ := locate_ends ok located
  obtain ⟨front, behind⟩ := spliced.beside_anchor ok finds first last
  have reached : ∀ {q k}, s.index? q = some k → i ≤ k → k ≤ j → ∃ e, s.toBody.Reaches (k, e) := by
    intro q k index above below
    obtain ⟨l, e, again, entry⟩ := runs q ⟨i, j, k, (Stream.index_iff ok.distinct).mp first,
      (Stream.index_iff ok.distinct).mp index, (Stream.index_iff ok.distinct).mp last, above, below⟩
    obtain rfl := Option.some.inj (index.symm.trans again)
    exact ⟨e, (reaches _ e).mp entry⟩
  have inside : j < s.code.length := by simpa using Stream.index_lt last
  have final : s.toBody.code[j]? = some s.code[j] := List.getElem?_eq_getElem inside
  have there : s.insn? site.anchor.span.last = some s.code[j] := (Stream.insn_at last).trans final
  simp only [after, there, Option.some.injEq, exists_eq_left']
  cases placed : p.placement with
  | before =>
    obtain ⟨e, here⟩ := reached first (Nat.le_refl _) le
    exact iff_of_true (whole.entered_before placed (front placed ▸ here)) (.inl rfl)
  | after =>
    simp only [reduceCtorEq, false_or]
    by_cases falls : s.code[j].opcode.fallsThrough = true
    · obtain ⟨e, here⟩ := reached last le (Nat.le_refl _)
      exact iff_of_true (whole.entered_after disciplined (behind placed).symm final falls here) falls
    · refine iff_of_false ?_ falls
      rintro ⟨e, entered⟩
      exact whole.never_enters placed (behind placed) final (by simpa using falls) entered
        ⟨Nat.le_refl _, Nat.lt_add_of_pos_right spliced.nonempty⟩

end Point

theorem Stream.span_reached {s : Stream} {depths : List (Option Nat)}
    (length : depths.length = s.cells.length) (all : none ∉ depths) (span : Span) (q : Position)
    (within : s.Within span q) : ∃ i e, s.index? q = some i ∧ depths[i]? = some (some e) := by
  obtain ⟨-, -, n, -, here, -⟩ := within
  obtain ⟨i, index⟩ := index_of_mem (List.mem_of_getElem? here)
  have inside : i < depths.length := length ▸ index_lt index
  have entry := List.getElem?_eq_getElem inside
  cases depth : depths[i] with
  | none => exact absurd (depth ▸ List.getElem_mem _) all
  | some e => exact ⟨i, e, index, depth ▸ entry⟩

theorem guard_splice_reached : ∃ s p r t patched e, Stream.ofBody guardedBody = .ok s ∧
    guardPoint.build = .ok p ∧ p.apply s = (.ok r, t) ∧ t.toBody.stackDepths = .ok patched ∧
    patched[r.index]? = some (some e) := by
  obtain ⟨s, loaded⟩ : ∃ s, Stream.ofBody guardedBody = .ok s := ⟨_, rfl⟩
  obtain ⟨p, built⟩ : ∃ p, guardPoint.build = .ok p := ⟨_, rfl⟩
  obtain ⟨r, t, anchor, patched, insn, applied, located, verified, last, falls⟩ :
      ∃ r t anchor patched insn, p.apply s = (.ok r, t) ∧ p.locate s = .ok anchor ∧
        t.toBody.stackDepths = .ok patched ∧ s.insn? anchor.span.last = some insn ∧
        insn.opcode.fallsThrough = true := by
    cases loaded
    cases built
    exact ⟨_, _, _, _, _, rfl, rfl, rfl, rfl, rfl⟩
  have length : [some 0, some 1, some 0, some 0].length = s.cells.length := by
    cases loaded
    rfl
  obtain ⟨e, reached⟩ := (Point.splice_reached_iff (b := guardedBody) rfl loaded located
    (Stream.span_reached length (by decide) anchor.span) applied verified).mpr (.inr ⟨insn, last, falls⟩)
  exact ⟨s, p, r, t, patched, e, loaded, built, applied, verified, reached⟩

def jumpBody : Body := ⟨[.br ⟨0⟩, .ret], .ofList [(⟨0⟩, 1)], false⟩

def jumpPoint : PointDraft :=
  .make .augment "jump" ⟨"Capable"⟩ ⟨⟨"jump", [⟨0, .opcode .br⟩]⟩, []⟩

/-- The jump runs, and the splice behind it does not: the jump passes it by. -/
theorem splice_behind_jump_not_reached : ∃ s p r t anchor patched,
    jumpBody.stackDepths = .ok [some 0, some 0] ∧ jumpPoint.build = .ok p ∧
    Stream.ofBody jumpBody = .ok s ∧ p.locate s = .ok anchor ∧
    (∀ q, s.Within anchor.span q →
      ∃ i e, s.index? q = some i ∧ [some 0, some 0][i]? = some (some e)) ∧
    p.apply s = (.ok r, t) ∧ t.toBody.stackDepths = .ok patched ∧
    ¬∃ e, patched[r.index]? = some (some e) := by
  obtain ⟨s, loaded⟩ : ∃ s, Stream.ofBody jumpBody = .ok s := ⟨_, rfl⟩
  obtain ⟨p, built⟩ : ∃ p, jumpPoint.build = .ok p := ⟨_, rfl⟩
  obtain ⟨r, t, anchor, patched, located, applied, verified, dead⟩ : ∃ r t anchor patched,
      p.locate s = .ok anchor ∧ p.apply s = (.ok r, t) ∧ t.toBody.stackDepths = .ok patched ∧
        patched[r.index]? = some none := by
    cases loaded
    cases built
    exact ⟨_, _, _, _, rfl, rfl, rfl, rfl⟩
  have length : [some 0, some 0].length = s.cells.length := by
    cases loaded
    rfl
  exact ⟨s, p, r, t, anchor, patched, rfl, built, loaded, located,
    Stream.span_reached length (by decide) anchor.span, applied, verified, by simp [dead]⟩

end Interpose

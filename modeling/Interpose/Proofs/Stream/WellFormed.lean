import Interpose.Proofs.Stream.Block

/-!
Well-formed streams. Loading a body gives one, and every edit keeps it, whether it succeeds or is
refused: positions are distinct and were handed out, labels stand at instructions and were defined,
and every branch has a target.
-/

set_option autoImplicit false
set_option relaxedAutoImplicit false

namespace Interpose.Stream

variable {s t : Stream} {b : Block}

/-- What holds of a stream in every state of its edits. -/
structure WellFormed (s : Stream) : Prop where
  distinct : s.positions.Nodup
  issued : ∀ {p}, p ∈ s.positions → p.serial < s.nextSerial
  live : ∀ {l p}, s.labels.find? l = some p → p ∈ s.positions
  closed : ∀ {insn l}, insn ∈ s.code → l ∈ insn.branchTargets → ∃ p, s.labels.find? l = some p

theorem WellFormed.renumber (ok : s.WellFormed) (n : UInt32) :
    ({ s with nextLabel := n } : Stream).WellFormed :=
  ⟨ok.distinct, ok.issued, ok.live, ok.closed⟩

theorem branch_mentions {insn : Instruction} {l : Label} (target : l ∈ insn.branchTargets) :
    l ∈ insn.operand.mentioned := by
  unfold Instruction.branchTargets at target
  split at target
  · exact target
  · cases target

/-! ### Loading -/

theorem ofBody_iff {body : Body} :
    ofBody body = .ok s ↔
      (∀ e ∈ body.labels.entries, e.2 < body.code.length) ∧
      (∀ l ∈ targets body, ∃ i, body.labels.find? l = some i) ∧
      s = ⟨numbered 0 body.code, body.labels.filterMap fun i => some ⟨i⟩, body.code.length,
        countPast 0 (body.labels.labels ++ targets body), body.returns⟩ := by
  unfold ofBody
  split
  · next l index beyond =>
    have member := List.mem_of_find?_eq_some beyond
    have outside : body.code.length ≤ index := by simpa using List.find?_some beyond
    simp only [reduceCtorEq, false_iff]
    rintro ⟨inside, -⟩
    exact absurd (inside _ member) (Nat.not_lt.mpr outside)
  · next inside =>
    have inside' : ∀ e ∈ body.labels.entries, e.2 < body.code.length := by
      simpa using inside
    split
    · next l lost =>
      have member := List.mem_of_find?_eq_some lost
      have unbound : body.labels.contains l = false := by simpa using List.find?_some lost
      simp only [reduceCtorEq, false_iff]
      rintro ⟨-, bound, -⟩
      obtain ⟨i, found⟩ := bound l member
      exact absurd (LabelTable.contains_iff.mpr ⟨i, found⟩) (by simp [unbound])
    · next bound =>
      have bound' : ∀ l ∈ targets body, ∃ i, body.labels.find? l = some i := fun l member =>
        LabelTable.contains_iff.mp (by simpa using List.find?_eq_none.mp bound l member)
      simp only [Except.ok.injEq]
      exact ⟨fun same => ⟨inside', bound', same.symm⟩, fun whole => whole.2.2.symm⟩

theorem ofBody_wellFormed {body : Body} (loaded : ofBody body = .ok s) : s.WellFormed := by
  obtain ⟨inside, bound, rfl⟩ := ofBody_iff.mp loaded
  have found_iff : ∀ {l p},
      (body.labels.filterMap fun i => some (⟨i⟩ : Position)).find? l = some p ↔
        body.labels.find? l = some p.serial := by
    intro l p
    simp only [LabelTable.find?_filterMap, Option.bind_eq_some_iff, Option.some.injEq]
    constructor
    · rintro ⟨i, found, rfl⟩
      exact found
    · exact fun found => ⟨p.serial, found, rfl⟩
  refine ⟨nodup_numbered 0 body.code, fun member => ?_, fun found => ?_, fun member target => ?_⟩
  · simpa using (mem_numbered.mp member).2
  · have entry := LabelTable.find?_eq_some_iff.mp (found_iff.mp found)
    exact mem_numbered.mpr ⟨Nat.zero_le _, by simpa using inside _ entry⟩
  · rw [code, code_numbered] at member
    obtain ⟨i, found⟩ := bound _ (List.mem_flatMap.mpr ⟨_, member, target⟩)
    exact ⟨⟨i⟩, found_iff.mpr found⟩

/-! ### Labels -/

theorem WellFormed.defineLabel (ok : s.WellFormed) : s.defineLabel.2.WellFormed :=
  ok.renumber _

theorem WellFormed.bind (ok : s.WellFormed) {l : Label} {p : Position} (here : p ∈ s.positions) :
    (s.bind l p).WellFormed where
  distinct := ok.distinct
  issued := ok.issued
  live {k q} found := by
    simp only [Stream.bind, LabelTable.find?_insert] at found
    split at found
    · cases found
      exact here
    · exact ok.live found
  closed {insn k} member target := by
    obtain ⟨q, found⟩ := ok.closed member target
    simp only [Stream.bind, LabelTable.find?_insert]
    split
    · exact ⟨p, rfl⟩
    · exact ⟨q, found⟩

theorem WellFormed.markLabel (ok : s.WellFormed) (l : Label) (p : Position) :
    (s.markLabel l p).2.WellFormed := by
  unfold Stream.markLabel
  split
  · exact ok
  · next present =>
    split
    · exact ok
    · exact ok.bind (contains_iff.mp (by simpa using present))

theorem retarget_iff {l : Label} {p : Position} :
    s.retarget l p = (.ok (), t) ↔
      p ∈ s.positions ∧ (∃ q, s.labels.find? l = some q) ∧
        t = { s with labels := s.labels.insert l p } := by
  rw [← contains_iff, ← LabelTable.contains_iff]
  unfold retarget
  by_cases present : s.contains p = true
  · by_cases bound : s.labels.contains l = true
    · simp [present, bound, eq_comm]
    · simp [present, bound]
  · simp [present]

theorem retarget_refused {l : Label} {p : Position} {e : StreamError}
    (refused : s.retarget l p = (.error e, t)) : t = s := by
  unfold retarget at refused
  split at refused
  · exact (Prod.mk.inj refused).2.symm
  · split at refused
    · exact (Prod.mk.inj refused).2.symm
    · cases refused

theorem WellFormed.retarget (ok : s.WellFormed) (l : Label) (p : Position) :
    (s.retarget l p).2.WellFormed := by
  match moved : s.retarget l p with
  | (.error e, t) =>
    obtain rfl := retarget_refused moved
    exact ok
  | (.ok (), t) =>
    obtain ⟨here, -, rfl⟩ := retarget_iff.mp moved
    refine ⟨ok.distinct, ok.issued, fun {k r} found => ?_, fun {insn k} member target => ?_⟩
    · simp only [LabelTable.find?_insert] at found
      split at found
      · cases found
        exact here
      · exact ok.live found
    · obtain ⟨r, found⟩ := ok.closed member target
      simp only [LabelTable.find?_insert]
      split
      · exact ⟨p, rfl⟩
      · exact ⟨r, found⟩

/-! ### Insertion -/

theorem Inserted.positions_perm {before after : List Cell} (whole : s.cells = before ++ after)
    (inserted : s.Inserted t before after b) :
    t.positions.Perm (s.positions ++ (numbered s.nextSerial b.code).map (·.pos)) := by
  simp only [positions, inserted.cells, whole, List.map_append, List.append_assoc]
  exact List.Perm.append_left _ List.perm_append_comm

theorem Inserted.wellFormed {before after : List Cell} (whole : s.cells = before ++ after)
    (ok : s.WellFormed) (admits : s.Admits b) (inserted : s.Inserted t before after b) :
    t.WellFormed := by
  have places : ∀ {p}, p ∈ t.positions ↔ p ∈ s.positions ∨
      s.nextSerial ≤ p.serial ∧ p.serial < s.nextSerial + b.code.length := by
    intro p
    rw [(inserted.positions_perm whole).mem_iff, List.mem_append, mem_numbered]
  have kept : ∀ {l p}, s.labels.find? l = some p → t.labels.find? l = some p := by
    intro l p found
    refine (inserted.kept ?_).trans found
    intro member
    obtain ⟨e, taken, rfl⟩ := List.mem_map.mp member
    exact absurd (admits.free e taken) (by simp [found])
  refine ⟨?_, fun member => ?_, fun {l p} found => ?_, fun {insn l} member target => ?_⟩
  · rw [(inserted.positions_perm whole).nodup_iff]
    refine List.Nodup.append ok.distinct (nodup_numbered _ _) fun p old new => ?_
    exact absurd (ok.issued old) (Nat.not_lt.mpr (mem_numbered.mp new).1)
  · rw [inserted.serial]
    rcases places.mp member with old | new
    · exact Nat.lt_add_right _ (ok.issued old)
    · exact new.2
  · by_cases taken : l ∈ b.bindings.map (·.1)
    · obtain ⟨⟨k, binding⟩, member, rfl⟩ := List.mem_map.mp taken
      have holds := admits.holds _ member
      obtain rfl : bindingPosition s.nextSerial binding = p := by
        simpa [inserted.bound member] using found
      cases binding with
      | inner index =>
        refine places.mpr (.inr ⟨Nat.le_add_right _ _, ?_⟩)
        exact Nat.add_lt_add_left (show index < b.code.length from holds) _
      | existing q => exact places.mpr (.inl holds)
    · exact places.mpr (.inl (ok.live ((inserted.kept taken).symm.trans found)))
  · have origin : insn ∈ s.code ∨ insn ∈ b.code := by
      simp only [code, inserted.cells, whole, List.map_append, List.mem_append, code_numbered]
        at member ⊢
      tauto
    rcases origin with old | new
    · obtain ⟨p, found⟩ := ok.closed old target
      exact ⟨p, kept found⟩
    · rcases admits.closed insn new l (branch_mentions target) with ⟨p, found⟩ | taken
      · exact ⟨p, kept found⟩
      · obtain ⟨⟨k, binding⟩, member, rfl⟩ := List.mem_map.mp taken
        exact ⟨_, inserted.bound member⟩

theorem WellFormed.insertBetween (ok : s.WellFormed) {before after : List Cell}
    (whole : s.cells = before ++ after) : (s.insertBetween before after b).2.WellFormed := by
  match result : s.insertBetween before after b with
  | (.error e, t) =>
    obtain rfl := insertBetween_refused result
    exact ok
  | (.ok span, t) =>
    obtain ⟨admits, committed⟩ := insertBetween_iff.mp result
    have inserted := admits.inserted before after
    rw [committed] at inserted
    exact inserted.wellFormed whole ok admits

theorem WellFormed.insertBefore (ok : s.WellFormed) (p : Position) :
    (s.insertBefore p b).2.WellFormed := by
  unfold Stream.insertBefore
  split
  · exact ok
  · next before onward split => exact ok.insertBetween (split_iff.mp split).1

theorem WellFormed.insertAfter (ok : s.WellFormed) (p : Position) :
    (s.insertAfter p b).2.WellFormed := by
  unfold Stream.insertAfter
  split
  · exact ok
  · next before onward split =>
    refine ok.insertBetween ?_
    rw [List.append_assoc, List.take_append_drop]
    exact (split_iff.mp split).1

theorem WellFormed.append (ok : s.WellFormed) : (s.append b).2.WellFormed :=
  ok.insertBetween (List.append_nil _).symm

/-! ### Removal and replacement -/

theorem cut_whole {span : Span} {before inside after : List Cell}
    (cut : s.cut span = .ok (before, inside, after)) : s.cells = before ++ inside ++ after := by
  unfold Stream.cut at cut
  split at cut
  · next front onward _ first _ =>
    split at cut
    · next inner final last =>
      cases cut
      rw [(split_iff.mp first).1, (split_iff.mp last).1, List.append_assoc, List.append_assoc,
        List.take_append_drop]
    · cases cut
  · cases cut

theorem cut_ends {span : Span} {before inside after : List Cell}
    (cut : s.cut span = .ok (before, inside, after)) :
    (inside.map (·.pos)).head? = some span.first ∧
      (inside.map (·.pos)).getLast? = some span.last := by
  unfold Stream.cut at cut
  split at cut
  · next front onward _ first _ =>
    split at cut
    · next inner final last =>
      cases cut
      obtain ⟨-, -, start⟩ := split_iff.mp first
      obtain ⟨rfl, -, stop⟩ := split_iff.mp last
      obtain ⟨d, head, here⟩ := Option.map_eq_some_iff.mp stop
      obtain ⟨rest, rfl⟩ := List.head?_eq_some_iff.mp head
      constructor
      · cases inner <;> simpa using start
      · simpa using here
    · cases cut
  · cases cut

theorem WellFormed.without (ok : s.WellFormed) {before inside after : List Cell}
    (whole : s.cells = before ++ inside ++ after) {labels : LabelTable Position}
    (same : ∀ {l}, (∃ p, labels.find? l = some p) ↔ ∃ p, s.labels.find? l = some p)
    (live : ∀ {l p}, labels.find? l = some p → p ∈ (before ++ after).map (·.pos)) :
    ({ s with cells := before ++ after, labels } : Stream).WellFormed := by
  have sub : (before ++ after).Sublist s.cells := by
    rw [whole, List.append_assoc]
    exact (List.sublist_append_right inside after).append_left before
  exact ⟨(sub.map _).nodup ok.distinct, fun member => ok.issued ((sub.map _).subset member), live,
    fun member target => same.mpr (ok.closed ((sub.map _).subset member) target)⟩

/-- A removal takes out the cells of its span, and moves the labels at them to the cell behind. -/
theorem remove_cases (s : Stream) (span : Span) :
    (∃ e, s.remove span = (.error e, s)) ∨
    ∃ before inside after labels, s.cut span = .ok (before, inside, after) ∧
      s.remove span = (.ok (inside.map (·.insn)), { s with cells := before ++ after, labels }) ∧
      ((after = [] ∧ labels = s.labels ∧
          ∀ e ∈ s.labels.entries, e.2 ∉ inside.map (·.pos)) ∨
        ∃ c rest, after = c :: rest ∧ labels = s.labels.filterMap fun p =>
          some (if p ∈ inside.map (·.pos) then c.pos else p)) := by
  match cut : s.cut span with
  | .error e => exact .inl ⟨e, by simp [Stream.remove, cut]⟩
  | .ok (before, inside, c :: rest) =>
    refine .inr ⟨before, inside, c :: rest, _, rfl, ?_, .inr ⟨c, rest, rfl, rfl⟩⟩
    simp [Stream.remove, cut]
  | .ok (before, inside, []) =>
    match moved : (s.labels.entries.filter fun e =>
        (inside.map (·.pos)).contains e.2).map (·.1) with
    | l :: others => exact .inl ⟨.orphanedLabel l, by simp only [Stream.remove, cut, moved]⟩
    | [] =>
      refine .inr ⟨before, inside, [], s.labels, rfl, by simp only [Stream.remove, cut, moved],
        .inl ⟨rfl, rfl, fun e member doomed => ?_⟩⟩
      have here : e ∈ s.labels.entries.filter fun e => (inside.map (·.pos)).contains e.2 :=
        List.mem_filter.mpr ⟨member, List.contains_iff_mem.mpr doomed⟩
      rw [List.map_eq_nil_iff.mp moved] at here
      cases here

theorem WellFormed.remove (ok : s.WellFormed) (span : Span) : (s.remove span).2.WellFormed := by
  rcases remove_cases s span with ⟨e, refused⟩ |
    ⟨before, inside, after, labels, cut, removed, moved⟩
  · rw [refused]
    exact ok
  · have whole := cut_whole cut
    have rest : ∀ {l p}, s.labels.find? l = some p → p ∉ inside.map (·.pos) →
        p ∈ (before ++ after).map (·.pos) := by
      intro l p found outside
      have member := ok.live found
      simp only [positions, whole, List.map_append, List.mem_append] at member ⊢
      tauto
    rw [removed]
    rcases moved with ⟨-, rfl, stay⟩ | ⟨c, others, rfl, rfl⟩
    · exact ok.without whole Iff.rfl fun found =>
        rest found (stay _ (LabelTable.find?_eq_some_iff.mp found))
    · refine ok.without whole (fun {l} => ?_) fun {l p} found => ?_
      · rw [LabelTable.find?_filterMap]
        cases s.labels.find? l <;> simp
      simp only [LabelTable.find?_filterMap, Option.bind_eq_some_iff, Option.some.injEq] at found
      obtain ⟨q, old, rfl⟩ := found
      split
      · simp
      · next outside => exact rest old outside

theorem replaced_cells (distinct : s.positions.Nodup) {before after : List Cell} {c : Cell}
    (whole : s.cells = before ++ c :: after) (insn : Instruction) :
    (s.cells.map fun d => if d.pos = c.pos then { d with insn } else d) =
      before ++ ⟨c.pos, insn⟩ :: after := by
  simp only [positions, whole, List.map_append, List.map_cons, List.nodup_middle,
    List.nodup_cons, List.mem_append, not_or] at distinct
  obtain ⟨⟨outsideBefore, outsideAfter⟩, -⟩ := distinct
  have same : ∀ cells : List Cell, c.pos ∉ cells.map (·.pos) →
      (cells.map fun d => if d.pos = c.pos then { d with insn } else d) = cells := by
    intro cells outside
    conv_rhs => rw [← List.map_id cells]
    refine List.map_congr_left fun d member => if_neg fun here => ?_
    rw [← here] at outside
    exact outside (List.mem_map_of_mem member)
  rw [whole, List.map_append, List.map_cons, same before outsideBefore, same after outsideAfter,
    if_pos rfl]

theorem WellFormed.replace (ok : s.WellFormed) (p : Position) (insn : Instruction) :
    (s.replace p insn).2.WellFormed := by
  unfold Stream.replace
  split
  · exact ok
  · next bound =>
    split
    · exact ok
    · have places : (s.cells.map fun c => if c.pos = p then { c with insn } else c).map (·.pos) =
          s.positions := by
        rw [List.map_map]
        refine List.map_congr_left fun c _ => ?_
        simp only [Function.comp_apply]
        split <;> rfl
      refine ⟨?_, fun {q} member => ?_, fun {l q} found => ?_,
        fun {other l} member target => ?_⟩
      · change (List.map _ _).Nodup
        exact places ▸ ok.distinct
      · change q ∈ List.map _ _ at member
        exact ok.issued (places ▸ member)
      · change q ∈ List.map _ _
        exact places ▸ ok.live found
      · simp only [code, List.map_map, List.mem_map, Function.comp_apply] at member
        obtain ⟨c, here, rfl⟩ := member
        split at target
        · exact LabelTable.contains_iff.mp (by simpa using List.find?_eq_none.mp bound l target)
        · exact ok.closed (List.mem_map_of_mem here) target

end Interpose.Stream

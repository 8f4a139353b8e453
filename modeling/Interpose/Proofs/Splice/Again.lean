import Interpose.Proofs.Splice.Layout

/-!
Applying a point to a stream that another point went into. If a point could be applied before and
finds the same anchor, skip target and captures, then the stream still admits what its template is
lowered to: positions stay, bound labels stay bound, and no number of a new label is left out.
-/

set_option autoImplicit false
set_option relaxedAutoImplicit false

namespace Interpose

namespace Stream

variable {s : Stream}

theorem next_iff (distinct : s.positions.Nodup) {p q : Position} :
    s.next? p = some q ↔ ∃ i, s.index? p = some i ∧ s.index? q = some (i + 1) := by
  cases index : s.index? p with
  | none => simp [next?, onward_absent index]
  | some i => simp [next_eq_position index, position_iff distinct]

end Stream

theorem TemplateOp.branch_code (loads : Loads) {op : TemplateOp} {symbol : Symbol}
    (target : op.target? = some symbol) :
    ∃ opcode, ∀ name, op.code loads name = [⟨opcode, .label (name symbol)⟩] := by
  cases op with
  | branch other | branchTrue other | branchFalse other =>
    obtain rfl : other = symbol := Option.some.inj target
    exact ⟨_, fun _ => rfl⟩
  | loadActive | typeTest | loadCapture | invokeCallback | mark | emit => cases target

namespace Template

variable {loads : Loads} {t : Template} {s u : Stream} {resumeAt skipAt : Position}

theorem mem_symbols_of_target {op : TemplateOp} (member : op ∈ t) {symbol : Symbol}
    (target : op.target? = some symbol) : symbol ∈ t.symbols := by
  refine List.mem_filterMap.mpr ⟨op, member, ?_⟩
  cases op <;> first | exact target | cases target

theorem Sound.stands {captures : Nat} {maySkip : Bool} (sound : t.Sound captures maySkip)
    {symbol : Symbol} (known : symbol ∈ t.symbols) :
    ∃ binding, t.Stands loads resumeAt skipAt symbol binding := by
  cases symbol with
  | resume => exact ⟨_, .resume⟩
  | skip => exact ⟨_, .skip⟩
  | named name =>
    have marked : .mark name ∈ t := mem_marks.mp (sound.named_iff.mp known)
    obtain ⟨front, back, whole⟩ := List.append_of_mem marked
    exact ⟨_, .named ⟨front, back, whole, rfl⟩⟩

/-- A label that the code of a template has from elsewhere. -/
def Foreign (loads : Loads) (t : Template) (l : Label) : Prop :=
  ∃ op ∈ t, op.target? = none ∧ ∃ name, ∃ insn ∈ op.code loads name, l ∈ insn.operand.mentioned

theorem Lowered.bindings {block : Block} {after : Stream} {name : Symbol → Label}
    (lowered : Lowered loads s resumeAt skipAt t block after name) {captures : Nat} {maySkip : Bool}
    (sound : t.Sound captures maySkip) :
    (block.bindings.map (·.1)).Perm (s.upcoming t.symbols.dedup.length) :=
  (lowered.placed.trans (sound.placed_perm.map name)).trans lowered.labels

/-- A stream admits what a template is lowered to for it, if the next labels are free, the places of
the symbols are there and the labels that the template has from elsewhere are bound. -/
theorem Lowered.admits {block : Block} {n : UInt32} {name : Symbol → Label}
    (lowered : Lowered loads s resumeAt skipAt t block { s with nextLabel := n } name)
    {captures : Nat} {maySkip : Bool} (sound : t.Sound captures maySkip)
    (free : s.Free t.symbols.dedup.length)
    (holds : ∀ symbol ∈ t.symbols, ∀ binding, t.Stands loads resumeAt skipAt symbol binding →
      s.Holds (t.size loads) binding)
    (foreign : ∀ l, t.Foreign loads l →
      (∃ p, s.labels.find? l = some p) ∨ ∃ symbol ∈ t.symbols, name symbol = l) :
    ({ s with nextLabel := n } : Stream).Admits block := by
  have size : block.code.length = t.size loads := by rw [lowered.code, code_length]
  have bound : ∀ {symbol}, symbol ∈ t.symbols → name symbol ∈ block.bindings.map (·.1) := by
    intro symbol known
    obtain ⟨binding, stands⟩ := sound.stands known
    exact List.mem_map_of_mem ((lowered.bound _ _).mpr ⟨symbol, known, rfl, stands⟩)
  have bindings := lowered.bindings sound
  refine ⟨fun none => ?_, fun e member => ?_, bindings.nodup_iff.mpr free.apart, fun e member => ?_,
    fun insn member l mentions => ?_⟩
  · have some : 0 < t.size loads := sound.size_template_pos
    rw [← size, none] at some
    exact absurd some (Nat.lt_irrefl 0)
  · exact free.unbound e.1 (bindings.mem_iff.mp (List.mem_map_of_mem member))
  · obtain ⟨symbol, known, -, stands⟩ := (lowered.bound e.1 e.2).mp member
    exact size ▸ holds symbol known e.2 stands
  · rw [lowered.code] at member
    obtain ⟨op, here, member⟩ := List.mem_flatMap.mp member
    cases target : op.target? with
    | some symbol =>
      obtain ⟨opcode, code⟩ := TemplateOp.branch_code loads target
      obtain rfl : insn = ⟨opcode, .label (name symbol)⟩ := by simpa [code] using member
      obtain rfl : l = name symbol := by simpa [Operand.mentioned] using mentions
      exact .inr (bound (mem_symbols_of_target here target))
    | none =>
      rcases foreign l ⟨op, here, target, name, insn, member, mentions⟩ with old | ⟨_, known, rfl⟩
      · exact .inl old
      · exact .inr (bound known)

theorem Lowered.admits_again {block again : Block}
    {n m : UInt32} {name other : Symbol → Label}
    (lowered : Lowered loads s resumeAt skipAt t block { s with nextLabel := n } name)
    (relowered : Lowered loads u resumeAt skipAt t again { u with nextLabel := m } other)
    {captures : Nat} {maySkip : Bool} (sound : t.Sound captures maySkip)
    (early : s.HasRoom t.symbols.dedup.length) (room : u.HasRoom t.symbols.dedup.length)
    (grown : s.nextLabel.toNat ≤ u.nextLabel.toNat)
    (positions : ∀ p ∈ s.positions, p ∈ u.positions)
    (labels : ∀ l p, s.labels.find? l = some p → ∃ q, u.labels.find? l = some q)
    (filled : ∀ l : Label, s.nextLabel ≤ l.id → l.id < u.nextLabel →
      ∃ q, u.labels.find? l = some q)
    (admits : ({ s with nextLabel := n } : Stream).Admits block) :
    ({ u with nextLabel := m } : Stream).Admits again := by
  refine relowered.admits sound room.free (fun symbol known binding stands => ?_)
    fun l elsewhere => ?_
  · have holds := admits.holds _ ((lowered.bound _ _).mpr ⟨symbol, known, rfl, stands⟩)
    rw [lowered.code, code_length] at holds
    cases binding with
    | inner index => exact holds
    | existing p => exact positions p holds
  · obtain ⟨op, here, target, third, insn, member, mentions⟩ := elsewhere
    have before : insn ∈ block.code := by
      rw [lowered.code]
      refine List.mem_flatMap.mpr ⟨op, here, ?_⟩
      rwa [TemplateOp.code_congr name third (by simp [target])]
    rcases admits.closed insn before l mentions with ⟨p, found⟩ | bound
    · exact .inl (labels l p found)
    · obtain ⟨least, below⟩ :=
        (Stream.mem_upcoming_iff early.fits).mp ((lowered.bindings sound).mem_iff.mp bound)
      by_cases known : l.id < u.nextLabel
      · exact .inl (filled l least known)
      · -- the label is one of those that the template gets now
        have among : l ∈ u.upcoming t.symbols.dedup.length :=
          (Stream.mem_upcoming_iff room.fits).mpr ⟨UInt32.not_lt.mp known, by omega⟩
        obtain ⟨symbol, member, named⟩ := List.mem_map.mp (relowered.labels.mem_iff.mpr among)
        exact .inr ⟨symbol, List.mem_dedup.mp member, named⟩

end Template

namespace Point

variable {p q : Point} {s t : Stream} {site found late : Site} {r : SpliceReport}
  {name : Symbol → Label}

theorem apply_ok (ok : s.WellFormed) (finds : p.site s = .ok site)
    (here : site.resumeAt ∈ s.positions)
    (admits : (p.template.lower (p.loads site) s site.resumeAt site.skipAt).2.Admits
      (p.template.lower (p.loads site) s site.resumeAt site.skipAt).1) :
    ∃ r t, p.apply s = (.ok r, t) := by
  obtain ⟨name, lowered⟩ :=
    Template.lower_lowered (p.loads site) s site.resumeAt site.skipAt p.template
  unfold Point.apply
  simp only [finds]
  generalize p.template.lower (p.loads site) s site.resumeAt site.skipAt = result
    at lowered admits
  obtain ⟨block, defined⟩ := result
  obtain ⟨n, rfl⟩ : ∃ n, defined = { s with nextLabel := n } := ⟨_, lowered.stream⟩
  dsimp only at lowered admits ⊢
  obtain ⟨before, onward, split⟩ := Stream.split_of_mem here
  have whole := (Stream.split_iff.mp split).1
  generalize committed :
    ({ s with nextLabel := n } : Stream).commit before onward block = result
  obtain ⟨span, after⟩ := result
  have inserted := admits.inserted before onward
  rw [committed] at inserted
  obtain rfl : span = ⟨⟨s.nextSerial⟩, ⟨s.nextSerial + block.code.length - 1⟩⟩ :=
    (Prod.mk.inj committed).1.symm
  simp only [(Stream.insertBefore_iff (s := { s with nextLabel := n }) split).mpr
    ⟨admits, committed⟩]
  have start : (⟨s.nextSerial⟩ : Position) ∈ after.positions := by
    rw [(inserted.positions_perm (s := { s with nextLabel := n }) whole).mem_iff, List.mem_append,
      Stream.mem_numbered]
    have some := List.length_pos_iff.mpr admits.nonempty
    exact .inr ⟨Nat.le_refl _, by dsimp only; omega⟩
  obtain ⟨t, moved⟩ := retargetAll_ok start site.incoming fun l member => by
    have bound := ((mem_incoming finds).mp member).2
    refine ⟨site.resumeAt, (inserted.kept fun taken => ?_).trans bound⟩
    obtain ⟨e, there, rfl⟩ := List.mem_map.mp taken
    exact absurd ((admits.free e there).symm.trans bound) (by simp)
  have retargeted := retargetAll_retargeted moved
  have distinct : t.positions.Nodup := by
    have kept := retargetAll_wellFormed
      (inserted.wellFormed (s := { s with nextLabel := n }) whole (ok.renumber n) admits)
      ⟨s.nextSerial⟩ site.incoming
    rw [moved] at kept
    exact kept.distinct
  simp only [moved]
  exact ⟨_, t, Prod.ext (report_inserted distinct (retargeted.cells.trans inserted.cells)
    admits.nonempty site.anchor) rfl⟩

/-- What a point finds later is what it found, as far as its splice depends on it. -/
structure Settled (p : Point) (found late : Site) : Prop where
  anchor : late.anchor.span = found.anchor.span
  skip : p.template.usesSkip = true → late.skipAt = found.skipAt
  captures : late.captures = found.captures

theorem Settled.loads (settled : q.Settled found late) : q.loads late = q.loads found := by
  simp only [Point.loads, settled.captures]

theorem Settled.resume (ok : s.WellFormed) (kept : t.WellFormed)
    (spliced : p.Spliced s site r t name) (finds : q.site s = .ok found)
    (again : q.site t = .ok late) (settled : q.Settled found late)
    (apart : found.resumeAt ≠ site.resumeAt) : late.resumeAt = found.resumeAt := by
  obtain ⟨-, resumes, -⟩ := site_iff.mp finds
  obtain ⟨-, later, -⟩ := site_iff.mp again
  rw [settled.anchor] at later
  cases placement : q.placement with
  | before =>
    simp only [Point.resumeAt, placement, Except.ok.injEq] at resumes later
    exact later.symm.trans resumes
  | after =>
    simp only [Point.resumeAt, placement] at resumes later
    cases next : s.next? found.anchor.span.last with
    | none => simp [next] at resumes
    | some position =>
      obtain rfl : position = found.resumeAt := by simpa [next] using resumes
      obtain ⟨i, last, behind⟩ := (Stream.next_iff ok.distinct).mp next
      have elsewhere : i + 1 ≠ r.index := by
        intro same
        have here := (Stream.index_iff ok.distinct).mp (same ▸ behind)
        have there := (Stream.index_iff ok.distinct).mp spliced.index
        exact apart (Option.some.inj (here.symm.trans there))
      have moved := spliced.place ok kept behind
      rw [SpliceReport.place_succ elsewhere] at moved
      have still := (Stream.next_iff kept.distinct).mpr ⟨_, spliced.place ok kept last, moved⟩
      simpa [still, eq_comm] using later

theorem Settled.skips (finds : q.site s = .ok found) (again : q.site t = .ok late)
    (settled : q.Settled found late) (resume : late.resumeAt = found.resumeAt) :
    late.skipAt = found.skipAt := by
  cases uses : q.template.usesSkip with
  | true => exact settled.skip uses
  | false => rw [skipAt_resume again uses, skipAt_resume finds uses, resume]

/-- A point that applies to a stream also applies after another splice, if that changes nothing of
what it finds and there are enough numbers for both. -/
theorem Settled.applies (ok : s.WellFormed) (kept : t.WellFormed)
    {captures others : Nat} {maySkip mayToo : Bool} (sound : q.template.Sound captures maySkip)
    (fills : p.template.Sound others mayToo)
    (room : s.HasRoom (p.template.symbols.dedup.length + q.template.symbols.dedup.length))
    (spliced : p.Spliced s site r t name)
    {rq : SpliceReport} {u : Stream} (applied : q.apply s = (.ok rq, u))
    (finds : q.site s = .ok found) (again : q.site t = .ok late) (settled : q.Settled found late)
    (apart : found.resumeAt ≠ site.resumeAt) : ∃ r v, q.apply t = (.ok r, v) := by
  obtain ⟨other, block, n, first, before, onward, after, same, lowered, split, admits, -⟩ :=
    apply_parts ok applied
  obtain rfl : other = found := Except.ok.inj (same.symm.trans finds)
  have resume := settled.resume ok kept spliced finds again apart
  have skips := settled.skips finds again resume
  have positions : ∀ x ∈ s.positions, x ∈ t.positions := by
    intro x member
    obtain ⟨i, index⟩ := Stream.index_of_mem member
    exact Stream.mem_of_index kept.distinct (spliced.place ok kept index)
  have here : other.resumeAt ∈ s.positions := by
    have whole := (Stream.split_iff.mp split).1
    have head := (Stream.split_iff.mp split).2.2
    obtain ⟨c, cell, at_⟩ := Option.map_eq_some_iff.mp head
    rw [← at_, Stream.positions, whole]
    exact List.mem_map_of_mem (List.mem_append_right _ (List.mem_of_head? cell))
  refine apply_ok kept again (positions _ (resume ▸ here)) ?_
  obtain ⟨second, relowered⟩ :=
    Template.lower_lowered (q.loads late) t late.resumeAt late.skipAt q.template
  generalize q.template.lower (q.loads late) t late.resumeAt late.skipAt = result at relowered ⊢
  obtain ⟨again', defined⟩ := result
  obtain ⟨m, rfl⟩ : ∃ m, defined = { t with nextLabel := m } := ⟨_, relowered.stream⟩
  dsimp only at relowered ⊢
  rw [settled.loads, resume, skips] at relowered
  obtain ⟨counted, left⟩ := spliced.room fills room
  have first := room.mono (Nat.le_add_right _ _)
  refine lowered.admits_again relowered sound (room.mono (Nat.le_add_left _ _)) left (by omega)
    positions (fun l x bound => ?_) (fun l old new => ?_) admits
  · exact ⟨_, spliced.moved l x bound⟩
  · have among := (Stream.mem_upcoming_iff first.fits).mpr
      ⟨old, counted ▸ UInt32.lt_iff_toNat_lt.mp new⟩
    obtain ⟨symbol, known, rfl⟩ := spliced.mem_upcoming.mp among
    obtain ⟨binding, stands⟩ := fills.stands known
    exact ⟨_, spliced.bound symbol known binding stands⟩

end Point

end Interpose

import Interpose.Proofs.Splice.Checks
import Interpose.Splice
import Mathlib.Data.List.Forall2

/-!
What applying an extension point does. A splice that succeeds leaves the cells in front of the place
to go on and those from it on as they were, with the lowered template between them; no label
changes its place except those that are led through the splice.
-/

set_option autoImplicit false
set_option relaxedAutoImplicit false

namespace Interpose

namespace Stream

variable {s t : Stream}

theorem mem_labelsAt {p : Position} {l : Label} : l ∈ s.labelsAt p ↔ s.labels.find? l = some p := by
  rw [LabelTable.find?_eq_some_iff]
  simp only [labelsAt, List.mem_map, List.mem_filter, decide_eq_true_eq]
  constructor
  · rintro ⟨⟨k, q⟩, ⟨member, rfl⟩, rfl⟩
    exact member
  · exact fun member => ⟨(l, p), ⟨member, rfl⟩, rfl⟩

structure Retargeted (s t : Stream) (moved : List Label) (p : Position) : Prop where
  cells : t.cells = s.cells
  serial : t.nextSerial = s.nextSerial
  labels : t.nextLabel = s.nextLabel
  returns : t.returns = s.returns
  find : ∀ l, t.labels.find? l = if l ∈ moved then some p else s.labels.find? l

end Stream

namespace Point

variable {p : Point} {s t : Stream} {site : Site} {r : SpliceReport}

theorem retargetAll_retargeted {q : Position} {moved : List Label}
    (done : retargetAll s q moved = (.ok (), t)) : s.Retargeted t moved q := by
  induction moved generalizing s with
  | nil =>
    obtain rfl : s = t := (Prod.mk.inj done).2
    exact ⟨rfl, rfl, rfl, rfl, by simp⟩
  | cons l moved ih =>
    match first : s.retarget l q with
    | (.error e, u) => simp [retargetAll, first] at done
    | (.ok (), u) =>
      obtain ⟨-, -, rfl⟩ := Stream.retarget_iff.mp first
      have rest := ih (by simpa only [retargetAll, first] using done)
      refine ⟨rest.cells, rest.serial, rest.labels, rest.returns, fun k => ?_⟩
      rw [rest.find]
      simp only [LabelTable.find?_insert, List.mem_cons]
      by_cases later : k ∈ moved
      · simp [later]
      · by_cases same : k = l <;> simp [later, same]

theorem retargetAll_ok {q : Position} (here : q ∈ s.positions) (moved : List Label)
    (bound : ∀ l ∈ moved, ∃ p, s.labels.find? l = some p) :
    ∃ t, retargetAll s q moved = (.ok (), t) := by
  induction moved generalizing s with
  | nil => exact ⟨s, rfl⟩
  | cons l moved ih =>
    have first := Stream.retarget_iff.mpr ⟨here, bound l List.mem_cons_self, rfl⟩
    obtain ⟨t, rest⟩ := ih (s := { s with labels := s.labels.insert l q }) here (by
      intro k member
      obtain ⟨p, found⟩ := bound k (List.mem_cons_of_mem _ member)
      simp only [LabelTable.find?_insert]
      split
      · exact ⟨q, rfl⟩
      · exact ⟨p, found⟩)
    exact ⟨t, by simpa only [retargetAll, first] using rest⟩

theorem retargetAll_wellFormed (ok : s.WellFormed) (q : Position) (moved : List Label) :
    (retargetAll s q moved).2.WellFormed := by
  induction moved generalizing s with
  | nil => exact ok
  | cons l moved ih =>
    have kept := ok.retarget l q
    match first : s.retarget l q with
    | (.error e, u) =>
      rw [first] at kept
      simpa only [retargetAll, first] using kept
    | (.ok (), u) =>
      rw [first] at kept
      simpa only [retargetAll, first] using ih kept

/-! ### What a splice looks for -/

theorem site_iff : p.site s = .ok site ↔
    p.locate s = .ok site.anchor ∧
    p.resumeAt s site.anchor.span = .ok site.resumeAt ∧
    (if p.mode = .consume && p.template.usesSkip then
      p.skipAt s site.anchor.span site.resumeAt else .ok site.resumeAt) = .ok site.skipAt ∧
    p.allCaptureLoads s site.anchor.span p.captures = .ok site.captures ∧
    site.incoming = (match p.placement with
      | .before => s.labelsAt site.anchor.span.first
      | .after => []) := by
  constructor
  · intro found
    unfold Point.site at found
    split at found
    · cases found
    · next anchor located =>
      split at found
      · cases found
      · next resume continues =>
        dsimp only at found
        split at found
        · cases found
        · next skip skips =>
          split at found
          · cases found
          · next captures loads =>
            cases found
            exact ⟨located, continues, skips, loads, rfl⟩
  · rintro ⟨located, continues, skips, captured, incoming⟩
    simp only [Point.site, located, continues, skips, captured]
    exact congrArg (fun incoming => Except.ok { site with incoming }) incoming.symm

theorem mem_incoming (found : p.site s = .ok site) {l : Label} :
    l ∈ site.incoming ↔ p.placement = .before ∧ s.labels.find? l = some site.resumeAt := by
  obtain ⟨-, continues, -, -, incoming⟩ := site_iff.mp found
  rw [incoming]
  cases placement : p.placement with
  | before =>
    have here : site.anchor.span.first = site.resumeAt := by
      simpa [Point.resumeAt, placement] using continues
    simp [Stream.mem_labelsAt, here]
  | after => simp

theorem skipAt_resume (found : p.site s = .ok site) (unused : p.template.usesSkip = false) :
    site.skipAt = site.resumeAt := by
  obtain ⟨-, -, skips, -⟩ := site_iff.mp found
  simpa [unused, eq_comm] using skips

theorem captureLoads_pushes {anchor : Span} {c : Capture} {code : List Instruction}
    (resolved : p.captureLoads s anchor c = .ok code) : Pushes code := by
  unfold Point.captureLoads at resolved
  split at resolved
  · cases resolved
  · split at resolved
    · cases resolved
    · dsimp only at resolved
      split at resolved
      · next pure =>
        cases resolved
        exact .load pure
      · split at resolved
        · next field =>
          cases resolved
          exact .field field.1
        · cases resolved

theorem allCaptureLoads_ok {anchor : Span} {captures : List Capture}
    {code : List (List Instruction)} (resolved : p.allCaptureLoads s anchor captures = .ok code) :
    captures.Forall₂ (fun c load => p.captureLoads s anchor c = .ok load) code := by
  induction captures generalizing code with
  | nil =>
    cases resolved
    exact .nil
  | cons c captures ih =>
    cases first : p.captureLoads s anchor c with
    | error e => simp [Point.allCaptureLoads, first] at resolved
    | ok load =>
      cases rest : p.allCaptureLoads s anchor captures with
      | error e => simp [Point.allCaptureLoads, first, rest, Except.map] at resolved
      | ok loads =>
        obtain rfl : load :: loads = code := by
          simpa [Point.allCaptureLoads, first, rest, Except.map] using resolved
        exact .cons first (ih rest)

theorem site_simple (found : p.site s = .ok site) : (p.loads site).Simple p.captures.length where
  active := p.active.load_pushes
  captured index inside := by
    obtain ⟨-, -, -, captured, -⟩ := site_iff.mp found
    have related := allCaptureLoads_ok captured
    have inside' : index < site.captures.length := related.length_eq ▸ inside
    exact ⟨site.captures[index], List.getElem?_eq_getElem inside',
      captureLoads_pushes (related.get inside inside')⟩

/-! ### What a splice leaves -/

theorem cut_inserted (distinct : t.positions.Nodup) {serial : Nat} {code : List Instruction}
    {before onward : List Cell} (cells : t.cells = before ++ Stream.numbered serial code ++ onward)
    (nonempty : code ≠ []) :
    t.cut ⟨⟨serial⟩, ⟨serial + code.length - 1⟩⟩ =
      .ok (before, Stream.numbered serial code, onward) := by
  obtain ⟨init, final, rfl⟩ : ∃ init final, code = init ++ [final] :=
    ⟨_, _, (List.dropLast_append_getLast nonempty).symm⟩
  have inside : Stream.numbered serial (init ++ [final]) =
      Stream.numbered serial init ++ [⟨⟨serial + init.length⟩, final⟩] :=
    Stream.numbered_append serial init [final]
  have last : serial + (init ++ [final]).length - 1 = serial + init.length := by simp
  have head : (Stream.numbered serial (init ++ [final])).head?.map (·.pos) = some ⟨serial⟩ := by
    cases init <;> rfl
  simp only [Stream.positions, cells, List.map_append, List.append_assoc] at distinct
  obtain ⟨-, rest, apart⟩ := List.nodup_append.mp distinct
  have first : Stream.splitAt? ⟨serial⟩ t.cells =
      some (before, Stream.numbered serial (init ++ [final]) ++ onward) := by
    refine Stream.split_iff.mpr ⟨by rw [cells, List.append_assoc], fun member => ?_, ?_⟩
    · refine apart _ member _ (List.mem_append_left _ ?_) rfl
      exact Stream.mem_numbered.mpr ⟨Nat.le_refl _, by simp⟩
    · obtain ⟨c, first, here⟩ := Option.map_eq_some_iff.mp head
      simp [List.head?_append, first, here]
  have behind : Stream.splitAt? ⟨serial + init.length⟩
      (Stream.numbered serial (init ++ [final]) ++ onward) =
        some (Stream.numbered serial init, ⟨⟨serial + init.length⟩, final⟩ :: onward) := by
    refine Stream.split_iff.mpr ⟨by simp [inside], fun member => ?_, rfl⟩
    exact absurd (Stream.mem_numbered.mp member).2 (Nat.lt_irrefl _)
  obtain ⟨front, back, there⟩ := Stream.split_of_mem (s := t) (p := ⟨serial + init.length⟩) (by
    simp only [Stream.positions, cells, List.map_append]
    refine List.mem_append_left _ (List.mem_append_right _ ?_)
    exact Stream.mem_numbered.mpr ⟨Nat.le_add_right _ _, by simp⟩)
  simp only [Stream.cut, last, first, there, behind]
  simp [inside]

/-- The stream after a point went in: the template, lowered with new labels for its symbols, stands
in front of the place to go on. -/
structure Spliced (p : Point) (s : Stream) (site : Site) (r : SpliceReport) (t : Stream)
    (name : Symbol → Label) : Prop where
  point : r.point = p.name
  pattern : r.pattern = site.anchor.pattern
  alternative : r.alternative = site.anchor.alternative
  cells : ∃ before onward, s.cells = before ++ onward ∧ before.length = r.index ∧
    t.cells = before ++ Stream.numbered s.nextSerial (p.template.code (p.loads site) name) ++ onward
  index : s.index? site.resumeAt = some r.index
  inserted : r.inserted = p.template.size (p.loads site)
  nonempty : 0 < r.inserted
  serial : t.nextSerial = s.nextSerial + r.inserted
  returns : t.returns = s.returns
  labels : (p.template.symbols.dedup.map name).Perm (s.upcoming p.template.symbols.dedup.length)
  once : (p.template.placed.map name).Nodup
  absent : ∀ symbol ∈ p.template.placed, s.labels.find? (name symbol) = none
  counter : ∃ ls : List Label, ls.Perm (p.template.placed.map name) ∧ t.nextLabel =
    Stream.countPast (s.nextLabel + .ofNat p.template.symbols.dedup.length) ls
  bound : ∀ symbol ∈ p.template.symbols, ∀ binding,
    p.template.Stands (p.loads site) site.resumeAt site.skipAt symbol binding →
      t.labels.find? (name symbol) = some (Stream.bindingPosition s.nextSerial binding)
  moved : ∀ l q, s.labels.find? l = some q → t.labels.find? l =
    some (if p.placement = .before ∧ q = site.resumeAt then ⟨s.nextSerial⟩ else q)
  free : ∀ l, s.labels.find? l = none → (∀ symbol ∈ p.template.symbols, name symbol ≠ l) →
    t.labels.find? l = none
  skips : p.template.usesSkip = true → site.skipAt ∈ s.positions

theorem usesSkip_iff {t : Template} : t.usesSkip = true ↔ .skip ∈ t.symbols := by
  simp only [Template.usesSkip, List.contains_iff_mem, Template.targets, Template.symbols,
    List.mem_filterMap]
  refine exists_congr fun op => and_congr_right fun _ => ?_
  cases op <;> simp [TemplateOp.symbol?, TemplateOp.target?]

theorem report_inserted (distinct : t.positions.Nodup) {serial : Nat} {code : List Instruction}
    {before onward : List Cell} (cells : t.cells = before ++ Stream.numbered serial code ++ onward)
    (nonempty : code ≠ []) (anchor : Stream.Anchor) :
    p.report anchor t ⟨⟨serial⟩, ⟨serial + code.length - 1⟩⟩ =
      .ok ⟨p.name, anchor.pattern, anchor.alternative, before.length, code.length⟩ := by
  have cut := cut_inserted distinct cells nonempty
  have index : t.index? ⟨serial⟩ = some before.length := by
    refine (Stream.index_iff distinct).mpr ?_
    have first : (Stream.numbered serial code)[0]?.map (·.pos) = some ⟨serial⟩ := by
      cases code with
      | nil => exact absurd rfl nonempty
      | cons insn code => rfl
    simpa [Stream.positions, cells, List.getElem?_append, List.length_pos_iff.mpr nonempty]
      using first
  simp only [Point.report, Stream.spanPositions, cut, index]
  simp

/-- A splice finds its site, the lowered block goes in, and the incoming labels move to it. -/
theorem apply_steps (applied : p.apply s = (.ok r, t)) :
    ∃ site span after, p.site s = .ok site ∧
      (p.template.lower (p.loads site) s site.resumeAt site.skipAt).2.insertBefore site.resumeAt
        (p.template.lower (p.loads site) s site.resumeAt site.skipAt).1 = (.ok span, after) ∧
      retargetAll after span.first site.incoming = (.ok (), t) ∧
      p.report site.anchor t span = .ok r := by
  unfold Point.apply at applied
  split at applied
  · cases applied
  next site found =>
  dsimp only at applied
  split at applied
  · cases applied
  next span after went =>
  split at applied
  · cases applied
  next moved retargeted =>
  obtain ⟨told, rfl⟩ := Prod.mk.inj applied
  exact ⟨site, span, after, found, went, retargeted, told⟩

theorem apply_parts (ok : s.WellFormed) (applied : p.apply s = (.ok r, t)) :
    ∃ site block n name before onward after, p.site s = .ok site ∧
      Template.Lowered (p.loads site) s site.resumeAt site.skipAt p.template block
        { s with nextLabel := n } name ∧
      Stream.splitAt? site.resumeAt s.cells = some (before, onward) ∧
      ({ s with nextLabel := n } : Stream).Admits block ∧
      ({ s with nextLabel := n } : Stream).Inserted after before onward block ∧
      after.Retargeted t site.incoming ⟨s.nextSerial⟩ ∧ t.WellFormed ∧
      p.report site.anchor t ⟨⟨s.nextSerial⟩, ⟨s.nextSerial + block.code.length - 1⟩⟩ = .ok r := by
  obtain ⟨site, span, after, found, went, retargeted, told⟩ := apply_steps applied
  obtain ⟨name, lowered⟩ :=
    Template.lower_lowered (p.loads site) s site.resumeAt site.skipAt p.template
  generalize p.template.lower (p.loads site) s site.resumeAt site.skipAt = result at went lowered
  obtain ⟨block, defined⟩ := result
  obtain ⟨n, rfl⟩ : ∃ n, defined = { s with nextLabel := n } := ⟨_, lowered.stream⟩
  simp only at went lowered
  obtain ⟨⟨before, onward⟩, split⟩ :
      ∃ parts, Stream.splitAt? site.resumeAt s.cells = some parts := by
    cases split : Stream.splitAt? site.resumeAt s.cells with
    | none => simp [Stream.insertBefore, split] at went
    | some parts => exact ⟨parts, rfl⟩
  obtain ⟨admits, committed⟩ :=
    (Stream.insertBefore_iff (s := { s with nextLabel := n }) split).mp went
  have inserted := admits.inserted before onward
  rw [committed] at inserted
  obtain rfl : span = ⟨⟨s.nextSerial⟩, ⟨s.nextSerial + block.code.length - 1⟩⟩ :=
    (Prod.mk.inj committed).1.symm
  have kept := retargetAll_wellFormed
    (inserted.wellFormed (s := { s with nextLabel := n }) (Stream.split_iff.mp split).1
      (ok.renumber n) admits)
    ⟨s.nextSerial⟩ site.incoming
  rw [retargeted] at kept
  exact ⟨site, block, n, name, before, onward, after, found, lowered, split, admits, inserted,
    retargetAll_retargeted retargeted, kept, told⟩

theorem apply_spliced (ok : s.WellFormed) (applied : p.apply s = (.ok r, t)) :
    ∃ site name, p.site s = .ok site ∧ p.Spliced s site r t name ∧ t.WellFormed := by
  obtain ⟨site, block, n, name, before, onward, after, found, lowered, split, admits, inserted,
    retargeted, kept, told⟩ := apply_parts ok applied
  obtain ⟨whole, absent, head⟩ := Stream.split_iff.mp split
  have cells : t.cells = before ++ Stream.numbered s.nextSerial block.code ++ onward :=
    retargeted.cells.trans inserted.cells
  rw [report_inserted kept.distinct cells admits.nonempty] at told
  obtain rfl := Except.ok.inj told
  have size : block.code.length = p.template.size (p.loads site) := by
    rw [lowered.code, Template.code_length]
  have taken : ∀ {l}, l ∈ block.bindings.map (·.1) → s.labels.find? l = none := by
    intro l member
    obtain ⟨e, here, rfl⟩ := List.mem_map.mp member
    exact admits.free e here
  have old : ∀ l, (∀ symbol ∈ p.template.symbols, name symbol ≠ l) →
      after.labels.find? l = s.labels.find? l := by
    intro l other
    refine inserted.kept fun member => ?_
    obtain ⟨⟨k, binding⟩, here, rfl⟩ := List.mem_map.mp member
    obtain ⟨symbol, known, named, -⟩ := (lowered.bound k binding).mp here
    exact other symbol known named
  refine ⟨site, name, found, ⟨rfl, rfl, rfl, ⟨before, onward, whole, rfl, ?_⟩, ?_, size, ?_, ?_, ?_,
    lowered.labels, lowered.placed.nodup_iff.mp admits.once, ?_, ⟨_, lowered.placed, ?_⟩, ?_, ?_, ?_,
    ?_⟩, kept⟩
  · rw [cells, lowered.code]
  · simp [Stream.index?, split]
  · exact List.length_pos_iff.mpr admits.nonempty
  · rw [retargeted.serial, inserted.serial]
  · exact retargeted.returns.trans inserted.returns
  · exact fun symbol known =>
      taken (lowered.placed.mem_iff.mpr (List.mem_map_of_mem known))
  · rw [retargeted.labels, inserted.counter, congrArg Stream.nextLabel lowered.stream]
  · intro symbol known binding stands
    have here := (lowered.bound _ _).mpr ⟨symbol, known, rfl, stands⟩
    rw [retargeted.find, if_neg]
    · exact inserted.bound here
    · intro member
      have bound := ((mem_incoming found).mp member).2
      simp [taken (List.mem_map_of_mem here)] at bound
  · intro l q here
    have kept : after.labels.find? l = some q := by
      refine (inserted.kept fun member => ?_).trans here
      simp [taken member] at here
    simp only [retargeted.find, mem_incoming found, kept, here, Option.some.injEq]
    split <;> rfl
  · intro l nowhere other
    simp only [retargeted.find, mem_incoming found, old l other, nowhere, reduceCtorEq, and_false,
      if_false]
  · intro uses
    have known := usesSkip_iff.mp uses
    exact admits.holds _ ((lowered.bound _ _).mpr ⟨.skip, known, rfl, .skip⟩)

/-! ### The labels of a splice -/

section Labels

variable {name : Symbol → Label} {captures : Nat} {maySkip : Bool} {n : Nat}

theorem Spliced.mem_upcoming (spliced : p.Spliced s site r t name) {l : Label} :
    l ∈ s.upcoming p.template.symbols.dedup.length ↔
      ∃ symbol ∈ p.template.symbols, name symbol = l := by
  simp only [← spliced.labels.mem_iff, List.mem_map, List.mem_dedup]

theorem Spliced.unbound (spliced : p.Spliced s site r t name)
    (sound : p.template.Sound captures maySkip) {symbol : Symbol}
    (known : symbol ∈ p.template.symbols) : s.labels.find? (name symbol) = none :=
  spliced.absent symbol (sound.placed_perm.mem_iff.mpr (List.mem_dedup.mpr known))

theorem Spliced.apart (spliced : p.Spliced s site r t name)
    (sound : p.template.Sound captures maySkip) :
    ∀ a ∈ p.template.symbols, ∀ b ∈ p.template.symbols, name a = name b → a = b := by
  have placed : ∀ {symbol}, symbol ∈ p.template.symbols → symbol ∈ p.template.placed :=
    fun known => sound.placed_perm.mem_iff.mpr (List.mem_dedup.mpr known)
  exact fun a first b second => List.inj_on_of_nodup_map spliced.once (placed first) (placed second)

/-- A splice takes as many numbers as its template has symbols. -/
theorem Spliced.room (spliced : p.Spliced s site r t name)
    (sound : p.template.Sound captures maySkip)
    (room : s.HasRoom (p.template.symbols.dedup.length + n)) :
    t.nextLabel.toNat = s.nextLabel.toNat + p.template.symbols.dedup.length ∧ t.HasRoom n := by
  have enough := room.mono (Nat.le_add_right _ n)
  have value := Stream.toNat_ahead enough.fits
  obtain ⟨ls, same, next⟩ := spliced.counter
  have below : ∀ l ∈ ls, l.id.toNat < s.nextLabel.toNat + p.template.symbols.dedup.length := by
    intro l member
    have among := ((same.trans (sound.placed_perm.map name)).trans spliced.labels).mem_iff.mp member
    exact ((Stream.mem_upcoming_iff enough.fits).mp among).2
  obtain ⟨least, most, -⟩ := Stream.countPast_above enough.fits (Nat.le_of_eq value) below
  rw [← next, UInt32.le_iff_toNat_le, value] at least
  rw [← next] at most
  have exact := Nat.le_antisymm most least
  refine ⟨exact, fun l q here => UInt32.lt_iff_toNat_lt.mpr ?_, by have := room.fits; omega⟩
  by_cases new : ∃ symbol ∈ p.template.symbols, name symbol = l
  · rw [exact]
    exact ((Stream.mem_upcoming_iff enough.fits).mp (spliced.mem_upcoming.mpr new)).2
  · cases old : s.labels.find? l with
    | none =>
      have nowhere := spliced.free l old fun symbol known same => new ⟨symbol, known, same⟩
      simp [nowhere] at here
    | some q =>
      have bound := UInt32.lt_iff_toNat_lt.mp (room.counted l q old)
      omega

end Labels

end Point

end Interpose

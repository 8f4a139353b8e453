import Interpose.Proofs.Pattern.Minimal
import Interpose.Proofs.Pattern.Scan
import Interpose.Proofs.Splice.Locate

/-!
The searches beside each other. The search for all windows, the one from a position, the one of a
cursor and the one of a point that takes the first window find the same. A point that wants a single
window counts those that the search for all finds, and there can be others: they start inside the
one that it gets.
-/

set_option autoImplicit false
set_option relaxedAutoImplicit false

namespace Interpose

namespace Stream

variable {s : Stream} {p : Point} {anchor : Anchor}

/-! ### One result -/

theorem findIn_eq_head (pattern : Pattern) (cells : List Cell) :
    pattern.findIn cells = (pattern.scan 0 cells).head? := by
  induction cells with
  | nil => rfl
  | cons c cells ih =>
    simp only [Pattern.findIn, Pattern.scan]
    split
    · rfl
    · exact ih

theorem locate_first_eq_findFirst (p : Point) (s : Stream) :
    (p.under .first).locate s =
      (s.findFirst p.anchors).mapError (.patternNotFound p.name) := by
  have each : ∀ patterns index, (p.under .first).locateAmong s index patterns =
      (s.findAmong index patterns).elim
        (.error (.patternNotFound p.name p.anchors.describe)) .ok := by
    intro patterns
    induction patterns with
    | nil => exact fun _ => rfl
    | cons pattern patterns ih =>
      intro index
      simp only [Point.locateAmong, Point.accept, Point.under, findAmong, findIn_eq_head,
        findAll] at ih ⊢
      cases (pattern.scan 0 s.cells).head? with
      | none => exact ih (index + 1)
      | some span => rfl
  have whole := each p.anchors.alternatives 0
  rw [findFirst]
  generalize s.findAmong 0 p.anchors.alternatives = found at whole
  cases found <;> exact whole

theorem gotoNextPattern_eq (s : Stream) (current : Option Position) (pattern : Pattern) :
    Cursor.gotoNextPattern ⟨s, current⟩ pattern =
      match current.bind (s.findFrom · pattern) with
      | some span => (.ok span, ⟨s, s.next? span.last⟩)
      | none => (.error (.notFound pattern.text), ⟨s, current⟩) := by
  cases current <;> rfl

/-- The search for all windows goes from window to window. What it gives are windows, in order and
apart, and every other window starts in one of them. The search from the first instruction finds the
first of them; a cursor goes behind the window that the search from its position finds, or stays; and
a point that takes the first window finds what the search through its alternatives finds. -/
theorem searches_agree (reached : s.Reachable) (pattern : Pattern) :
    (∀ spans, s.Sweeps pattern s.first? spans ↔ spans = s.findAll pattern) ∧
    (∀ span ∈ s.findAll pattern, s.matchAt span.first pattern = some span) ∧
    (s.findAll pattern).Pairwise (fun a b => s.Ahead a b ∧ ∀ q, s.Within a q → ¬s.Within b q) ∧
    (∀ q span, s.matchAt q pattern = some span → ∃ other ∈ s.findAll pattern, s.Within other q) ∧
    (∀ q found, s.Seeks pattern (some q) found ↔ found = s.findFrom q pattern) ∧
    s.first?.bind (s.findFrom · pattern) = (s.findAll pattern).head? ∧
    (∀ current, Cursor.gotoNextPattern ⟨s, current⟩ pattern =
      match current.bind (s.findFrom · pattern) with
      | some span => (.ok span, ⟨s, s.next? span.last⟩)
      | none => (.error (.notFound pattern.text), ⟨s, current⟩)) ∧
    ∀ p : Point, (p.under .first).locate s =
      (s.findFirst p.anchors).mapError (.patternNotFound p.name) := by
  have distinct := reached.wellFormed.distinct
  have sweeps := (sweeps_iff distinct).mpr (rfl : s.findAll pattern = _)
  refine ⟨fun spans => sweeps_iff distinct, fun span => sweeps.matches distinct, ?_, ?_,
    fun q found => seeks_iff distinct, ?_, fun current => gotoNextPattern_eq s current pattern,
    fun p => locate_first_eq_findFirst p s⟩
  · exact (sweeps.ordered distinct (first_eq_position s)).imp fun ahead =>
      ⟨ahead, fun q => ahead.apart distinct⟩
  · intro q span found
    cases index : s.index? q with
    | none => cases (matchAt_absent index).symm.trans found
    | some i =>
      exact sweeps.complete distinct (first_eq_position s) found index (Nat.zero_le i)
  · have seeks := sweeps.head
    cases first : s.first? with
    | none =>
      rw [first] at seeks
      exact Seeks.done.unique seeks
    | some q =>
      rw [first] at seeks
      exact ((seeks_iff distinct).mp seeks).symm

theorem two_drops_searched : ∃ s,
    ofBody ⟨[.ldarg 0, .pop, .ldarg 1, .dup, .pop, .ret], .empty, false⟩ = .ok s ∧
    s.Sweeps loadAndDrop s.first? [⟨⟨0⟩, ⟨1⟩⟩, ⟨⟨2⟩, ⟨4⟩⟩] ∧
    Cursor.gotoNextPattern ⟨s, some ⟨1⟩⟩ loadAndDrop =
      (.ok ⟨⟨2⟩, ⟨4⟩⟩, ⟨s, some ⟨5⟩⟩) := by
  obtain ⟨s, loaded⟩ : ∃ s,
      ofBody ⟨[.ldarg 0, .pop, .ldarg 1, .dup, .pop, .ret], .empty, false⟩ = .ok s := ⟨_, rfl⟩
  obtain ⟨all, -, -, -, -, -, goes, -⟩ := searches_agree (.loaded loaded) loadAndDrop
  refine ⟨s, loaded, (all _).mpr ?_, (goes _).trans ?_⟩ <;> cases loaded <;> rfl

/-! ### A single window -/

/-- Where all windows are one span, any other window starts inside that span, behind its start. -/
theorem Sweeps.inside (distinct : s.positions.Nodup) {pattern : Pattern} {span other : Span}
    (sweeps : s.Sweeps pattern s.first? [span]) {q : Position}
    (found : s.matchAt q pattern = some other) (apart : q ≠ span.first) :
    s.Inside pattern span other := by
  obtain ⟨rfl, places, shape⟩ := (matchAt_iff distinct).mp found
  obtain ⟨k, places, rfl⟩ := shape.window.eq_cons
  obtain ⟨_, member, i, j, n, first, here, last, le, within⟩ :=
    sweeps.complete distinct (first_eq_position s) found shape.first (Nat.zero_le k)
  obtain rfl := List.mem_singleton.mp member
  refine ⟨found, i, j, n, (index_iff distinct).mpr first, (index_iff distinct).mpr last,
    (index_iff distinct).mpr here, Nat.lt_of_le_of_ne le ?_, within⟩
  rintro rfl
  exact apart (Option.some.inj (here.symm.trans first))

theorem Sweeps.again (distinct : s.positions.Nodup) {pattern : Pattern} {span other : Span}
    (sweeps : s.Sweeps pattern s.first? [span]) {places : List Nat}
    (shape : s.Matches pattern span places) {q : Position}
    (found : s.matchAt q pattern = some other) (apart : q ≠ span.first) :
    ∃ k ∈ places.tail, s.index? q = some k := by
  obtain ⟨i, places, rfl⟩ := shape.window.eq_cons
  obtain ⟨k, others, inner, -, member, -⟩ :=
    shape.inside distinct (sweeps.inside distinct found apart)
  obtain ⟨rfl, -⟩ := (matchAt_iff distinct).mp found
  exact ⟨k, member, inner.first⟩

/-- The pattern matches once exactly if it does not match from an instruction that a later step
took. -/
theorem Sweeps.once_iff (distinct : s.positions.Nodup) {pattern : Pattern} {span : Span}
    (sweeps : s.Sweeps pattern s.first? [span]) {places : List Nat}
    (shape : s.Matches pattern span places) :
    (∀ q other, s.matchAt q pattern = some other → q = span.first) ↔
      ∀ k ∈ places.tail, ∀ q, s.index? q = some k → s.matchAt q pattern = none := by
  constructor
  · intro only k member q index
    obtain ⟨i, places, rfl⟩ := shape.window.eq_cons
    obtain ⟨-, -, -, follow⟩ := shape.window
    -- a later place is not that of the first step
    obtain ⟨behind, -⟩ := follow.between member
    by_contra matched
    obtain ⟨other, found⟩ := Option.ne_none_iff_exists'.mp matched
    rw [only q other found, shape.first] at index
    exact absurd (Option.some.inj index) (Nat.ne_of_lt behind)
  · intro silent q other found
    by_contra apart
    obtain ⟨k, member, index⟩ := sweeps.again distinct shape found apart
    cases found.symm.trans (silent k member q index)

theorem matchAt_refused (distinct : s.positions.Nodup) {pattern : Pattern} {q : Position} {k : Nat}
    (index : s.index? q = some k)
    (refused : ∀ first, pattern.steps.head? = some first → ∀ insn, s.code[k]? = some insn →
      first.predicate.accepts insn = false) : s.matchAt q pattern = none := by
  by_contra matched
  obtain ⟨span, found⟩ := Option.ne_none_iff_exists'.mp matched
  obtain ⟨rfl, places, shape⟩ := (matchAt_iff distinct).mp found
  obtain ⟨i, places, rfl⟩ := shape.window.eq_cons
  obtain rfl : k = i := Option.some.inj (index.symm.trans shape.first)
  obtain ⟨first, insn, head, here, accepted⟩ := shape.accepted
  have rejected := refused first head insn here
  rw [accepted] at rejected
  cases rejected

/-- A point that wants a single window gets the only one of the search for all. Where the pattern
matches again, it does so inside that window, from an instruction that a later step took. So it
matches once exactly if it does not match from any of these, as it cannot if they do not satisfy the
first step. -/
theorem unique_anchor_apart (reached : s.Reachable) {point : Point}
    (unique : point.occurrence = .unique) (located : point.locate s = .ok anchor) :
    ∃ pattern places, point.anchors.alternatives[anchor.alternative]? = some pattern ∧
      anchor.pattern = pattern.name ∧ s.findAll pattern = [anchor.span] ∧
      s.matchAt anchor.span.first pattern = some anchor.span ∧
      s.Matches pattern anchor.span places ∧
      (∀ q span, s.matchAt q pattern = some span → q ≠ anchor.span.first →
        s.Inside pattern anchor.span span ∧ ∃ k ∈ places.tail, s.index? q = some k) ∧
      ((∀ q span, s.matchAt q pattern = some span → q = anchor.span.first) ↔
        ∀ k ∈ places.tail, ∀ q, s.index? q = some k → s.matchAt q pattern = none) ∧
      ((∀ first, pattern.steps.head? = some first → ∀ k ∈ places.tail, ∀ insn,
        s.code[k]? = some insn → first.predicate.accepts insn = false) →
        ∀ q span, s.matchAt q pattern = some span → q = anchor.span.first) := by
  have distinct := reached.wellFormed.distinct
  obtain ⟨pattern, decides, named, all⟩ := Point.locate_unique unique located
  have sweeps := (sweeps_iff distinct).mpr all.symm
  have matched := sweeps.matches distinct List.mem_cons_self
  obtain ⟨-, places, shape⟩ := (matchAt_iff distinct).mp matched
  have once := sweeps.once_iff distinct shape
  refine ⟨pattern, places, decides.alternative, named, all, matched, shape, ?_, once, ?_⟩
  · intro q span found apart
    exact ⟨sweeps.inside distinct found apart, sweeps.again distinct shape found apart⟩
  · intro refused
    refine once.mpr fun k member q index => ?_
    exact matchAt_refused distinct index fun first here => refused first here k member

def pairPoint : PointDraft :=
  .make .augment "watch" ⟨"Capable"⟩
    ⟨⟨"pair", [⟨0, .opcode .nop⟩, ⟨0, .opcode .nop⟩]⟩, []⟩

theorem lone_pair_matches_once : ∃ s p anchor pattern,
    ofBody ⟨[.nop, .nop, .ret], .empty, false⟩ = .ok s ∧ pairPoint.build = .ok p ∧
    p.occurrence = .unique ∧ p.locate s = .ok anchor ∧
    p.anchors.alternatives[anchor.alternative]? = some pattern ∧
    ∀ q span, s.matchAt q pattern = some span → q = anchor.span.first := by
  obtain ⟨s, loaded⟩ : ∃ s, ofBody ⟨[.nop, .nop, .ret], .empty, false⟩ = .ok s := ⟨_, rfl⟩
  obtain ⟨p, built⟩ : ∃ p, pairPoint.build = .ok p := ⟨_, rfl⟩
  have unique : p.occurrence = .unique := by
    cases built
    rfl
  have located : p.locate s = .ok ⟨⟨⟨0⟩, ⟨1⟩⟩, 0, "pair"⟩ := by
    cases loaded
    cases built
    rfl
  obtain ⟨pattern, places, alternative, -, -, -, shape, -, once, -⟩ :=
    unique_anchor_apart (.loaded loaded) unique located
  refine ⟨s, p, _, pattern, loaded, built, unique, located, alternative, once.mpr ?_⟩
  intro k member q index
  obtain ⟨i, places, rfl⟩ := shape.window.eq_cons
  obtain ⟨-, -, -, follow⟩ := shape.window
  obtain ⟨behind, inside⟩ := follow.between member
  have end_ : places.getLastD i = 1 := shape.last_index.mp (by cases loaded; rfl)
  obtain rfl : k = 1 := by omega
  have there := (index_iff (Reachable.loaded loaded).wellFormed.distinct).mp index
  cases loaded
  cases built
  cases alternative
  obtain rfl := Option.some.inj there
  rfl

/-- Of three instructions of one kind the last two are a pair as well, which begins in the first
pair. -/
theorem unique_pair_matches_twice : ∃ s p anchor pattern,
    ofBody ⟨[.nop, .nop, .nop, .ret], .empty, false⟩ = .ok s ∧ s.Reachable ∧
    pairPoint.build = .ok p ∧ p.occurrence = .unique ∧ p.locate s = .ok anchor ∧
    p.anchors.alternatives[anchor.alternative]? = some pattern ∧
    s.matchAt ⟨0⟩ pattern = some ⟨⟨0⟩, ⟨1⟩⟩ ∧ s.matchAt ⟨1⟩ pattern = some ⟨⟨1⟩, ⟨2⟩⟩ ∧
    ¬∃ q, ∀ r, (∃ span, s.matchAt r pattern = some span) ↔ r = q := by
  obtain ⟨s, loaded⟩ : ∃ s, ofBody ⟨[.nop, .nop, .nop, .ret], .empty, false⟩ = .ok s := ⟨_, rfl⟩
  obtain ⟨p, built⟩ : ∃ p, pairPoint.build = .ok p := ⟨_, rfl⟩
  obtain ⟨pattern, anchor, unique, located, alternative, first, second⟩ :
      ∃ pattern anchor, p.occurrence = .unique ∧ p.locate s = .ok anchor ∧
        p.anchors.alternatives[anchor.alternative]? = some pattern ∧
        s.matchAt ⟨0⟩ pattern = some ⟨⟨0⟩, ⟨1⟩⟩ ∧ s.matchAt ⟨1⟩ pattern = some ⟨⟨1⟩, ⟨2⟩⟩ := by
    cases loaded
    cases built
    exact ⟨_, _, rfl, rfl, rfl, rfl, rfl⟩
  refine ⟨s, p, anchor, pattern, loaded, .loaded loaded, built, unique, located, alternative, first,
    second, ?_⟩
  rintro ⟨q, only⟩
  have same : (⟨0⟩ : Position) = ⟨1⟩ :=
    ((only _).mp ⟨_, first⟩).trans ((only _).mp ⟨_, second⟩).symm
  exact absurd same (by decide)

end Stream

end Interpose

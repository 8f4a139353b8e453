import Interpose.Proofs.Pattern.Window

/-!
How small the windows are that a search reports. A window never holds another one that ends before
it does. It can hold a shorter one that ends with it, which then starts at an instruction that
satisfied a later step: what is skipped may not satisfy the first step, but what a step takes may.
-/

set_option autoImplicit false
set_option relaxedAutoImplicit false

namespace Interpose

namespace Pattern

variable {p : Pattern} {code : List Instruction} {first : Predicate} {steps : List Step}
  {i k : Nat} {places others : List Nat} {free : List Step → Instruction → Prop}

theorem Follow.mem_places (follow : Follow code (Skippable first) i steps places) (behind : i < k)
    (inside : k ≤ places.getLastD i) {insn : Instruction} (here : code[k]? = some insn)
    (accepted : first.accepts insn = true) : k ∈ places := by
  induction follow with
  | done i => exact absurd inside (Nat.not_le.mpr behind)
  | @next i j _ _ _ _ _ _ _ _ skipped _ ih =>
    rcases Nat.lt_trichotomy k j with before | rfl | later
    · have rejected := (skipped k insn behind before here).1
      rw [accepted] at rejected
      cases rejected
    · exact List.mem_cons_self
    · rw [List.getLastD_cons] at inside
      exact List.mem_cons_of_mem _ (ih later inside)

theorem Follow.between (follow : Follow code free i steps places) (member : k ∈ places) :
    i < k ∧ k ≤ places.getLastD i := by
  induction follow with
  | done i => cases member
  | next less _ _ _ _ follow ih =>
    rw [List.getLastD_cons]
    rcases List.mem_cons.mp member with rfl | member
    · exact ⟨less, follow.le_last⟩
    · obtain ⟨behind, inside⟩ := ih member
      exact ⟨Nat.lt_trans less behind, inside⟩

theorem Follow.length_le (follow : Follow code free i steps places) :
    i + steps.length ≤ places.getLastD i := by
  induction follow with
  | done i => exact Nat.le_refl i
  | next less _ _ _ _ _ ih =>
    rw [List.getLastD_cons, List.length_cons]
    omega

theorem Follow.last_of_contiguous (follow : Follow code free i steps places)
    (tight : ∀ step ∈ steps, step.maxGap = 0) : places.getLastD i = i + steps.length := by
  induction follow with
  | done i => rfl
  | next less near _ _ _ _ ih =>
    rw [List.getLastD_cons, ih fun step member => tight step (List.mem_cons_of_mem _ member),
      List.length_cons]
    have none := tight _ List.mem_cons_self
    omega

/-! ### Searches -/

theorem findIn_window {cells : List Cell} {span : Span} (found : p.findIn cells = some span) :
    ∃ k n, p.windowSpan? (cells.drop k) = some (span, n) := by
  induction cells with
  | nil => cases found
  | cons c cells ih =>
    unfold findIn at found
    split at found
    · next window =>
      obtain rfl := Option.some.inj found
      exact ⟨0, _, window⟩
    · obtain ⟨k, n, window⟩ := ih found
      exact ⟨k + 1, n, window⟩

theorem scan_window {skip : Nat} {cells : List Cell} {span : Span}
    (found : span ∈ p.scan skip cells) : ∃ k n, p.windowSpan? (cells.drop k) = some (span, n) := by
  induction cells generalizing skip with
  | nil => cases skip <;> cases found
  | cons c cells ih =>
    have later : ∀ {skip : Nat}, span ∈ p.scan skip cells →
        ∃ k n, p.windowSpan? ((c :: cells).drop k) = some (span, n) := by
      intro skip found
      obtain ⟨k, n, window⟩ := ih found
      exact ⟨k + 1, n, window⟩
    cases skip with
    | succ skip => exact later found
    | zero =>
      unfold scan at found
      split at found
      · next window =>
        rcases List.mem_cons.mp found with rfl | found
        · exact ⟨0, _, window⟩
        · exact later found
      · exact later found

end Pattern

namespace Stream

variable {s : Stream} {p : Pattern} {span : Span} {places : List Nat}

/-- A search from some position, or the search for all windows, gives the span. -/
def Reports (s : Stream) (p : Pattern) (span : Span) : Prop :=
  (∃ q, s.findFrom q p = some span) ∨ span ∈ s.findAll p

structure Inside (s : Stream) (p : Pattern) (span inner : Span) : Prop where
  matched : s.matchAt inner.first p = some inner
  starts : ∃ i j k, s.index? span.first = some i ∧ s.index? span.last = some j ∧
    s.index? inner.first = some k ∧ i < k ∧ k ≤ j

/-- No window that starts in the span, behind its first instruction, ends in it. -/
def Minimal (s : Stream) (p : Pattern) (span : Span) : Prop :=
  ∀ inner, s.Inside p span inner → ∀ j l, s.index? span.last = some j →
    s.index? inner.last = some l → j < l

theorem Reports.matches (ok : s.WellFormed) (reported : s.Reports p span) :
    ∃ places, s.Matches p span places := by
  have window : ∀ {k n}, p.windowSpan? (s.cells.drop k) = some (span, n) →
      ∃ places, s.Matches p span places := by
    intro k n window
    obtain ⟨places, fits, -⟩ := (windowSpan_iff ok.distinct).mp window
    exact ⟨_, fits⟩
  rcases reported with ⟨q, found⟩ | found
  · obtain ⟨k, n, found⟩ := Pattern.findIn_window found
    cases index : s.index? q with
    | none =>
      rw [onward_absent index, List.drop_nil] at found
      cases found
    | some i =>
      rw [onward_at index, List.drop_drop] at found
      exact window found
  · obtain ⟨k, n, found⟩ := Pattern.scan_window found
    exact window found

theorem Matches.last_index {i j : Nat} (shape : s.Matches p span (i :: places)) :
    s.index? span.last = some j ↔ places.getLastD i = j := by
  rw [shape.last, Pattern.last_place, Option.some.injEq]

theorem Matches.accepted {i : Nat} (shape : s.Matches p span (i :: places)) :
    ∃ first insn, p.steps.head? = some first ∧ s.code[i]? = some insn ∧
      first.predicate.accepts insn = true := by
  obtain ⟨steps, here, accepted, -⟩ := shape.window
  exact ⟨_, _, by rw [steps]; rfl, here, accepted⟩

/-- A window that starts in another one starts at the place of a later step, and does not end
earlier. -/
theorem Matches.inside {i : Nat} {inner : Span} (distinct : s.positions.Nodup)
    (outer : s.Matches p span (i :: places)) (within : s.Inside p span inner) :
    ∃ k others, s.Matches p inner (k :: others) ∧ i < k ∧ k ∈ places ∧
      places.getLastD i ≤ others.getLastD k := by
  obtain ⟨matched, _, j, k, first, last, starts, behind, inside⟩ := within
  obtain ⟨-, all, shape⟩ := (matchAt_iff distinct).mp matched
  obtain ⟨m, others, rfl⟩ := shape.window.eq_cons
  obtain rfl : k = m := Option.some.inj (starts.symm.trans shape.first)
  obtain rfl := Option.some.inj (first.symm.trans outer.first)
  obtain rfl := outer.last_index.mp last
  refine ⟨k, others, shape, behind, ?_, Pattern.getLastD_le
    (outer.window.ahead (Nat.le_of_lt behind) shape.window) (Nat.le_of_lt behind)⟩
  obtain ⟨steps, -, -, follow⟩ := outer.window
  obtain ⟨steps', here, accepted, -⟩ := shape.window
  obtain ⟨rfl, rfl⟩ := List.cons.inj (steps.symm.trans steps')
  exact follow.mem_places behind inside here accepted

theorem Matches.not_before {i : Nat} {inner : Span} (distinct : s.positions.Nodup)
    (outer : s.Matches p span (i :: places)) (within : s.Inside p span inner) {j l : Nat}
    (last : s.index? span.last = some j) (last' : s.index? inner.last = some l) : j ≤ l := by
  obtain ⟨k, others, shape, -, -, after⟩ := outer.inside distinct within
  rwa [outer.last_index.mp last, shape.last_index.mp last'] at after

/-- What makes a window less than minimal is a second one that starts where a later step has its
place, and ends with the first. -/
theorem Matches.minimal_iff {i : Nat} (distinct : s.positions.Nodup)
    (outer : s.Matches p span (i :: places)) :
    s.Minimal p span ↔
      ∀ k ∈ places, ∀ q, s.index? q = some k → s.matchAt q p ≠ some ⟨q, span.last⟩ := by
  have ended := outer.last_index.mpr rfl
  constructor
  · intro minimal k member q index matched
    obtain ⟨-, -, -, follow⟩ := outer.window
    obtain ⟨behind, inside⟩ := follow.between member
    exact Nat.lt_irrefl _ (minimal ⟨q, span.last⟩
      ⟨matched, _, _, k, outer.first, ended, index, behind, inside⟩ _ _ ended ended)
  · intro apart inner within j l last last'
    refine Nat.lt_of_le_of_ne (outer.not_before distinct within last last') ?_
    -- were both to end at one index, they would end at one position
    rintro rfl
    obtain ⟨k, others, shape, -, member, -⟩ := outer.inside distinct within
    obtain ⟨c, here, one⟩ := (index_cell distinct).mp last
    obtain ⟨d, there, two⟩ := (index_cell distinct).mp last'
    have same : span.last = inner.last := by
      rw [← one, ← two, Option.some.inj (here.symm.trans there)]
    refine apart k member inner.first shape.first ?_
    rw [same]
    exact within.matched

theorem Matches.minimal_of_refused {i : Nat} (distinct : s.positions.Nodup)
    (outer : s.Matches p span (i :: places))
    (refused : ∀ first, p.steps.head? = some first → ∀ k ∈ places, ∀ insn, s.code[k]? = some insn →
      first.predicate.accepts insn = false) : s.Minimal p span := by
  intro inner within
  obtain ⟨k, others, shape, -, member, -⟩ := outer.inside distinct within
  obtain ⟨first, insn, head, here, accepted⟩ := shape.accepted
  have rejected := refused first head k member insn here
  rw [accepted] at rejected
  cases rejected

theorem Matches.minimal_of_contiguous {i : Nat} (distinct : s.positions.Nodup)
    (outer : s.Matches p span (i :: places)) (tight : ∀ step ∈ p.steps.tail, step.maxGap = 0) :
    s.Minimal p span := by
  intro inner within j l last last'
  obtain ⟨k, others, shape, behind, -, -⟩ := outer.inside distinct within
  obtain ⟨steps, -, -, follow⟩ := outer.window
  obtain ⟨steps', -, -, follow'⟩ := shape.window
  obtain ⟨rfl, rfl⟩ := List.cons.inj (steps.symm.trans steps')
  rw [steps, List.tail_cons] at tight
  have short := follow.last_of_contiguous tight
  have long := follow'.length_le
  rw [outer.last_index.mp last] at short
  rw [shape.last_index.mp last'] at long
  omega

/-- A window that a search reports holds no other one that ends before it. It is minimal exactly if
the pattern does not match again, up to the same end, from the place of a later step. So it is minimal
if no later step took an instruction that satisfies the first one, and if the pattern has no gaps. -/
theorem reported_minimal_iff (reached : s.Reachable) (reported : s.Reports p span) :
    ∃ places, s.Matches p span places ∧
      (∀ inner, s.Inside p span inner → ∀ j l, s.index? span.last = some j →
        s.index? inner.last = some l → j ≤ l) ∧
      (s.Minimal p span ↔ ∀ k ∈ places.tail, ∀ q, s.index? q = some k →
        s.matchAt q p ≠ some ⟨q, span.last⟩) ∧
      ((∀ first, p.steps.head? = some first → ∀ k ∈ places.tail, ∀ insn, s.code[k]? = some insn →
        first.predicate.accepts insn = false) → s.Minimal p span) ∧
      ((∀ step ∈ p.steps.tail, step.maxGap = 0) → s.Minimal p span) := by
  have distinct := reached.wellFormed.distinct
  obtain ⟨all, outer⟩ := reported.matches reached.wellFormed
  obtain ⟨i, places, rfl⟩ := outer.window.eq_cons
  exact ⟨_, outer, fun _ within _ _ last last' => outer.not_before distinct within last last',
    outer.minimal_iff distinct, outer.minimal_of_refused distinct,
    outer.minimal_of_contiguous distinct⟩

theorem shorter_loadAndDrop_minimal : ∃ s,
    ofBody ⟨[.ldarg 0, .ldarg 1, .pop, .ret], .empty, false⟩ = .ok s ∧
    s.findFrom ⟨0⟩ loadAndDrop = some ⟨⟨1⟩, ⟨2⟩⟩ ∧ s.Minimal loadAndDrop ⟨⟨1⟩, ⟨2⟩⟩ := by
  obtain ⟨s, loaded, code, found, first, last⟩ : ∃ s,
      ofBody ⟨[.ldarg 0, .ldarg 1, .pop, .ret], .empty, false⟩ = .ok s ∧
      s.code = [.ldarg 0, .ldarg 1, .pop, .ret] ∧
      s.findFrom ⟨0⟩ loadAndDrop = some ⟨⟨1⟩, ⟨2⟩⟩ ∧
      s.index? ⟨1⟩ = some 1 ∧ s.index? ⟨2⟩ = some 2 :=
    ⟨_, rfl, rfl, rfl, rfl, rfl⟩
  obtain ⟨places, outer, -, -, apart, -⟩ :=
    reported_minimal_iff (.loaded loaded) (p := loadAndDrop) (.inl ⟨_, found⟩)
  refine ⟨s, loaded, found, apart ?_⟩
  rintro _ ⟨⟩ k member insn here
  obtain ⟨i, rest, rfl⟩ := outer.window.eq_cons
  obtain ⟨⟨⟩, -, -, follow⟩ := outer.window
  obtain rfl : 1 = i := Option.some.inj (first.symm.trans outer.first)
  obtain ⟨behind, inside⟩ := follow.between member
  rw [outer.last_index.mp last] at inside
  obtain rfl : k = 2 := by omega
  rw [code] at here
  obtain rfl := Option.some.inj here
  rfl

/-- A load, another load or a copy right behind it, and a drop at most one instruction later. -/
def pairAndDrop : Pattern :=
  ⟨"copy", [⟨0, .opcode .ldarg⟩, ⟨0, (Predicate.opcode .ldarg).or (.opcode .dup)⟩,
    ⟨1, .opcode .pop⟩]⟩

/-- The second load of two is the second step of a window and the first step of a shorter one. -/
theorem pairAndDrop_not_minimal : ∃ s,
    ofBody ⟨[.ldarg 0, .ldarg 0, .dup, .pop, .ret], .empty, false⟩ = .ok s ∧ s.Reachable ∧
    s.findFrom ⟨0⟩ pairAndDrop = some ⟨⟨0⟩, ⟨3⟩⟩ ∧ ⟨⟨0⟩, ⟨3⟩⟩ ∈ s.findAll pairAndDrop ∧
    s.Inside pairAndDrop ⟨⟨0⟩, ⟨3⟩⟩ ⟨⟨1⟩, ⟨3⟩⟩ ∧ ¬ s.Minimal pairAndDrop ⟨⟨0⟩, ⟨3⟩⟩ := by
  obtain ⟨s, loaded, found, all, matched, first, second, last⟩ : ∃ s,
      ofBody ⟨[.ldarg 0, .ldarg 0, .dup, .pop, .ret], .empty, false⟩ = .ok s ∧
      s.findFrom ⟨0⟩ pairAndDrop = some ⟨⟨0⟩, ⟨3⟩⟩ ∧ s.findAll pairAndDrop = [⟨⟨0⟩, ⟨3⟩⟩] ∧
      s.matchAt ⟨1⟩ pairAndDrop = some ⟨⟨1⟩, ⟨3⟩⟩ ∧
      s.index? ⟨0⟩ = some 0 ∧ s.index? ⟨1⟩ = some 1 ∧ s.index? ⟨3⟩ = some 3 :=
    ⟨_, rfl, rfl, rfl, rfl, rfl, rfl, rfl⟩
  have within : s.Inside pairAndDrop ⟨⟨0⟩, ⟨3⟩⟩ ⟨⟨1⟩, ⟨3⟩⟩ :=
    ⟨matched, 0, 3, 1, first, last, second, by decide, by decide⟩
  refine ⟨s, loaded, .loaded loaded, found, by rw [all]; exact List.mem_singleton_self _, within,
    fun minimal => ?_⟩
  exact Nat.lt_irrefl 3 (minimal _ within 3 3 last last)

end Stream

end Interpose

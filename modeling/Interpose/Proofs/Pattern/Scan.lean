import Interpose.Proofs.Pattern.Window
import Interpose.Proofs.Stream.Changes

/-!
The searches through a stream, from position to position. A search for one window goes on to the
next instruction until a window starts there; a search for all windows goes on behind each window it
finds. Both come to an end, with what the searches through the cells give. The windows of the second
are in order and apart, and every other window starts inside one of them.
-/

set_option autoImplicit false
set_option relaxedAutoImplicit false

namespace Interpose

namespace Pattern

theorem scan_drop (p : Pattern) (skip : Nat) (cells : List Cell) :
    p.scan skip cells = p.scan 0 (cells.drop skip) := by
  induction cells generalizing skip with
  | nil => cases skip <;> rfl
  | cons c cells ih =>
    cases skip with
    | zero => rfl
    | succ skip => exact ih skip

end Pattern

namespace Stream

variable {s : Stream} {p : Pattern} {q : Position} {span : Span} {spans : List Span}
  {start : Option Position} {i j : Nat}

/-- A search for one window from a position on, or past the end. -/
inductive Seeks (s : Stream) (p : Pattern) : Option Position → Option Span → Prop
  | done : Seeks s p none none
  | hit {q : Position} {span : Span} : s.matchAt q p = some span → Seeks s p (some q) (some span)
  | miss {q : Position} {found : Option Span} : s.matchAt q p = none →
      Seeks s p (s.next? q) found → Seeks s p (some q) found

/-- A search for all windows from a position on, or past the end. -/
inductive Sweeps (s : Stream) (p : Pattern) : Option Position → List Span → Prop
  | done : Sweeps s p none []
  | hit {q : Position} {span : Span} {spans : List Span} : s.matchAt q p = some span →
      Sweeps s p (s.next? span.last) spans → Sweeps s p (some q) (span :: spans)
  | miss {q : Position} {spans : List Span} : s.matchAt q p = none →
      Sweeps s p (s.next? q) spans → Sweeps s p (some q) spans

/-! ### One result -/

theorem Seeks.unique {one two : Option Span} (first : s.Seeks p start one)
    (second : s.Seeks p start two) : one = two := by
  induction first with
  | done =>
    cases second
    rfl
  | hit found =>
    cases second with
    | hit again => exact found.symm.trans again
    | miss none => cases found.symm.trans none
  | miss none _ ih =>
    cases second with
    | hit found => cases none.symm.trans found
    | miss _ rest => exact ih rest

theorem Sweeps.unique {one two : List Span} (first : s.Sweeps p start one)
    (second : s.Sweeps p start two) : one = two := by
  induction first generalizing two with
  | done =>
    cases second
    rfl
  | hit found _ ih =>
    cases second with
    | hit again rest =>
      obtain rfl := Option.some.inj (found.symm.trans again)
      rw [ih rest]
    | miss none => cases found.symm.trans none
  | miss none _ ih =>
    cases second with
    | hit found => cases none.symm.trans found
    | miss _ rest => exact ih rest

theorem Sweeps.head (sweeps : s.Sweeps p start spans) : s.Seeks p start spans.head? := by
  induction sweeps with
  | done => exact .done
  | hit found => exact .hit found
  | miss none _ ih => exact .miss none ih

/-! ### Steps by index -/

theorem first_eq_position (s : Stream) : s.first? = s.position? 0 := by
  rw [first?, position?, List.head?_eq_getElem?]

theorem position_cell {c : Cell} {rest : List Cell} (whole : s.cells.drop i = c :: rest) :
    s.position? i = some c.pos := by
  rw [position?, ← List.head?_drop, whole]
  rfl

theorem position_past (whole : s.cells.drop i = []) : s.position? i = none := by
  rw [position?, ← List.head?_drop, whole]
  rfl

theorem drop_succ_of_cons {c : Cell} {rest : List Cell} (whole : s.cells.drop i = c :: rest) :
    s.cells.drop (i + 1) = rest := by
  rw [← List.tail_drop, whole]
  rfl

theorem matchAt_cell (distinct : s.positions.Nodup) {c : Cell} {rest : List Cell}
    (whole : s.cells.drop i = c :: rest) (p : Pattern) :
    s.matchAt c.pos p = (p.windowSpan? (c :: rest)).map (·.1) := by
  rw [matchAt, onward_at ((position_iff distinct).mp (position_cell whole)), whole]

theorem Matches.ends {places : List Nat} (shape : s.Matches p span places) :
    ∃ i j, s.index? span.first = some i ∧ s.index? span.last = some j ∧ i ≤ j := by
  obtain ⟨i, places, rfl⟩ := shape.window.eq_cons
  obtain ⟨-, -, -, follow⟩ := shape.window
  exact ⟨i, _, shape.first, shape.last.trans (Pattern.last_place _ _), follow.le_last⟩

theorem match_ends (distinct : s.positions.Nodup) (index : s.index? q = some i)
    (found : s.matchAt q p = some span) :
    span.first = q ∧ ∃ j, s.index? span.last = some j ∧ i ≤ j := by
  obtain ⟨rfl, places, shape⟩ := (matchAt_iff distinct).mp found
  obtain ⟨k, j, first, last, le⟩ := shape.ends
  obtain rfl : i = k := Option.some.inj (index.symm.trans first)
  exact ⟨rfl, j, last, le⟩

theorem matchAt_absent (absent : s.index? q = none) : s.matchAt q p = none := by
  rw [matchAt, onward_absent absent]
  rfl

/-! ### The searches through the cells -/

theorem seeks_findIn (distinct : s.positions.Nodup) (p : Pattern) (i : Nat) :
    s.Seeks p (s.position? i) (p.findIn (s.cells.drop i)) := by
  induction onward : s.cells.drop i generalizing i with
  | nil =>
    rw [position_past onward]
    exact .done
  | cons c rest ih =>
    have matched := matchAt_cell distinct onward p
    rw [position_cell onward]
    unfold Pattern.findIn
    split
    · next window =>
      rw [window] at matched
      exact .hit matched
    · next window =>
      rw [window] at matched
      refine .miss matched ?_
      rw [next_eq_position ((position_iff distinct).mp (position_cell onward))]
      exact ih (i + 1) (drop_succ_of_cons onward)

theorem sweeps_scan (distinct : s.positions.Nodup) (p : Pattern) (i : Nat) :
    s.Sweeps p (s.position? i) (p.scan 0 (s.cells.drop i)) := by
  -- behind a window the search goes on further than one instruction
  induction size : s.cells.length - i using Nat.strongRecOn generalizing i with
  | ind size ih =>
  cases onward : s.cells.drop i with
  | nil =>
    rw [position_past onward]
    exact .done
  | cons c rest =>
    have more : 0 < s.cells.length - i := by
      rw [← List.length_drop, onward]
      exact Nat.succ_pos _
    have matched := matchAt_cell distinct onward p
    rw [position_cell onward]
    unfold Pattern.scan
    split
    · next span n window =>
      obtain ⟨places, shape, length⟩ := (windowSpan_iff distinct).mp (onward ▸ window)
      have last : s.index? span.last = some (places.getLastD i) :=
        shape.last.trans (Pattern.last_place _ _)
      obtain ⟨-, -, -, follow⟩ := shape.window
      have ahead := follow.le_last
      rw [window] at matched
      refine .hit matched ?_
      have behind : rest.drop (n - 1) = s.cells.drop (places.getLastD i + 1) := by
        rw [← drop_succ_of_cons onward, List.drop_drop]
        congr 1
        omega
      rw [next_eq_position last, Pattern.scan_drop, behind]
      exact ih _ (by omega) _ rfl
    · next window =>
      rw [window] at matched
      refine .miss matched ?_
      rw [next_eq_position ((position_iff distinct).mp (position_cell onward)),
        ← drop_succ_of_cons onward]
      exact ih _ (by omega) _ rfl

theorem seeks_iff (distinct : s.positions.Nodup) {found : Option Span} :
    s.Seeks p (some q) found ↔ found = s.findFrom q p := by
  have result : s.Seeks p (some q) (s.findFrom q p) := by
    cases index : s.index? q with
    | none =>
      refine .miss (matchAt_absent index) ?_
      rw [next?, findFrom, onward_absent index]
      exact .done
    | some i =>
      rw [← (position_iff distinct).mpr index, findFrom, onward_at index]
      exact seeks_findIn distinct p i
  exact ⟨fun seeks => seeks.unique result, fun same => same ▸ result⟩

theorem sweeps_iff (distinct : s.positions.Nodup) :
    s.Sweeps p s.first? spans ↔ spans = s.findAll p := by
  have result : s.Sweeps p s.first? (s.findAll p) := by
    rw [first_eq_position]
    exact sweeps_scan distinct p 0
  exact ⟨fun sweeps => sweeps.unique result, fun same => same ▸ result⟩

/-! ### What all windows are -/

def Ahead (s : Stream) (a b : Span) : Prop :=
  ∃ j k, s.index? a.last = some j ∧ s.index? b.first = some k ∧ j < k

theorem Ahead.apart (distinct : s.positions.Nodup) {a b : Span} (ahead : s.Ahead a b)
    (inside : s.Within a q) : ¬s.Within b q := by
  rintro ⟨k, l, n, first, here, -, after, -⟩
  obtain ⟨i, j, m, -, there, last, -, before⟩ := inside
  obtain ⟨j', k', one, two, less⟩ := ahead
  rw [← index_iff distinct] at first here there last
  obtain rfl := Option.some.inj (last.symm.trans one)
  obtain rfl := Option.some.inj (first.symm.trans two)
  obtain rfl := Option.some.inj (here.symm.trans there)
  omega

theorem Sweeps.matches (distinct : s.positions.Nodup) (sweeps : s.Sweeps p start spans)
    (member : span ∈ spans) : s.matchAt span.first p = some span := by
  induction sweeps with
  | done => cases member
  | hit found _ ih =>
    rcases List.mem_cons.mp member with rfl | later
    · obtain ⟨rfl, -⟩ := (matchAt_iff distinct).mp found
      exact found
    · exact ih later
  | miss _ _ ih => exact ih member

theorem Sweeps.starts (distinct : s.positions.Nodup) (sweeps : s.Sweeps p start spans)
    (here : start = s.position? i) (member : span ∈ spans) :
    ∃ k, s.index? span.first = some k ∧ i ≤ k := by
  induction sweeps generalizing i with
  | done => cases member
  | hit found _ ih =>
    have index := (position_iff distinct).mp here.symm
    obtain ⟨rfl, j, last, le⟩ := match_ends distinct index found
    rcases List.mem_cons.mp member with rfl | later
    · exact ⟨i, index, Nat.le_refl i⟩
    · obtain ⟨k, there, behind⟩ := ih (next_eq_position last) later
      exact ⟨k, there, by omega⟩
  | miss _ _ ih =>
    obtain ⟨k, there, behind⟩ :=
      ih (next_eq_position ((position_iff distinct).mp here.symm)) member
    exact ⟨k, there, by omega⟩

theorem Sweeps.ordered (distinct : s.positions.Nodup) (sweeps : s.Sweeps p start spans)
    (here : start = s.position? i) : spans.Pairwise s.Ahead := by
  induction sweeps generalizing i with
  | done => exact .nil
  | hit found rest ih =>
    obtain ⟨-, j, last, -⟩ := match_ends distinct ((position_iff distinct).mp here.symm) found
    have onward := next_eq_position last
    refine .cons (fun span later => ?_) (ih onward)
    obtain ⟨k, there, behind⟩ := rest.starts distinct onward later
    exact ⟨j, k, last, there, behind⟩
  | miss _ _ ih => exact ih (next_eq_position ((position_iff distinct).mp here.symm))

/-- A window that starts where the search does or behind it starts in one of those found. -/
theorem Sweeps.complete (distinct : s.positions.Nodup) (sweeps : s.Sweeps p start spans)
    (here : start = s.position? i) (found : s.matchAt q p = some span) (index : s.index? q = some j)
    (behind : i ≤ j) : ∃ other ∈ spans, s.Within other q := by
  have place := (index_iff distinct).mp index
  induction sweeps generalizing i with
  | done =>
    -- past the end there is no index
    have past : s.cells.length ≤ i := by simpa [position?] using here.symm
    have inside := index_lt index
    omega
  | @hit r other spans hit _ ih =>
    have start := (position_iff distinct).mp here.symm
    obtain ⟨rfl, k, last, le⟩ := match_ends distinct start hit
    by_cases inside : j ≤ k
    · exact ⟨other, List.mem_cons_self, i, k, j, (index_iff distinct).mp start, place,
        (index_iff distinct).mp last, behind, inside⟩
    · obtain ⟨third, member, within⟩ := ih (next_eq_position last) (by omega)
      exact ⟨third, List.mem_cons_of_mem _ member, within⟩
  | @miss r spans miss _ ih =>
    have start := (position_iff distinct).mp here.symm
    by_cases same : i = j
    · subst same
      have same : r = q := Option.some.inj (here.trans ((position_iff distinct).mpr index))
      rw [same, found] at miss
      cases miss
    · exact ih (next_eq_position start) (by omega)

end Stream

end Interpose

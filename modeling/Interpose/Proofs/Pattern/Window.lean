import Interpose.Pattern.Search
import Interpose.Proofs.Stream.Reachable

/-!
Windows of a pattern, told apart from how they are found. A window gives each step a place behind the
one before it, within its gap, and what it passes over may be skipped. The search finds a window
exactly if there is one. There is never a second with the same start, and no way to place the steps
from that start ends earlier, not even one that passes over what may not be skipped.
-/

set_option autoImplicit false
set_option relaxedAutoImplicit false

namespace Interpose

namespace Pattern

/-- The steps have places behind the one at index `i`: each at an instruction that satisfies it, with
no more instructions before it than its gap allows. Those instructions are `free` to be skipped, which
may depend on the steps still to come. -/
inductive Follow (code : List Instruction) (free : List Step → Instruction → Prop) :
    Nat → List Step → List Nat → Prop
  | done (i : Nat) : Follow code free i [] []
  | next {i j : Nat} {step : Step} {later : List Step} {places : List Nat} {insn : Instruction} :
      i < j → j ≤ i + step.maxGap + 1 → code[j]? = some insn → step.predicate.accepts insn = true →
      (∀ x other, i < x → x < j → code[x]? = some other → free (step :: later) other) →
      Follow code free j later places → Follow code free i (step :: later) (j :: places)

/-- All steps of a pattern have places, the first one anywhere. -/
inductive Placed (p : Pattern) (code : List Instruction)
    (free : Predicate → List Step → Instruction → Prop) : List Nat → Prop
  | mk {first : Step} {later : List Step} {i : Nat} {insn : Instruction} {places : List Nat} :
      p.steps = first :: later → code[i]? = some insn → first.predicate.accepts insn = true →
      Follow code (free first.predicate) i later places → Placed p code free (i :: places)

/-- An instruction may be skipped on the way to the first of some steps if it satisfies neither the
first step of the pattern nor any of these. -/
def Skippable (first : Predicate) (coming : List Step) (insn : Instruction) : Prop :=
  first.accepts insn = false ∧ ∀ step ∈ coming, step.predicate.accepts insn = false

/-- The places of the steps in a window. -/
def Window (p : Pattern) (code : List Instruction) : List Nat → Prop := p.Placed code Skippable

/-- Places of the steps in order and within their gaps, no matter what is passed over. -/
def Assignment (p : Pattern) (code : List Instruction) : List Nat → Prop :=
  p.Placed code fun _ _ _ => True

variable {p : Pattern} {code : List Instruction} {first : Predicate} {steps : List Step}
  {i j : Nat} {places others : List Nat}

/-! ### The search -/

theorem skippable_cons_iff {step : Step} {later : List Step} {insn : Instruction} :
    Skippable first (step :: later) insn ↔ step.predicate.accepts insn = false ∧
      (first.accepts insn || (later.map (·.predicate)).any (·.accepts insn)) = false := by
  simp only [Skippable, List.forall_mem_cons, Bool.or_eq_false_iff, List.any_eq_false,
    List.forall_mem_map, Bool.not_eq_true]
  tauto

theorem reach_iff {step : Step} {later : List Step} {gap n : Nat} :
    reach first step.predicate (later.map (·.predicate)) gap code = some n ↔
      ∃ k insn, n = k + 1 ∧ k ≤ gap ∧ code[k]? = some insn ∧ step.predicate.accepts insn = true ∧
        ∀ x other, x < k → code[x]? = some other → Skippable first (step :: later) other := by
  -- one instruction is looked at in each step: it is taken, or ends the search, or is skipped
  induction code generalizing gap n with
  | nil => simp [reach]
  | cons head rest ih =>
    have start : ∀ {k : Nat}, (∀ x other, x < k → (head :: rest)[x]? = some other →
        Skippable first (step :: later) other) → 0 < k → Skippable first (step :: later) head :=
      fun skipped behind => skipped 0 head behind rfl
    unfold reach
    split
    · next accepted =>
      constructor
      · intro found
        obtain rfl : 1 = n := Option.some.inj found
        exact ⟨0, head, rfl, Nat.zero_le _, rfl, accepted, by simp⟩
      · rintro ⟨k, insn, rfl, -, -, -, skipped⟩
        cases k with
        | zero => rfl
        | succ k =>
          have rejected := (skippable_cons_iff.mp (start skipped (Nat.succ_pos k))).1
          rw [accepted] at rejected
          cases rejected
    next rejected =>
    split
    · next blocked =>
      simp only [reduceCtorEq, false_iff]
      rintro ⟨k, insn, rfl, -, here, accepted, skipped⟩
      cases k with
      | zero =>
        obtain rfl : head = insn := Option.some.inj here
        exact rejected accepted
      | succ k =>
        have free := (skippable_cons_iff.mp (start skipped (Nat.succ_pos k))).2
        rw [blocked] at free
        cases free
    next free =>
    have passed : Skippable first (step :: later) head :=
      skippable_cons_iff.mpr ⟨by simpa using rejected, by simpa using free⟩
    cases gap with
    | zero =>
      simp only [reduceCtorEq, false_iff]
      rintro ⟨k, insn, rfl, near, here, accepted, -⟩
      obtain rfl : k = 0 := Nat.le_zero.mp near
      obtain rfl : head = insn := Option.some.inj here
      exact rejected accepted
    | succ gap =>
      simp only [Option.map_eq_some_iff, ih]
      constructor
      · rintro ⟨_, ⟨k, insn, rfl, near, here, accepted, skipped⟩, rfl⟩
        refine ⟨k + 1, insn, rfl, Nat.succ_le_succ near, here, accepted, fun x other less there => ?_⟩
        cases x with
        | zero => exact Option.some.inj there ▸ passed
        | succ x => exact skipped x other (Nat.lt_of_succ_lt_succ less) there
      · rintro ⟨k, insn, rfl, near, here, accepted, skipped⟩
        cases k with
        | zero =>
          obtain rfl : head = insn := Option.some.inj here
          exact absurd accepted rejected
        | succ k =>
          exact ⟨k + 1, ⟨k, insn, rfl, Nat.le_of_succ_le_succ near, here, accepted,
            fun x other less there => skipped (x + 1) other (Nat.succ_lt_succ less) there⟩, rfl⟩

theorem Follow.le_last {free : List Step → Instruction → Prop}
    (follow : Follow code free i steps places) : i ≤ places.getLastD i := by
  induction follow with
  | done i => exact Nat.le_refl i
  | next less _ _ _ _ _ ih =>
    rw [List.getLastD_cons]
    exact Nat.le_trans (Nat.le_of_lt less) ih

theorem extent_iff {n : Nat} :
    extent first steps (code.drop (i + 1)) = some n ↔
      ∃ places, Follow code (Skippable first) i steps places ∧ places.getLastD i = i + n := by
  induction steps generalizing i n with
  | nil =>
    constructor
    · intro found
      obtain rfl : 0 = n := Option.some.inj found
      exact ⟨[], .done i, rfl⟩
    · rintro ⟨_, ⟨⟩, last⟩
      obtain rfl : n = 0 := Nat.left_eq_add.mp last
      rfl
  | cons step later ih =>
    constructor
    · intro found
      unfold extent at found
      split at found
      · cases found
      next m reached =>
      obtain ⟨rest, extended, rfl⟩ := Option.map_eq_some_iff.mp found
      obtain ⟨k, insn, rfl, near, here, accepted, skipped⟩ := reach_iff.mp reached
      rw [List.drop_drop] at extended
      obtain ⟨places, follow, last⟩ := ih (i := i + 1 + k) |>.mp extended
      rw [List.getElem?_drop] at here
      refine ⟨(i + 1 + k) :: places, .next (by omega) (by omega) here accepted ?_ follow, ?_⟩
      · intro x other behind less there
        obtain ⟨y, rfl⟩ := Nat.exists_eq_add_of_le (show i + 1 ≤ _ from behind)
        exact skipped y other (by omega) (by rwa [List.getElem?_drop])
      · rw [List.getLastD_cons]
        exact last.trans (by omega)
    · rintro ⟨_, follow, last⟩
      cases follow with
      | @next _ j _ _ places insn less near here accepted skipped follow =>
      obtain ⟨k, rfl⟩ := Nat.exists_eq_add_of_le (show i + 1 ≤ _ from less)
      have reached : reach first step.predicate (later.map (·.predicate)) step.maxGap
          (code.drop (i + 1)) = some (k + 1) := by
        refine reach_iff.mpr ⟨k, insn, rfl, by omega, by rwa [List.getElem?_drop], accepted, ?_⟩
        intro x other before there
        rw [List.getElem?_drop] at there
        exact skipped _ other (by omega) (by omega) there
      have ahead := follow.le_last
      rw [List.getLastD_cons] at last
      obtain ⟨m, rfl⟩ : ∃ m, n = k + 1 + m := ⟨n - (k + 1), by omega⟩
      have extended := (ih (n := m)).mpr ⟨places, follow, by omega⟩
      simp only [extent, reached, List.drop_drop]
      exact Option.map_eq_some_iff.mpr ⟨m, extended, rfl⟩

theorem window_iff {n : Nat} :
    p.window? (code.drop i) = some n ↔
      ∃ places, p.Window code (i :: places) ∧ places.getLastD i + 1 = i + n := by
  cases onward : code.drop i with
  | nil =>
    have beyond : code[i]? = none := by simpa using onward
    simp only [window?, reduceCtorEq, false_iff]
    rintro ⟨places, ⟨-, here, -, -⟩, -⟩
    cases beyond.symm.trans here
  | cons insn rest =>
    have here : code[i]? = some insn := by rw [← List.head?_drop, onward]; rfl
    have behind : code.drop (i + 1) = rest := by
      rw [← List.drop_drop, onward]
      rfl
    cases steps : p.steps with
    | nil =>
      simp only [window?, steps, reduceCtorEq, false_iff]
      rintro ⟨places, ⟨some, -, -, -⟩, -⟩
      cases steps.symm.trans some
    | cons first later =>
      simp only [window?, steps]
      split
      · next accepted =>
        simp only [Option.map_eq_some_iff, ← behind, extent_iff]
        constructor
        · rintro ⟨m, ⟨places, follow, last⟩, rfl⟩
          exact ⟨places, .mk steps here accepted follow, by omega⟩
        · rintro ⟨places, ⟨some, there, accepted', follow⟩, last⟩
          obtain ⟨rfl, rfl⟩ := List.cons.inj (steps.symm.trans some)
          have ahead := follow.le_last
          exact ⟨n - 1, ⟨places, follow, by omega⟩, by omega⟩
      · next rejected =>
        simp only [reduceCtorEq, false_iff]
        rintro ⟨places, ⟨some, there, accepted, -⟩, -⟩
        obtain ⟨rfl, rfl⟩ := List.cons.inj (steps.symm.trans some)
        obtain rfl := Option.some.inj (here.symm.trans there)
        exact rejected accepted

/-! ### Other places -/

/-- The search gives every step its first possible place: where the steps are placed from the same
start, or from a later one, each has a place at least as far on. -/
theorem Follow.ahead {free : List Step → Instruction → Prop}
    (follow : Follow code (Skippable first) i steps places) (later : i ≤ j)
    (other : Follow code free j steps others) : places.Forall₂ (· ≤ ·) others := by
  induction follow generalizing j others with
  | done i =>
    cases other
    exact .nil
  | @next i k step _ _ insn less near here accepted skipped _ ih =>
    cases other with
    | @next _ l _ _ _ reached less' near' there accepted' _ other =>
    have first : k ≤ l := by
      by_contra before
      -- the other place would have been skipped, although it satisfies the step
      have rejected := (skippable_cons_iff.mp (skipped l reached (by omega) (by omega) there)).1
      rw [accepted'] at rejected
      cases rejected
    exact .cons first (ih first other)

theorem Placed.eq_cons {free : Predicate → List Step → Instruction → Prop}
    (placed : p.Placed code free places) : ∃ i rest, places = i :: rest := by
  cases placed
  exact ⟨_, _, rfl⟩

theorem Window.ahead (window : p.Window code (i :: places)) (later : i ≤ j)
    {free : Predicate → List Step → Instruction → Prop} (other : p.Placed code free (j :: others)) :
    places.Forall₂ (· ≤ ·) others := by
  obtain ⟨some, -, -, follow⟩ := window
  obtain ⟨steps, -, -, other⟩ := other
  obtain ⟨rfl, rfl⟩ := List.cons.inj (some.symm.trans steps)
  exact follow.ahead later other

theorem Window.unique (window : p.Window code (i :: places))
    (other : p.Window code (i :: others)) : places = others := by
  have there := window.ahead (Nat.le_refl i) other
  have back := other.ahead (Nat.le_refl i) window
  clear window other
  induction there with
  | nil => rfl
  | cons first _ ih =>
    cases back with
    | cons second back => rw [Nat.le_antisymm first second, ih back]

theorem last_place (i : Nat) (places : List Nat) :
    (i :: places).getLast? = some (places.getLastD i) := by
  rw [List.getLast?_cons, List.getLastD_eq_getLast?]

theorem getLastD_le {as bs : List Nat} (each : as.Forall₂ (· ≤ ·) bs) {i j : Nat} (le : i ≤ j) :
    as.getLastD i ≤ bs.getLastD j := by
  induction each generalizing i j with
  | nil => exact le
  | cons here _ ih =>
    rw [List.getLastD_cons, List.getLastD_cons]
    exact ih here

end Pattern

namespace Stream

variable {s : Stream} {p : Pattern} {span : Span} {start : Position} {i n : Nat}
  {places : List Nat}

/-- The steps of a pattern have these places in a window, and the window begins and ends with the
span. -/
structure Matches (s : Stream) (p : Pattern) (span : Span) (places : List Nat) : Prop where
  window : p.Window s.code places
  first : s.index? span.first = places.head?
  last : s.index? span.last = places.getLast?

theorem index_cell (distinct : s.positions.Nodup) {q : Position} :
    s.index? q = some i ↔ ∃ c, s.cells[i]? = some c ∧ c.pos = q := by
  rw [index_iff distinct, positions, List.getElem?_map, Option.map_eq_some_iff]

theorem windowSpan_iff (distinct : s.positions.Nodup) :
    p.windowSpan? (s.cells.drop i) = some (span, n) ↔
      ∃ places, s.Matches p span (i :: places) ∧ places.getLastD i + 1 = i + n := by
  have code : (s.cells.drop i).map (·.insn) = s.code.drop i := by rw [List.map_drop, Stream.code]
  -- the place of the last step is that of the last cell of the window
  have final : ∀ {places : List Nat}, p.Window s.code (i :: places) →
      places.getLastD i + 1 = i + n → (s.cells.drop i)[n - 1]? = s.cells[places.getLastD i]? := by
    rintro places ⟨-, -, -, follow⟩ last
    have ahead := follow.le_last
    rw [List.getElem?_drop]
    congr 1
    omega
  constructor
  · intro found
    unfold Pattern.windowSpan? at found
    split at found
    · next c rest m whole matched =>
      obtain ⟨d, there, same⟩ := Option.map_eq_some_iff.mp found
      obtain ⟨rfl, rfl⟩ := Prod.mk.inj same
      obtain ⟨places, window, last⟩ := Pattern.window_iff.mp (code ▸ matched)
      have here : s.cells[i]? = some c := by
        rw [← List.head?_drop, whole]
        rfl
      rw [final window last] at there
      refine ⟨places, ⟨window, (index_cell distinct).mpr ⟨c, here, rfl⟩, ?_⟩, last⟩
      rw [Pattern.last_place]
      exact (index_cell distinct).mpr ⟨d, there, rfl⟩
    · cases found
  · rintro ⟨places, ⟨window, first, ended⟩, last⟩
    rw [Pattern.last_place] at ended
    obtain ⟨c, here, one⟩ := (index_cell distinct).mp first
    obtain ⟨d, there, two⟩ := (index_cell distinct).mp ended
    have matched := Pattern.window_iff.mpr ⟨places, window, last⟩
    rw [← code] at matched
    rw [← final window last] at there
    obtain ⟨rest, whole⟩ : ∃ rest, s.cells.drop i = c :: rest := by
      rw [← List.head?_drop] at here
      exact List.head?_eq_some_iff.mp here
    rw [whole] at matched there ⊢
    simp only [Pattern.windowSpan?, matched, there, Option.map_some, one, two]

theorem matchAt_iff (distinct : s.positions.Nodup) :
    s.matchAt start p = some span ↔ span.first = start ∧ ∃ places, s.Matches p span places := by
  unfold matchAt
  cases index : s.index? start with
  | none =>
    simp only [onward_absent index, Pattern.windowSpan?, Option.map_none, reduceCtorEq, false_iff]
    rintro ⟨rfl, places, window, first, -⟩
    obtain ⟨i, rest, rfl⟩ := window.eq_cons
    cases index.symm.trans first
  | some i =>
    rw [onward_at index]
    constructor
    · intro found
      obtain ⟨⟨_, n⟩, window, rfl⟩ := Option.map_eq_some_iff.mp found
      obtain ⟨places, fits, -⟩ := (windowSpan_iff distinct).mp window
      obtain ⟨c, here, rfl⟩ := (index_cell distinct).mp index
      obtain ⟨d, there, first⟩ := (index_cell distinct).mp fits.first
      obtain rfl := Option.some.inj (here.symm.trans there)
      exact ⟨first.symm, _, fits⟩
    · rintro ⟨rfl, places, fits⟩
      obtain ⟨j, rest, rfl⟩ := fits.window.eq_cons
      obtain rfl : i = j := Option.some.inj (index.symm.trans fits.first)
      obtain ⟨-, -, -, follow⟩ := fits.window
      have ahead := follow.le_last
      exact Option.map_eq_some_iff.mpr ⟨(span, rest.getLastD i + 1 - i),
        (windowSpan_iff distinct).mpr ⟨rest, fits, by omega⟩, rfl⟩

/-- The search from a position gives a span exactly if the steps have places in a window that begins
there and ends with the span. There is only one such window, and it ends as early as any placing of
the steps from that position does. -/
theorem matchAt_exact (reached : s.Reachable) (start : Position) (p : Pattern) :
    (∀ span, s.matchAt start p = some span ↔
      span.first = start ∧ ∃ places, s.Matches p span places) ∧
    ∀ places, p.Window s.code places →
      (∀ others, p.Window s.code others → others.head? = places.head? → others = places) ∧
      ∀ others, p.Assignment s.code others → others.head? = places.head? →
        ∀ i j, places.getLast? = some i → others.getLast? = some j → i ≤ j := by
  refine ⟨fun span => matchAt_iff reached.wellFormed.distinct, fun places window => ⟨?_, ?_⟩⟩
  · intro others other same
    obtain ⟨i, places, rfl⟩ := window.eq_cons
    obtain ⟨j, others, rfl⟩ := other.eq_cons
    obtain rfl : j = i := Option.some.inj same
    rw [other.unique window]
  · intro others other same k l last last'
    obtain ⟨i, places, rfl⟩ := window.eq_cons
    obtain ⟨j, others, rfl⟩ := other.eq_cons
    obtain rfl : j = i := Option.some.inj same
    rw [Pattern.last_place, Option.some.injEq] at last last'
    rw [← last, ← last']
    exact Pattern.getLastD_le (window.ahead (Nat.le_refl j) other) (Nat.le_refl j)

def loadAndDrop : Pattern := ⟨"drop", [⟨0, .opcode .ldarg⟩, ⟨2, .opcode .pop⟩]⟩

theorem loadAndDrop_matches : ∃ s,
    ofBody ⟨[.ldarg 0, .dup, .pop, .pop, .ret], .empty, false⟩ = .ok s ∧
    loadAndDrop.Assignment s.code [0, 3] ∧ s.matchAt ⟨0⟩ loadAndDrop = some ⟨⟨0⟩, ⟨2⟩⟩ ∧
    ∀ others, loadAndDrop.Window s.code others → others.head? = some 0 → others = [0, 2] := by
  obtain ⟨s, loaded, code, first, last⟩ : ∃ s,
      ofBody ⟨[.ldarg 0, .dup, .pop, .pop, .ret], .empty, false⟩ = .ok s ∧
      s.code = [.ldarg 0, .dup, .pop, .pop, .ret] ∧ s.index? ⟨0⟩ = some 0 ∧ s.index? ⟨2⟩ = some 2 :=
    ⟨_, rfl, rfl, rfl, rfl⟩
  obtain ⟨found, least⟩ := matchAt_exact (.loaded loaded) ⟨0⟩ loadAndDrop
  have window : loadAndDrop.Window s.code [0, 2] := by
    rw [code]
    refine .mk rfl rfl rfl (.next (by decide) (by decide) rfl rfl ?_ (.done 2))
    intro x other behind before here
    obtain rfl : x = 1 := by omega
    obtain rfl := Option.some.inj here
    exact ⟨rfl, by decide⟩
  refine ⟨s, loaded, ?_, (found _).mpr ⟨rfl, [0, 2], window, first, last⟩, (least _ window).1⟩
  rw [code]
  exact .mk rfl rfl rfl (.next (by decide) (by decide) rfl rfl (fun _ _ _ _ _ => trivial) (.done 3))

end Stream

end Interpose

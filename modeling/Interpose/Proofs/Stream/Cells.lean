import Interpose.Stream.Loading
import Mathlib.Data.List.Nodup

/-!
The cells of a stream by position and by index. Where no position occurs twice, a position and its
index determine each other, and everything that is looked up by position can be read off the list
of cells.
-/

set_option autoImplicit false
set_option relaxedAutoImplicit false

namespace Interpose.Stream

/-! ### Splitting at a position -/

theorem split_iff {p : Position} {cells before onward : List Cell} :
    splitAt? p cells = some (before, onward) ↔
      cells = before ++ onward ∧ p ∉ before.map (·.pos) ∧ onward.head?.map (·.pos) = some p := by
  induction cells generalizing before onward with
  | nil => cases before <;> cases onward <;> simp [splitAt?]
  | cons c cells ih =>
    by_cases here : c.pos = p
    · simp only [splitAt?, if_pos here, Option.some.injEq, Prod.mk.injEq]
      constructor
      · rintro ⟨rfl, rfl⟩
        simp [here]
      · rintro ⟨whole, absent, -⟩
        cases before with
        | nil => exact ⟨rfl, whole⟩
        | cons first before =>
          obtain ⟨rfl, -⟩ := List.cons.inj whole
          simp [here] at absent
    · simp only [splitAt?, if_neg here, Option.map_eq_some_iff, Prod.exists, Prod.mk.injEq, ih]
      constructor
      · rintro ⟨inner, rest, ⟨rfl, absent, head⟩, rfl, rfl⟩
        refine ⟨rfl, ?_, head⟩
        simp only [List.map_cons, List.mem_cons, not_or]
        exact ⟨fun same => here same.symm, absent⟩
      · rintro ⟨whole, absent, head⟩
        cases before with
        | nil =>
          obtain rfl : onward = c :: cells := whole.symm
          simp [here] at head
        | cons first before =>
          obtain ⟨rfl, rfl⟩ := List.cons.inj whole
          simp only [List.map_cons, List.mem_cons, not_or] at absent
          exact ⟨before, onward, ⟨rfl, absent.2, head⟩, rfl, rfl⟩

theorem split_none_iff {p : Position} {cells : List Cell} :
    splitAt? p cells = none ↔ p ∉ cells.map (·.pos) := by
  induction cells with
  | nil => simp [splitAt?]
  | cons c cells ih =>
    by_cases here : c.pos = p
    · simp [splitAt?, here]
    · simp only [splitAt?, if_neg here, Option.map_eq_none_iff, ih, List.map_cons, List.mem_cons,
        not_or, Ne.symm here, not_false_eq_true, true_and]

variable {s : Stream}

theorem contains_iff {p : Position} : s.contains p = true ↔ p ∈ s.positions := by
  cases found : splitAt? p s.cells with
  | none => simpa [contains, found, positions] using split_none_iff.mp found
  | some parts =>
    obtain ⟨before, onward⟩ := parts
    obtain ⟨whole, -, head⟩ := split_iff.mp found
    obtain ⟨c, first, rfl⟩ := Option.map_eq_some_iff.mp head
    have member : c ∈ s.cells := by
      rw [whole]
      exact List.mem_append_right _ (List.mem_of_head? first)
    simp only [contains, found, Option.isSome_some, positions, true_iff]
    exact List.mem_map_of_mem member

theorem split_of_mem {p : Position} (member : p ∈ s.positions) :
    ∃ before onward, splitAt? p s.cells = some (before, onward) := by
  cases found : splitAt? p s.cells with
  | none => exact absurd member (split_none_iff.mp found)
  | some parts => exact ⟨parts.1, parts.2, rfl⟩

theorem split_cell {p : Position} {before onward : List Cell}
    (split : splitAt? p s.cells = some (before, onward)) :
    ∃ c after, onward = c :: after ∧ c.pos = p ∧ s.cells = before ++ c :: after := by
  obtain ⟨whole, -, head⟩ := split_iff.mp split
  obtain ⟨c, first, here⟩ := Option.map_eq_some_iff.mp head
  obtain ⟨after, rfl⟩ := List.head?_eq_some_iff.mp first
  exact ⟨c, after, rfl, here, whole⟩

theorem split_middle (distinct : s.positions.Nodup) {before after : List Cell} {c : Cell}
    (whole : s.cells = before ++ c :: after) :
    splitAt? c.pos s.cells = some (before, c :: after) := by
  rw [positions, whole, List.map_append] at distinct
  refine split_iff.mpr ⟨whole, ?_, rfl⟩
  intro here
  exact List.disjoint_of_nodup_append distinct here (by simp)

/-! ### Positions and indices -/

theorem index_iff (distinct : s.positions.Nodup) {p : Position} {i : Nat} :
    s.index? p = some i ↔ s.positions[i]? = some p := by
  constructor
  · intro found
    obtain ⟨⟨before, onward⟩, split, rfl⟩ := Option.map_eq_some_iff.mp found
    obtain ⟨whole, -, head⟩ := split_iff.mp split
    simp only [positions, whole, List.map_append]
    rw [List.getElem?_append_right (by simp)]
    simpa [List.head?_eq_getElem?] using head
  · intro here
    obtain ⟨before, onward, split⟩ := split_of_mem (List.mem_of_getElem? here)
    have there : s.positions[before.length]? = some p := by
      obtain ⟨whole, -, head⟩ := split_iff.mp split
      simp only [positions, whole, List.map_append]
      rw [List.getElem?_append_right (by simp)]
      simpa [List.head?_eq_getElem?] using head
    obtain ⟨inBefore, _⟩ := List.getElem?_eq_some_iff.mp there
    have same := (List.getElem?_inj inBefore distinct).mp (there.trans here.symm)
    simp [index?, split, same]

theorem index_lt {p : Position} {i : Nat} (found : s.index? p = some i) : i < s.cells.length := by
  obtain ⟨⟨before, onward⟩, split, rfl⟩ := Option.map_eq_some_iff.mp found
  obtain ⟨whole, -, head⟩ := split_iff.mp split
  obtain ⟨c, first, -⟩ := Option.map_eq_some_iff.mp head
  have nonempty : onward ≠ [] := by
    rintro rfl
    cases first
  have size := List.length_pos_iff.mpr nonempty
  simp only [whole, List.length_append]
  omega

theorem index_of_mem {p : Position} (member : p ∈ s.positions) : ∃ i, s.index? p = some i := by
  obtain ⟨before, onward, split⟩ := split_of_mem member
  exact ⟨before.length, by simp [index?, split]⟩

theorem mem_of_index (distinct : s.positions.Nodup) {p : Position} {i : Nat}
    (index : s.index? p = some i) : p ∈ s.positions :=
  List.mem_of_getElem? ((index_iff distinct).mp index)

theorem position_iff (distinct : s.positions.Nodup) {p : Position} {i : Nat} :
    s.position? i = some p ↔ s.index? p = some i := by
  rw [index_iff distinct, position?, positions, List.getElem?_map]

theorem onward_at {p : Position} {i : Nat} (index : s.index? p = some i) :
    s.onward p = s.cells.drop i := by
  obtain ⟨⟨before, onward⟩, split, rfl⟩ := Option.map_eq_some_iff.mp index
  rw [Stream.onward, split, (split_iff.mp split).1]
  exact (List.drop_left' rfl).symm

theorem onward_absent {p : Position} (absent : s.index? p = none) : s.onward p = [] := by
  rw [Stream.onward, Option.map_eq_none_iff.mp absent]

theorem next_eq_position {p : Position} {i : Nat} (index : s.index? p = some i) :
    s.next? p = s.position? (i + 1) := by
  rw [next?, onward_at index, List.getElem?_drop, position?]

@[simp] theorem length_code : s.code.length = s.cells.length := by simp [code]

/-! ### New positions -/

theorem numbered_cons (serial : Nat) (insn : Instruction) (code : List Instruction) :
    numbered serial (insn :: code) = ⟨⟨serial⟩, insn⟩ :: numbered (serial + 1) code := rfl

@[simp] theorem length_numbered (serial : Nat) (code : List Instruction) :
    (numbered serial code).length = code.length := by
  induction code generalizing serial with
  | nil => rfl
  | cons insn code ih => simp [numbered_cons, ih]

@[simp] theorem code_numbered (serial : Nat) (code : List Instruction) :
    (numbered serial code).map (·.insn) = code := by
  induction code generalizing serial with
  | nil => rfl
  | cons insn code ih => simp [numbered_cons, ih]

theorem numbered_append (serial : Nat) (front back : List Instruction) :
    numbered serial (front ++ back) =
      numbered serial front ++ numbered (serial + front.length) back := by
  induction front generalizing serial with
  | nil => rfl
  | cons insn front ih =>
    simp only [List.cons_append, numbered_cons, ih, List.length_cons]
    congr 3
    omega

theorem positions_numbered (serial : Nat) (code : List Instruction) :
    (numbered serial code).map (·.pos) =
      (List.range' serial code.length).map fun serial => ⟨serial⟩ := by
  induction code generalizing serial with
  | nil => rfl
  | cons insn code ih => simp [numbered_cons, ih, List.range'_succ]

theorem mem_numbered {serial : Nat} {code : List Instruction} {p : Position} :
    p ∈ (numbered serial code).map (·.pos) ↔
      serial ≤ p.serial ∧ p.serial < serial + code.length := by
  obtain ⟨n⟩ := p
  simp [positions_numbered, List.mem_range'_1]

theorem nodup_numbered (serial : Nat) (code : List Instruction) :
    ((numbered serial code).map (·.pos)).Nodup := by
  rw [positions_numbered]
  exact List.Nodup.map (fun a b same => Position.mk.inj same) List.nodup_range'

end Interpose.Stream

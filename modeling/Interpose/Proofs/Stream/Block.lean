import Interpose.Proofs.Stream.Cells
import Interpose.Proofs.Stream.Numbers

/-!
Insertion of blocks. A stream admits a block under one condition on its instructions and bindings;
what an insertion then does to the cells and to the labels is stated here once for all insertions.
-/

set_option autoImplicit false
set_option relaxedAutoImplicit false

namespace Interpose.Stream

variable {s : Stream} {b : Block}

/-- A binding stands at one of `size` new instructions or at an instruction of the stream. -/
def Holds (s : Stream) (size : Nat) : Binding → Prop
  | .inner index => index < size
  | .existing p => p ∈ s.positions

/-- What a stream asks of a block: it has instructions, it binds labels that stand nowhere yet, each
once and at a place that exists, and it mentions bound labels only. -/
structure Admits (s : Stream) (b : Block) : Prop where
  nonempty : b.code ≠ []
  free : ∀ e ∈ b.bindings, s.labels.find? e.1 = none
  once : (b.bindings.map (·.1)).Nodup
  holds : ∀ e ∈ b.bindings, s.Holds b.code.length e.2
  closed : ∀ insn ∈ b.code, ∀ l ∈ insn.operand.mentioned,
    (∃ p, s.labels.find? l = some p) ∨ l ∈ b.bindings.map (·.1)

theorem checkBindings_iff {size : Nat} {bound result : List Label}
    {bindings : List (Label × Binding)} :
    s.checkBindings size bound bindings = .ok result ↔
      (∀ e ∈ bindings, s.labels.find? e.1 = none ∧ e.1 ∉ bound ∧ s.Holds size e.2) ∧
      (bindings.map (·.1)).Nodup ∧ result = (bindings.map (·.1)).reverse ++ bound := by
  induction bindings generalizing bound with
  | nil => simp [checkBindings, eq_comm]
  | cons e bindings ih =>
    obtain ⟨l, binding⟩ := e
    have grown : (∀ e ∈ bindings, s.labels.find? e.1 = none ∧ e.1 ∉ l :: bound ∧
          s.Holds size e.2) ∧ (bindings.map (·.1)).Nodup ∧
          result = (bindings.map (·.1)).reverse ++ l :: bound ↔
        (∀ e ∈ bindings, s.labels.find? e.1 = none ∧ e.1 ∉ bound ∧ s.Holds size e.2) ∧
          (((l, binding) :: bindings).map (·.1)).Nodup ∧
          result = (((l, binding) :: bindings).map (·.1)).reverse ++ bound := by
      simp only [List.map_cons, List.nodup_cons, List.reverse_cons, List.append_assoc,
        List.singleton_append, List.mem_cons, not_or, List.mem_map, not_exists, not_and]
      constructor
      · rintro ⟨each, once, rfl⟩
        exact ⟨fun e member => ⟨(each e member).1, (each e member).2.1.2, (each e member).2.2⟩,
          ⟨fun e member same => (each e member).2.1.1 same, once⟩, rfl⟩
      · rintro ⟨each, ⟨apart, once⟩, rfl⟩
        exact ⟨fun e member => ⟨(each e member).1, ⟨apart e member, (each e member).2.1⟩,
          (each e member).2.2⟩, once, rfl⟩
    by_cases taken : s.labels.contains l = true
    · obtain ⟨p, found⟩ := LabelTable.contains_iff.mp taken
      simp [checkBindings, taken, found]
    · have free : s.labels.find? l = none :=
        LabelTable.find?_eq_none_iff.mpr (Bool.not_eq_true _ ▸ taken)
      by_cases twice : bound.contains l = true
      · have known : l ∈ bound := List.contains_iff_mem.mp twice
        simp [checkBindings, taken, known]
      · have new : l ∉ bound := fun known => twice (List.contains_iff_mem.mpr known)
        have each : ∀ {rest : Prop}, s.Holds size binding →
            ((∀ e ∈ (l, binding) :: bindings, s.labels.find? e.1 = none ∧ e.1 ∉ bound ∧
              s.Holds size e.2) ∧ rest ↔ (∀ e ∈ bindings, s.labels.find? e.1 = none ∧
              e.1 ∉ bound ∧ s.Holds size e.2) ∧ rest) := by
          intro rest here
          simp only [List.forall_mem_cons, free, new, here, not_false_eq_true, true_and]
        cases binding with
        | inner index =>
          by_cases beyond : size ≤ index
          · simp [checkBindings, taken, new, beyond, Holds, Nat.not_lt.mpr beyond]
          · rw [each (show s.Holds size (.inner index) from Nat.lt_of_not_le beyond), ← grown, ← ih]
            simp [checkBindings, taken, new, beyond]
        | existing p =>
          by_cases present : s.contains p = true
          · rw [each (show s.Holds size (.existing p) from contains_iff.mp present), ← grown, ← ih]
            simp [checkBindings, taken, new, present]
          · have absent : p ∉ s.positions := fun member => present (contains_iff.mpr member)
            simp [checkBindings, taken, new, present, Holds, absent]

theorem checkBlock_iff : s.checkBlock b = .ok () ↔ s.Admits b := by
  by_cases nothing : b.code = []
  · simp only [checkBlock, nothing, List.isEmpty_nil, if_true, reduceCtorEq, false_iff]
    exact fun admits => admits.nonempty nothing
  have some : b.code.isEmpty = false := by simpa using nothing
  cases checked : s.checkBindings b.code.length [] b.bindings with
  | error e =>
    simp only [checkBlock, some, checked, Bool.false_eq_true, if_false, reduceCtorEq, false_iff]
    intro admits
    have sound := checkBindings_iff.mpr ⟨fun e member =>
      ⟨admits.free e member, List.not_mem_nil, admits.holds e member⟩, admits.once, rfl⟩
    exact absurd (checked.symm.trans sound) (by simp)
  | ok bound =>
    obtain ⟨each, once, same⟩ := checkBindings_iff.mp checked
    have mentioned : ∀ {l : Label}, (!s.labels.contains l && !bound.contains l) = false ↔
        (∃ p, s.labels.find? l = .some p) ∨ l ∈ b.bindings.map (·.1) := by
      intro l
      rw [← LabelTable.contains_iff, Bool.and_eq_false_iff, Bool.not_eq_false', Bool.not_eq_false',
        List.contains_iff_mem, same, List.append_nil, List.mem_reverse]
    simp only [checkBlock, some, checked, Bool.false_eq_true, if_false]
    split
    · next l found =>
      simp only [reduceCtorEq, false_iff]
      intro admits
      obtain ⟨insn, member, here⟩ := List.mem_flatMap.mp (List.mem_of_find?_eq_some found)
      have closed := mentioned.mpr (admits.closed insn member l here)
      exact absurd (List.find?_some found)
        (by simp only [closed, Bool.false_eq_true, not_false_eq_true])
    · next found =>
      simp only [true_iff]
      refine ⟨nothing, fun e member => (each e member).1, once, fun e member => (each e member).2.2,
        fun insn member l here => ?_⟩
      exact mentioned.mp (by
        simpa using List.find?_eq_none.mp found l (List.mem_flatMap.mpr ⟨insn, member, here⟩))

/-! ### What an insertion leaves -/

/-- Binds the labels of a block whose instructions have numbers from `serial` on. -/
def bindAll (s : Stream) (serial : Nat) (bindings : List (Label × Binding)) : Stream :=
  bindings.foldl (fun s (l, binding) => s.bind l (bindingPosition serial binding)) s

section BindAll

variable {serial : Nat} {bindings : List (Label × Binding)}

@[simp] theorem bindAll_cells : (s.bindAll serial bindings).cells = s.cells := by
  induction bindings generalizing s with
  | nil => rfl
  | cons e bindings ih => exact ih

@[simp] theorem bindAll_serial : (s.bindAll serial bindings).nextSerial = s.nextSerial := by
  induction bindings generalizing s with
  | nil => rfl
  | cons e bindings ih => exact ih

@[simp] theorem bindAll_returns : (s.bindAll serial bindings).returns = s.returns := by
  induction bindings generalizing s with
  | nil => rfl
  | cons e bindings ih => exact ih

theorem bindAll_other {l : Label} (other : l ∉ bindings.map (·.1)) :
    (s.bindAll serial bindings).labels.find? l = s.labels.find? l := by
  induction bindings generalizing s with
  | nil => rfl
  | cons e bindings ih =>
    simp only [List.map_cons, List.mem_cons, not_or] at other
    refine (ih other.2).trans ?_
    simp [bind, other.1]

theorem bindAll_mem {l : Label} {binding : Binding} (once : (bindings.map (·.1)).Nodup)
    (member : (l, binding) ∈ bindings) :
    (s.bindAll serial bindings).labels.find? l = some (bindingPosition serial binding) := by
  induction bindings generalizing s with
  | nil => cases member
  | cons e bindings ih =>
    obtain ⟨apart, once⟩ := List.nodup_cons.mp once
    rcases List.mem_cons.mp member with rfl | later
    · refine (bindAll_other apart).trans ?_
      simp [bind]
    · exact ih once later

theorem bindAll_counter : (s.bindAll serial bindings).nextLabel =
    countPast s.nextLabel (bindings.map (·.1)) := by
  induction bindings generalizing s with
  | nil => rfl
  | cons e bindings ih => exact ih

end BindAll

/-- The stream after a block went in between two parts of it. -/
structure Inserted (s t : Stream) (before after : List Cell) (b : Block) : Prop where
  cells : t.cells = before ++ numbered s.nextSerial b.code ++ after
  serial : t.nextSerial = s.nextSerial + b.code.length
  returns : t.returns = s.returns
  kept : ∀ {l}, l ∉ b.bindings.map (·.1) → t.labels.find? l = s.labels.find? l
  bound : ∀ {l binding}, (l, binding) ∈ b.bindings →
    t.labels.find? l = some (bindingPosition s.nextSerial binding)
  counter : t.nextLabel = countPast s.nextLabel (b.bindings.map (·.1))

theorem Admits.inserted (admits : s.Admits b) (before after : List Cell) :
    s.Inserted (s.commit before after b).2 before after b where
  cells := bindAll_cells
  serial := bindAll_serial
  returns := bindAll_returns
  kept := bindAll_other
  bound := bindAll_mem admits.once
  counter := bindAll_counter

theorem insertBetween_iff {before after : List Cell} {span : Span} {t : Stream} :
    s.insertBetween before after b = (.ok span, t) ↔
      s.Admits b ∧ s.commit before after b = (span, t) := by
  rw [← checkBlock_iff]
  cases checked : s.checkBlock b with
  | error e => simp [insertBetween, checked]
  | ok _ => simp [insertBetween, checked, Prod.ext_iff]

theorem insertBetween_refused {before after : List Cell} {e : StreamError} {t : Stream}
    (refused : s.insertBetween before after b = (.error e, t)) : t = s := by
  cases checked : s.checkBlock b <;> simp_all [insertBetween]

/-- A block goes in front of an instruction of the stream if and only if the stream admits it. -/
theorem insertBefore_iff {p : Position} {before onward : List Cell}
    (split : splitAt? p s.cells = some (before, onward)) {span : Span} {t : Stream} :
    s.insertBefore p b = (.ok span, t) ↔
      s.Admits b ∧ s.commit before onward b = (span, t) := by
  simp only [insertBefore, split, insertBetween_iff]

end Interpose.Stream

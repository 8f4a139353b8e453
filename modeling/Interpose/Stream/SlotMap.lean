import Interpose.Stream.Basic

/-!
Slot maps: tables that take nodes and give out a position for each. The storage of a stream is one;
which one does not matter as long as a position finds its own node and no other, and is not given
out again when the node is gone.
-/

set_option autoImplicit false
set_option relaxedAutoImplicit false

namespace Interpose

structure Node where
  insn : Instruction
  prev : Option Position
  next : Option Position
  deriving DecidableEq

/-- The operations of a slot map. Positions are opaque to those who use it, so a position is called
by the number of those given out before it, whatever it is made of. -/
structure SlotMap (σ : Type) where
  empty : σ
  get? : σ → Position → Option Node
  insert : σ → Node → Position × σ
  /-- Puts another node at a position that has one. -/
  set : σ → Position → Node → σ
  remove : σ → Position → Option Node × σ
  size : σ → Nat
  /-- How many positions were given out so far, those of removed nodes included. -/
  issued : σ → Nat

namespace SlotMap

variable {σ : Type}

/-- What a slot map promises. -/
structure Lawful (m : SlotMap σ) : Prop where
  get_empty : ∀ p, m.get? m.empty p = none
  size_empty : m.size m.empty = 0
  issued_empty : m.issued m.empty = 0
  live_issued : ∀ {t p node}, m.get? t p = some node → p.serial < m.issued t
  insert_position : ∀ t node, (m.insert t node).1 = ⟨m.issued t⟩
  get_insert : ∀ t node q, m.get? (m.insert t node).2 q =
    if q = (m.insert t node).1 then some node else m.get? t q
  size_insert : ∀ t node, m.size (m.insert t node).2 = m.size t + 1
  issued_insert : ∀ t node, m.issued (m.insert t node).2 = m.issued t + 1
  get_set : ∀ {t p old}, m.get? t p = some old → ∀ node q,
    m.get? (m.set t p node) q = if q = p then some node else m.get? t q
  size_set : ∀ {t p old}, m.get? t p = some old → ∀ node, m.size (m.set t p node) = m.size t
  issued_set : ∀ {t p old}, m.get? t p = some old → ∀ node,
    m.issued (m.set t p node) = m.issued t
  removed : ∀ t p, (m.remove t p).1 = m.get? t p
  get_remove : ∀ t p q, m.get? (m.remove t p).2 q = if q = p then none else m.get? t q
  size_remove : ∀ {t p old}, m.get? t p = some old → m.size (m.remove t p).2 + 1 = m.size t
  issued_remove : ∀ t p, m.issued (m.remove t p).2 = m.issued t

/-- A slot map that keeps a slot for every node there ever was. -/
def ledger : SlotMap (List (Option Node)) where
  empty := []
  get? t p := t[p.serial]?.join
  insert t node := (⟨t.length⟩, t ++ [some node])
  set t p node := t.set p.serial (some node)
  remove t p := (t[p.serial]?.join, t.set p.serial none)
  size t := t.countP Option.isSome
  issued t := t.length

private theorem ledger_live {t : List (Option Node)} {p : Position} {node : Node}
    (found : t[p.serial]?.join = some node) :
    ∃ inside : p.serial < t.length, t[p.serial] = some node := by
  rw [Option.join_eq_some_iff] at found
  exact List.getElem?_eq_some_iff.mp found

private theorem ledger_set {t : List (Option Node)} {p : Position} (inside : p.serial < t.length)
    (slot : Option Node) (q : Position) :
    (t.set p.serial slot)[q.serial]?.join = if q = p then slot else t[q.serial]?.join := by
  rw [List.getElem?_set]
  by_cases here : q = p
  · subst here
    simp [inside]
  · have apart : p.serial ≠ q.serial := by
      intro same
      cases p
      cases q
      simp_all
    simp [here, apart]

theorem ledger_lawful : ledger.Lawful where
  get_empty p := by simp [ledger]
  size_empty := rfl
  issued_empty := rfl
  live_issued found := (ledger_live found).1
  insert_position t node := rfl
  get_insert t node q := by
    obtain ⟨n⟩ := q
    simp only [ledger, Position.mk.injEq]
    rcases Nat.lt_trichotomy n t.length with inside | rfl | outside
    · simp [List.getElem?_append_left inside, Nat.ne_of_lt inside]
    · simp
    · have beyond : (t ++ [some node]).length ≤ n := by
        simp only [List.length_append, List.length_singleton]
        omega
      rw [List.getElem?_eq_none beyond, List.getElem?_eq_none (Nat.le_of_lt outside),
        if_neg (Nat.ne_of_gt outside)]
  size_insert t node := by simp [ledger]
  issued_insert t node := by simp [ledger]
  get_set found node q := ledger_set (ledger_live found).1 (some node) q
  size_set {t p old} found node := by
    obtain ⟨inside, here⟩ := ledger_live found
    have positive : 0 < t.countP Option.isSome :=
      List.countP_pos_iff.mpr ⟨_, List.getElem_mem inside, by simp [here]⟩
    simp only [ledger, List.countP_set inside, here, Option.isSome_some, if_true]
    omega
  issued_set found node := List.length_set
  removed t p := rfl
  get_remove t p q := by
    by_cases inside : p.serial < t.length
    · exact ledger_set inside none q
    · have same : t.set p.serial none = t := List.set_eq_of_length_le (Nat.not_lt.mp inside)
      simp only [ledger, same]
      split
      · next here =>
        subst here
        simp [List.getElem?_eq_none (Nat.not_lt.mp inside)]
      · rfl
  size_remove {t p old} found := by
    obtain ⟨inside, here⟩ := ledger_live found
    have positive : 0 < t.countP Option.isSome :=
      List.countP_pos_iff.mpr ⟨_, List.getElem_mem inside, by simp [here]⟩
    simp only [ledger, List.countP_set inside, here, Option.isSome_some, Option.isSome_none,
      if_true, Bool.false_eq_true, if_false]
    omega
  issued_remove t p := List.length_set

end SlotMap

end Interpose

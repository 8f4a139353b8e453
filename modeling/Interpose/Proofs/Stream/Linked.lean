import Interpose.Proofs.Stream.Block
import Interpose.Proofs.Stream.Chain

/-!
A stream in storage represents a list of cells if its nodes are the chain of these cells. Every edit
of a represented stream comes back, gives what the edit of the list gives, and leaves a stream that
represents the edited list.
-/

set_option autoImplicit false
set_option relaxedAutoImplicit false

namespace Interpose

variable {σ : Type} {m : SlotMap σ} {s : Stream} {b : Block}

namespace LinkedStream

variable {k : LinkedStream σ}

/-- The nodes are the chain of the cells, and there are no others. -/
structure Represents (m : SlotMap σ) (k : LinkedStream σ) (s : Stream) : Prop where
  front : Front m k s.cells none
  tail : k.tail = exit none s.cells
  only : ∀ {p node}, m.get? k.nodes p = some node → p ∈ s.positions
  distinct : s.positions.Nodup
  size : m.size k.nodes = s.cells.length
  issued : m.issued k.nodes = s.nextSerial
  labels : k.labels = s.labels
  nextLabel : k.nextLabel = s.nextLabel
  returns : k.returns = s.returns

namespace Represents

theorem node (rep : Represents m k s) {before after : List Cell} {c : Cell}
    (whole : s.cells = before ++ c :: after) :
    m.get? k.nodes c.pos = some ⟨c.insn, exit none before, entry after none⟩ := by
  have chained := rep.front.chained
  rw [whole] at chained
  exact chained.at

theorem contains (rep : Represents m k s) : k.contains m = s.contains := by
  funext p
  rw [Bool.eq_iff_iff, Stream.contains_iff]
  constructor
  · intro present
    obtain ⟨node, found⟩ := Option.isSome_iff_exists.mp present
    exact rep.only found
  · intro member
    obtain ⟨c, here, rfl⟩ := List.mem_map.mp member
    obtain ⟨prev, next, found⟩ := rep.front.chained.mem here
    simp [LinkedStream.contains, found]

theorem parts (rep : Represents m k s) {before after : List Cell}
    (whole : s.cells = before ++ after) :
    Front m k before (entry after none) ∧ Back m k (exit none before) after := by
  have front := rep.front
  have tail := rep.tail
  rw [whole] at front tail
  obtain ⟨first, second⟩ := chained_append.mp front.chained
  refine ⟨⟨first, ?_⟩, ⟨second, ?_⟩⟩
  · rw [front.head, entry_append]
  · rw [tail, exit_append]

theorem of_parts {before after : List Cell} (whole : s.cells = before ++ after)
    (front : Front m k before (entry after none)) (back : Back m k (exit none before) after)
    (only : ∀ {p node}, m.get? k.nodes p = some node → p ∈ s.positions)
    (distinct : s.positions.Nodup) (size : m.size k.nodes = s.cells.length)
    (issued : m.issued k.nodes = s.nextSerial) (labels : k.labels = s.labels)
    (nextLabel : k.nextLabel = s.nextLabel) (returns : k.returns = s.returns) :
    Represents m k s := by
  refine ⟨⟨?_, ?_⟩, ?_, only, distinct, size, issued, labels, nextLabel, returns⟩
  · rw [whole]
    exact chained_append.mpr ⟨front.chained, back.chained⟩
  · rw [front.head, whole, entry_append]
  · rw [back.tail, whole, exit_append]

/-! ### Labels -/

theorem relabel (rep : Represents m k s) (labels : LabelTable Position) (nextLabel : UInt32) :
    Represents m { k with labels, nextLabel } { s with labels, nextLabel } :=
  ⟨⟨rep.front.chained, rep.front.head⟩, rep.tail, rep.only, rep.distinct, rep.size, rep.issued,
    rfl, rfl, rep.returns⟩

theorem defineLabel (rep : Represents m k s) :
    k.defineLabel.1 = s.defineLabel.1 ∧ Represents m k.defineLabel.2 s.defineLabel.2 := by
  obtain ⟨labels, nextLabel⟩ : k.labels = s.labels ∧ k.nextLabel = s.nextLabel :=
    ⟨rep.labels, rep.nextLabel⟩
  refine ⟨by simp [LinkedStream.defineLabel, Stream.defineLabel, nextLabel], ?_⟩
  have relabelled := rep.relabel s.labels (s.nextLabel + 1)
  simpa only [LinkedStream.defineLabel, Stream.defineLabel, labels, nextLabel] using relabelled

theorem markLabel (rep : Represents m k s) (l : Label) (p : Position) :
    (k.markLabel m l p).1 = (s.markLabel l p).1 ∧
      Represents m (k.markLabel m l p).2 (s.markLabel l p).2 := by
  simp only [LinkedStream.markLabel, Stream.markLabel, rep.contains, rep.labels]
  split
  · exact ⟨rfl, rep⟩
  · split
    · exact ⟨rfl, rep⟩
    · refine ⟨rfl, ?_⟩
      have relabelled := rep.relabel (s.labels.insert l p) (max s.nextLabel (l.id + 1))
      simpa only [LinkedStream.bind, Stream.bind, rep.labels, rep.nextLabel] using relabelled

theorem retarget (rep : Represents m k s) (l : Label) (p : Position) :
    (k.retarget m l p).1 = (s.retarget l p).1 ∧
      Represents m (k.retarget m l p).2 (s.retarget l p).2 := by
  simp only [LinkedStream.retarget, Stream.retarget, rep.contains, rep.labels]
  split
  · exact ⟨rfl, rep⟩
  · split
    · exact ⟨rfl, rep⟩
    · refine ⟨rfl, ?_⟩
      have relabelled := rep.relabel (s.labels.insert l p) s.nextLabel
      simpa only [rep.nextLabel] using relabelled

end Represents

end LinkedStream

/-! ### Insertion -/

theorem Block.check_eq (s : Stream) (b : Block) :
    b.check s.labels s.contains = s.checkBlock b := by
  have fold : ∀ (bindings : List (Label × Binding)) (bound : List Label),
      bindings.foldlM (checkBinding s.labels s.contains b.code.length) bound =
        s.checkBindings b.code.length bound bindings := by
    intro bindings
    induction bindings with
    | nil => intro bound; rfl
    | cons e bindings ih =>
      intro bound
      obtain ⟨l, binding⟩ := e
      simp only [List.foldlM_cons, checkBinding, Stream.checkBindings]
      split
      · rfl
      · split
        · rfl
        · cases binding with
          | inner index =>
            dsimp only
            split
            · rfl
            · exact ih _
          | existing p =>
            dsimp only
            split
            · exact ih _
            · rfl
  simp only [Block.check, fold]
  rfl

namespace LinkedStream

variable {k : LinkedStream σ}

theorem bindAll_eq (k : LinkedStream σ) (t : Stream) {size : Nat} {inserted : List Position}
    (placed : ∀ i, i < size → inserted[i]? = some ⟨s.nextSerial + i⟩)
    {bindings : List (Label × Binding)} (holds : ∀ e ∈ bindings, s.Holds size e.2)
    (labels : k.labels = t.labels) (nextLabel : k.nextLabel = t.nextLabel) :
    k.bindAll inserted bindings = some { k with
      labels := (t.bindAll s.nextSerial bindings).labels
      nextLabel := (t.bindAll s.nextSerial bindings).nextLabel } := by
  induction bindings generalizing k t with
  | nil =>
    simp only [LinkedStream.bindAll, Stream.bindAll, List.foldl_nil, ← labels, ← nextLabel]
  | cons e bindings ih =>
    obtain ⟨l, binding⟩ := e
    have here := holds (l, binding) List.mem_cons_self
    have found : (match binding with
        | .inner index => inserted[index]?
        | .existing p => some p) = some (Stream.bindingPosition s.nextSerial binding) := by
      cases binding with
      | inner index => exact placed index here
      | existing p => rfl
    have rest := ih (k.bind l (Stream.bindingPosition s.nextSerial binding))
      (t.bind l (Stream.bindingPosition s.nextSerial binding))
      (fun e member => holds e (List.mem_cons_of_mem _ member))
      (by simp only [LinkedStream.bind, Stream.bind, labels])
      (by simp only [LinkedStream.bind, Stream.bind, nextLabel])
    simp only [LinkedStream.bindAll, Option.bind_eq_bind]
    cases binding with
    | inner index =>
      simp only [placed index here, Option.bind_some]
      exact rest
    | existing p => exact rest

theorem numbered_getElem (serial : Nat) (code : List Instruction) {i : Nat}
    (inside : i < code.length) :
    ((Stream.numbered serial code).map (·.pos))[i]? = some ⟨serial + i⟩ := by
  simp [Stream.positions_numbered, inside]

theorem numbered_ends (serial : Nat) {code : List Instruction} (nonempty : code ≠ []) :
    ((Stream.numbered serial code).map (·.pos)).head? = some ⟨serial⟩ ∧
      ((Stream.numbered serial code).map (·.pos)).getLast? = some ⟨serial + code.length - 1⟩ := by
  have positive := List.length_pos_iff.mpr nonempty
  rw [List.head?_eq_getElem?, List.getLast?_eq_getElem?, List.length_map, Stream.length_numbered,
    numbered_getElem serial code positive, numbered_getElem serial code (by omega)]
  exact ⟨rfl, by congr 2; omega⟩

theorem Represents.commit (lawful : m.Lawful) (rep : Represents m k s) {before after : List Cell}
    (whole : s.cells = before ++ after) (admits : s.Admits b) :
    ∃ t, k.commit m (exit none before) (entry after none) b =
        some ((s.commit before after b).1, t) ∧ Represents m t (s.commit before after b).2 := by
  have inserted := admits.inserted before after
  obtain ⟨front, back⟩ := rep.parts whole
  obtain ⟨t, u, v, last, ends, chained, ledBack, ledOn, frontV, backV, distinct, rewired⟩ :=
    link_between lawful front back (whole ▸ rep.distinct) b.code
  rw [rep.issued] at chained ends frontV distinct rewired
  obtain ⟨first, final⟩ := numbered_ends s.nextSerial admits.nonempty
  have bound := bindAll_eq v
    { s with
      cells := before ++ Stream.numbered s.nextSerial b.code ++ after
      nextSerial := s.nextSerial + b.code.length }
    (fun _ inside => numbered_getElem s.nextSerial b.code inside) admits.holds
    (rewired.labels.trans rep.labels) (rewired.nextLabel.trans rep.nextLabel)
  have places : (s.commit before after b).2.positions =
      (before ++ Stream.numbered s.nextSerial b.code ++ after).map (·.pos) := by
    rw [Stream.positions, inserted.cells]
  have known : last = some ⟨s.nextSerial + b.code.length - 1⟩ := by
    rw [ends, exit_append, exit_of_last final]
  refine ⟨_, ?_, of_parts inserted.cells
    (frontV.congr (t := { v with
      labels := (s.commit before after b).2.labels
      nextLabel := (s.commit before after b).2.nextLabel }) rfl fun _ _ => rfl)
    ((ends ▸ backV).congr rfl fun _ _ => rfl) ?_ ?_ ?_ ?_ rfl rfl ?_⟩
  · rw [known] at chained ledBack ledOn
    simp only [LinkedStream.commit, chained, ledBack, ledOn, bound, first, final,
      Option.bind_eq_bind, Option.bind_some]
    rfl
  · intro p node found
    rw [places]
    by_contra absent
    have old := rep.only ((rewired.elsewhere p absent).symm.trans found)
    simp only [Stream.positions, whole, List.map_append, List.mem_append] at old absent
    tauto
  · rw [places]
    exact distinct
  · refine rewired.size.trans ?_
    rw [rep.size, whole, inserted.cells]
    simp only [List.length_append, Stream.length_numbered]
    omega
  · refine rewired.issued.trans ?_
    rw [rep.issued, inserted.serial]
  · exact (rewired.returns.trans rep.returns).trans inserted.returns.symm

end LinkedStream

end Interpose

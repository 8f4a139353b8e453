import Interpose.Proofs.Stream.Labels

/-!
How the number of the next label moves. While all numbers fit, it never goes back, it stays above
those of all bound labels, and no edit takes it further than the labels it binds or defines.
-/

set_option autoImplicit false
set_option relaxedAutoImplicit false

namespace Interpose

namespace Stream

variable {s t u : Stream} {b : Block} {l : Label} {before after : List Cell} {n : Nat}

/-- From `s` to `t` the number of the next label did not go back. It is above all bound labels, and at
most `n`. -/
structure Counts (s t : Stream) (n : Nat) : Prop where
  counted : t.Counted
  grown : s.nextLabel ≤ t.nextLabel
  most : t.nextLabel.toNat ≤ n

namespace Counts

theorem refl (counted : s.Counted) (most : s.nextLabel.toNat ≤ n) : s.Counts s n :=
  ⟨counted, UInt32.le_rfl, most⟩

theorem of_le (counts : t.Counts u n) (grown : s.nextLabel ≤ t.nextLabel) : s.Counts u n :=
  ⟨counts.counted, UInt32.le_trans grown counts.grown, counts.most⟩

theorem raise (counts : s.Counts t n) {next : UInt32} {m : Nat} (grown : t.nextLabel ≤ next)
    (most : next.toNat ≤ m) : s.Counts { t with nextLabel := next } m where
  counted k p found := UInt32.lt_of_lt_of_le (counts.counted k p found) grown
  grown := UInt32.le_trans counts.grown grown
  most := most

theorem relabel (counts : s.Counts t n) {cells : List Cell} {labels : LabelTable Position}
    (old : ∀ k p, labels.find? k = some p → ∃ q, t.labels.find? k = some q) :
    s.Counts { t with cells, labels } n where
  counted k p found := by
    obtain ⟨q, bound⟩ := old k p found
    exact counts.counted k q bound
  grown := counts.grown
  most := counts.most

theorem defineLabel (counts : s.Counts t n) (fits : n + 1 < UInt32.size) :
    s.Counts t.defineLabel.2 (n + 1) := by
  have most := counts.most
  have fits : t.nextLabel.toNat + 1 < UInt32.size := by omega
  exact counts.raise (UInt32.le_of_lt (lt_succ fits))
    (Nat.le_trans (Nat.le_of_eq (toNat_ahead (i := 1) fits)) (Nat.succ_le_succ most))

theorem retarget (counts : s.Counts t n) (l : Label) (p : Position) :
    s.Counts (t.retarget l p).2 n := by
  match moved : t.retarget l p with
  | (.error e, u) =>
    obtain rfl := retarget_refused moved
    exact counts
  | (.ok (), u) =>
    obtain ⟨-, ⟨q, bound⟩, rfl⟩ := retarget_iff.mp moved
    refine @relabel s t n counts t.cells _ fun k r found => ?_
    simp only [LabelTable.find?_insert] at found
    split at found
    · next same => exact ⟨q, same ▸ bound⟩
    · exact ⟨r, found⟩

theorem remove (counts : s.Counts t n) (span : Span) : s.Counts (t.remove span).2 n := by
  rcases t.remove_cases span with ⟨e, refused⟩ | ⟨_, _, _, labels, -, removed, moved⟩
  · rwa [refused]
  · rw [removed]
    refine counts.relabel fun k p found => ?_
    rcases moved with ⟨-, rfl, -⟩ | ⟨c, rest, -, rfl⟩
    · exact ⟨p, found⟩
    · rw [LabelTable.find?_filterMap, Option.bind_eq_some_iff] at found
      exact found.imp fun _ => And.left

theorem replace (counts : s.Counts t n) (p : Position) (insn : Instruction) :
    s.Counts (t.replace p insn).2 n := by
  unfold Stream.replace
  split
  · exact counts
  · split
    · exact counts
    · exact counts.relabel fun k q found => ⟨q, found⟩

variable (counts : s.Counts t n) (fits : n < UInt32.size)
include counts fits

theorem inserted (went : t.Inserted u before after b)
    (below : ∀ l ∈ b.bindings.map (·.1), l.id.toNat < n) : s.Counts u n := by
  obtain ⟨grown, most, above⟩ := countPast_above fits counts.most below
  rw [← went.counter] at grown most above
  refine ⟨fun l p found => ?_, UInt32.le_trans counts.grown grown, most⟩
  by_cases taken : l ∈ b.bindings.map (·.1)
  · exact above l taken
  · exact UInt32.lt_of_lt_of_le (counts.counted l p ((went.kept taken).symm.trans found)) grown

theorem insertBetween (below : ∀ l ∈ b.bindings.map (·.1), l.id.toNat < n) :
    s.Counts (t.insertBetween before after b).2 n := by
  rcases t.insertBetween_cases before after b with ⟨e, refused⟩ | ⟨-, went, -⟩
  · rwa [refused]
  · exact counts.inserted fits went below

theorem insertBefore (p : Position) (below : ∀ l ∈ b.bindings.map (·.1), l.id.toNat < n) :
    s.Counts (t.insertBefore p b).2 n := by
  unfold Stream.insertBefore
  split
  · exact counts
  · exact counts.insertBetween fits below

theorem insertAfter (p : Position) (below : ∀ l ∈ b.bindings.map (·.1), l.id.toNat < n) :
    s.Counts (t.insertAfter p b).2 n := by
  unfold Stream.insertAfter
  split
  · exact counts
  · exact counts.insertBetween fits below

theorem markLabel (p : Position) (below : l.id.toNat < n) : s.Counts (t.markLabel l p).2 n := by
  unfold Stream.markLabel
  split
  · exact counts
  split
  · exact counts
  have single : ∀ k ∈ [l], k.id.toNat < n := by simpa using below
  obtain ⟨grown, most, above⟩ := countPast_above fits counts.most single
  refine ⟨fun k q found => ?_, UInt32.le_trans counts.grown grown, most⟩
  simp only [Stream.bind, LabelTable.find?_insert] at found
  split at found
  · next same => exact same ▸ above l List.mem_cons_self
  · exact UInt32.lt_of_lt_of_le (counts.counted k q found) grown

theorem emitBlock (current : Option Position)
    (below : ∀ l ∈ b.bindings.map (·.1), l.id.toNat < n) :
    s.Counts (Cursor.emitBlock ⟨t, current⟩ b).2.stream n := by
  cases current with
  | none => exact counts.insertBetween fits below
  | some p => exact counts.insertBefore fits p below

theorem emitBlockAfter (current : Option Position)
    (below : ∀ l ∈ b.bindings.map (·.1), l.id.toNat < n) :
    s.Counts (Cursor.emitBlockAfter ⟨t, current⟩ b).2.stream n := by
  cases current with
  | none => exact counts
  | some p =>
    rw [Cursor.emitBlockAfter_stream]
    exact counts.insertAfter fits p below

end Counts

theorem ofBody_counts {body : Body} (loaded : ofBody body = .ok s) (fits : n < UInt32.size)
    (below : ∀ l ∈ body.labels.labels, l.id.toNat < n) : s.Counts s n := by
  obtain ⟨-, bound, rfl⟩ := ofBody_iff.mp loaded
  have all : ∀ l ∈ body.labels.labels ++ targets body, l.id.toNat < n := by
    intro l member
    rcases List.mem_append.mp member with known | target
    · exact below l known
    · obtain ⟨i, found⟩ := bound l target
      exact below l (List.mem_map_of_mem (LabelTable.find?_eq_some_iff.mp found))
  obtain ⟨-, most, above⟩ := countPast_above (c := 0) fits (Nat.zero_le n) all
  refine .refl (fun l p found => above l (List.mem_append_left _ ?_)) most
  rw [LabelTable.find?_filterMap, Option.bind_eq_some_iff] at found
  obtain ⟨i, entry, -⟩ := found
  exact List.mem_map_of_mem (LabelTable.find?_eq_some_iff.mp entry)

end Stream

end Interpose

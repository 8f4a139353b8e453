import Interpose.Stream.Edit
import Mathlib.Data.List.Nodup

/-!
The numbers of labels. A stream numbers the labels that it defines one after the other, and the
numbers wrap around. While they do not, every new label is above all that were bound before it.
-/

set_option autoImplicit false
set_option relaxedAutoImplicit false

namespace Interpose.Stream

variable {s : Stream} {n : Nat} {l : Label}

/-- Every bound label is below the next one to be defined. -/
def Counted (s : Stream) : Prop := ∀ l p, s.labels.find? l = some p → l.id < s.nextLabel

theorem counted_iff : s.Counted ↔ ∀ e ∈ s.labels.entries, e.1.id < s.nextLabel := by
  simp only [Counted, LabelTable.find?_eq_some_iff, Prod.forall]

theorem Counted.fresh (counted : s.Counted) (new : s.nextLabel ≤ l.id) :
    s.labels.find? l = none := by
  cases found : s.labels.find? l with
  | none => rfl
  | some p => exact absurd (counted l p found) (UInt32.not_lt.mpr new)

/-- The numbers for `n` more labels are there, above those of all bound labels. -/
structure HasRoom (s : Stream) (n : Nat) : Prop where
  counted : s.Counted
  fits : s.nextLabel.toNat + n < UInt32.size

theorem HasRoom.mono {m : Nat} (room : s.HasRoom n) (fewer : m ≤ n) : s.HasRoom m :=
  ⟨room.counted, Nat.lt_of_le_of_lt (Nat.add_le_add_left fewer _) room.fits⟩

/-! ### Counting past labels -/

/-- The number behind `c` and behind those of some labels. -/
def countPast (c : UInt32) (ls : List Label) : UInt32 := ls.foldl (fun n l => max n (l.id + 1)) c

/-- Where the numbers fit, the counter is above those of the labels and no further. -/
theorem countPast_above {ls : List Label} {c : UInt32} (fits : n < UInt32.size)
    (start : c.toNat ≤ n) (below : ∀ l ∈ ls, l.id.toNat < n) :
    c ≤ countPast c ls ∧ (countPast c ls).toNat ≤ n ∧ ∀ l ∈ ls, l.id < countPast c ls := by
  induction ls generalizing c with
  | nil => exact ⟨UInt32.le_refl c, start, nofun⟩
  | cons l ls ih =>
    have first := below l List.mem_cons_self
    have value : (max c (l.id + 1)).toNat = max c.toNat (l.id.toNat + 1) := by
      rw [UInt32.toNat_max, UInt32.toNat_add]
      exact congrArg (max c.toNat) (Nat.mod_eq_of_lt (Nat.lt_of_le_of_lt first fits))
    obtain ⟨grown, most, above⟩ := ih (c := max c (l.id + 1)) (by omega)
      fun k member => below k (List.mem_cons_of_mem l member)
    have step : countPast c (l :: ls) = countPast (max c (l.id + 1)) ls := rfl
    rw [UInt32.le_iff_toNat_le, value, Nat.max_le] at grown
    simp only [step, List.forall_mem_cons]
    exact ⟨UInt32.le_iff_toNat_le.mpr grown.1, most, UInt32.lt_iff_toNat_lt.mpr grown.2, above⟩

/-! ### The next labels -/

/-- The labels that a stream defines next, in order. -/
def upcoming (s : Stream) (n : Nat) : List Label :=
  (List.range n).map fun i => ⟨s.nextLabel + .ofNat i⟩

theorem upcoming_succ (s : Stream) (n : Nat) :
    s.upcoming (n + 1) = s.upcoming n ++ [⟨s.nextLabel + .ofNat n⟩] := by
  simp [upcoming, List.range_succ]

@[simp] theorem length_upcoming (s : Stream) (n : Nat) : (s.upcoming n).length = n := by
  simp [upcoming]

theorem nodup_upcoming (few : n ≤ UInt32.size) : (s.upcoming n).Nodup := by
  refine List.Nodup.map_on (fun i inI j inJ same => ?_) List.nodup_range
  have equal := (UInt32.add_right_inj _).mp (Label.mk.inj same)
  rw [← UInt32.toNat_inj, UInt32.toNat_ofNat_of_lt', UInt32.toNat_ofNat_of_lt'] at equal
  · exact equal
  · exact Nat.lt_of_lt_of_le (List.mem_range.mp inJ) few
  · exact Nat.lt_of_lt_of_le (List.mem_range.mp inI) few

theorem toNat_ahead {c : UInt32} {i : Nat} (fits : c.toNat + i < UInt32.size) :
    (c + .ofNat i).toNat = c.toNat + i := by
  rw [UInt32.toNat_add, UInt32.toNat_ofNat_of_lt' (Nat.lt_of_le_of_lt (Nat.le_add_left _ _) fits)]
  exact Nat.mod_eq_of_lt fits

theorem lt_succ {c : UInt32} (fits : c.toNat + 1 < UInt32.size) : c < c + 1 :=
  UInt32.lt_iff_toNat_lt.mpr ((toNat_ahead (i := 1) fits).symm ▸ Nat.lt_succ_self _)

theorem mem_upcoming_iff (fits : s.nextLabel.toNat + n < UInt32.size) :
    l ∈ s.upcoming n ↔ s.nextLabel ≤ l.id ∧ l.id.toNat < s.nextLabel.toNat + n := by
  simp only [upcoming, List.mem_map, List.mem_range, UInt32.le_iff_toNat_le]
  constructor
  · rintro ⟨i, inside, rfl⟩
    rw [toNat_ahead (Nat.lt_trans (Nat.add_lt_add_left inside _) fits)]
    omega
  · rintro ⟨above, below⟩
    refine ⟨l.id.toNat - s.nextLabel.toNat, by omega, congrArg Label.mk ?_⟩
    rw [← UInt32.toNat_inj, toNat_ahead (by omega)]
    omega

/-- The next labels differ from one another, and stand nowhere. -/
structure Free (s : Stream) (n : Nat) : Prop where
  apart : (s.upcoming n).Nodup
  unbound : ∀ l ∈ s.upcoming n, s.labels.find? l = none

theorem HasRoom.free (room : s.HasRoom n) : s.Free n where
  apart := nodup_upcoming (Nat.le_trans (Nat.le_add_left _ _) (Nat.le_of_lt room.fits))
  unbound _ member := room.counted.fresh ((mem_upcoming_iff room.fits).mp member).1

end Interpose.Stream

import Interpose.Operand

/-!
Finite tables indexed by labels. Entries stand in the order of their labels and no label has two,
so a table is determined by what it answers for each label.
-/

set_option autoImplicit false
set_option relaxedAutoImplicit false

namespace Interpose

structure LabelTable (α : Type) where
  entries : List (Label × α)
  sorted : entries.Pairwise fun a b => a.1.id < b.1.id

namespace LabelTable

variable {α β : Type}

/-- Puts an entry in its place, over the one with the same label if there is one. -/
def insertEntry (l : Label) (a : α) : List (Label × α) → List (Label × α)
  | [] => [(l, a)]
  | (k, b) :: rest =>
    if l.id < k.id then (l, a) :: (k, b) :: rest
    else if l = k then (l, a) :: rest
    else (k, b) :: insertEntry l a rest

theorem mem_insertEntry {l : Label} {a : α} {e : Label × α} :
    {es : List (Label × α)} → e ∈ insertEntry l a es → e = (l, a) ∨ e ∈ es
  | [], h => .inl (by simpa [insertEntry] using h)
  | (k, b) :: rest, h => by
    unfold insertEntry at h
    split at h
    · simpa using h
    · split at h
      · rcases List.mem_cons.mp h with h | h
        · exact .inl h
        · exact .inr (List.mem_cons_of_mem _ h)
      · rcases List.mem_cons.mp h with h | h
        · exact .inr (h ▸ List.mem_cons_self)
        · exact (mem_insertEntry h).imp id (List.mem_cons_of_mem _)

theorem pairwise_insertEntry {l : Label} {a : α} :
    {es : List (Label × α)} → es.Pairwise (fun a b => a.1.id < b.1.id) →
      (insertEntry l a es).Pairwise fun a b => a.1.id < b.1.id
  | [], _ => by simp [insertEntry]
  | (k, b) :: rest, h => by
    have hk := List.pairwise_cons.mp h
    unfold insertEntry
    split
    · next hlt =>
      refine List.pairwise_cons.mpr ⟨fun e he => ?_, h⟩
      rcases List.mem_cons.mp he with rfl | he
      · exact hlt
      · exact UInt32.lt_trans hlt (hk.1 e he)
    · next hge =>
      split
      · next heq =>
        subst heq
        exact List.pairwise_cons.mpr ⟨hk.1, hk.2⟩
      · next hne =>
        refine List.pairwise_cons.mpr ⟨fun e he => ?_, pairwise_insertEntry hk.2⟩
        rcases mem_insertEntry he with rfl | he
        · have differ : k.id ≠ l.id := fun hid => hne (by cases l; cases k; simp_all)
          exact UInt32.lt_of_le_of_ne (UInt32.not_lt.mp hge) differ
        · exact hk.1 e he

def empty : LabelTable α := ⟨[], .nil⟩

/-- The table with one more entry, or another value for a label that has one. -/
def insert (t : LabelTable α) (l : Label) (a : α) : LabelTable α :=
  ⟨insertEntry l a t.entries, pairwise_insertEntry t.sorted⟩

/-- The table of a list of entries; of two with the same label the later one counts. -/
def ofList (es : List (Label × α)) : LabelTable α :=
  es.foldl (fun t e => t.insert e.1 e.2) empty

def find? (t : LabelTable α) (l : Label) : Option α :=
  (t.entries.find? fun e => e.1 = l).map (·.2)

def contains (t : LabelTable α) (l : Label) : Bool := t.entries.any fun e => e.1 = l

def labels (t : LabelTable α) : List Label := t.entries.map (·.1)

private theorem pairwise_filterMap (f : α → Option β) {es : List (Label × α)}
    (h : es.Pairwise fun a b => a.1.id < b.1.id) :
    (es.filterMap fun e => (f e.2).map (e.1, ·)).Pairwise fun a b => a.1.id < b.1.id := by
  refine List.Pairwise.filterMap _ (fun a b hab c hc d hd => ?_) h
  obtain ⟨x, _, rfl⟩ := Option.map_eq_some_iff.mp hc
  obtain ⟨y, _, rfl⟩ := Option.map_eq_some_iff.mp hd
  exact hab

/-- The table with every value replaced, and without the entries that have no replacement. -/
def filterMap (f : α → Option β) (t : LabelTable α) : LabelTable β :=
  ⟨t.entries.filterMap fun e => (f e.2).map (e.1, ·), pairwise_filterMap f t.sorted⟩

/-! ### Look-up -/

theorem find?_eq_some_iff {t : LabelTable α} {l : Label} {a : α} :
    t.find? l = some a ↔ (l, a) ∈ t.entries := by
  obtain ⟨entries, sorted⟩ := t
  simp only [find?, Option.map_eq_some_iff]
  constructor
  · rintro ⟨e, found, rfl⟩
    obtain rfl : e.1 = l := by simpa using List.find?_some found
    exact List.mem_of_find?_eq_some found
  · intro member
    induction sorted with
    | nil => cases member
    | @cons e es first _ ih =>
      rcases List.mem_cons.mp member with rfl | later
      · exact ⟨(l, a), by simp, rfl⟩
      · have apart : e.1 ≠ l := fun same => absurd (first _ later) (by simp [same])
        obtain ⟨found, there, value⟩ := ih later
        exact ⟨found, by simp [apart, there], value⟩

theorem contains_iff {t : LabelTable α} {l : Label} :
    t.contains l = true ↔ ∃ a, t.find? l = some a := by
  simp only [find?_eq_some_iff, contains, List.any_eq_true, decide_eq_true_eq]
  exact ⟨fun ⟨e, member, same⟩ => ⟨e.2, same ▸ member⟩, fun ⟨a, member⟩ => ⟨(l, a), member, rfl⟩⟩

theorem find?_eq_none_iff {t : LabelTable α} {l : Label} :
    t.find? l = none ↔ t.contains l = false := by
  rw [← Bool.not_eq_true, contains_iff, Option.eq_none_iff_forall_ne_some, not_exists]

private theorem insertEntry_iff {l : Label} {a : α} {e : Label × α} :
    {es : List (Label × α)} → es.Pairwise (fun a b => a.1.id < b.1.id) →
      (e ∈ insertEntry l a es ↔ e = (l, a) ∨ e.1 ≠ l ∧ e ∈ es)
  | [], _ => by simp [insertEntry]
  | (k, b) :: rest, sorted => by
    have first := List.pairwise_cons.mp sorted
    have apart : ∀ {c : Label × α}, l.id < k.id → c ∈ rest → c.1 ≠ l := by
      rintro c less member rfl
      exact UInt32.lt_asymm less (first.1 c member)
    unfold insertEntry
    split
    · next less =>
      have kept : e ∈ (k, b) :: rest → e.1 ≠ l := by
        intro member
        rcases List.mem_cons.mp member with rfl | later
        · rintro rfl
          exact UInt32.lt_irrefl _ less
        · exact apart less later
      rw [List.mem_cons]
      exact ⟨Or.imp_right fun member => ⟨kept member, member⟩, Or.imp_right And.right⟩
    · split
      · next same =>
        subst same
        have later : e ∈ rest → e.1 ≠ l := by
          rintro member rfl
          exact UInt32.lt_irrefl _ (first.1 e member)
        simp only [List.mem_cons]
        constructor
        · exact Or.imp_right fun member => ⟨later member, .inr member⟩
        · rintro (here | ⟨other, rfl | member⟩)
          · exact .inl here
          · exact absurd rfl other
          · exact .inr member
      · next other =>
        rw [List.mem_cons, insertEntry_iff first.2, List.mem_cons]
        constructor
        · rintro (rfl | here | ⟨differs, member⟩)
          · exact .inr ⟨fun same => other same.symm, .inl rfl⟩
          · exact .inl here
          · exact .inr ⟨differs, .inr member⟩
        · rintro (here | ⟨differs, rfl | member⟩)
          · exact .inr (.inl here)
          · exact .inl rfl
          · exact .inr (.inr ⟨differs, member⟩)

@[simp] theorem find?_insert (t : LabelTable α) (l k : Label) (a : α) :
    (t.insert l a).find? k = if k = l then some a else t.find? k := by
  ext c
  rw [find?_eq_some_iff]
  simp only [insert, insertEntry_iff t.sorted, Prod.mk.injEq]
  split
  · next same => simp [same, eq_comm]
  · next other => simp [other, find?_eq_some_iff]

@[simp] theorem find?_filterMap (f : α → Option β) (t : LabelTable α) (l : Label) :
    (t.filterMap f).find? l = (t.find? l).bind f := by
  ext c
  rw [find?_eq_some_iff, Option.bind_eq_some_iff]
  simp only [filterMap, List.mem_filterMap, find?_eq_some_iff]
  constructor
  · rintro ⟨⟨k, a⟩, member, value⟩
    obtain ⟨b, image, here⟩ := Option.map_eq_some_iff.mp value
    obtain ⟨rfl, rfl⟩ := Prod.mk.inj here
    exact ⟨a, member, image⟩
  · rintro ⟨a, member, image⟩
    exact ⟨(l, a), member, by simp [image]⟩

/-- A table is determined by what it answers. -/
theorem ext_find? {s t : LabelTable α} (same : ∀ l, s.find? l = t.find? l) : s = t := by
  have nodup : ∀ u : LabelTable α, u.entries.Nodup := fun u =>
    u.sorted.imp fun {a b} less equal => by
      rw [equal] at less
      exact UInt32.lt_irrefl _ less
  have perm : s.entries.Perm t.entries :=
    (List.perm_ext_iff_of_nodup (nodup s) (nodup t)).mpr fun e => by
      rw [← find?_eq_some_iff (l := e.1), ← find?_eq_some_iff (l := e.1), same]
  have entries : s.entries = t.entries :=
    perm.eq_of_pairwise (fun a b _ _ less more => absurd less (UInt32.lt_asymm more)) s.sorted t.sorted
  cases s
  cases t
  cases entries
  rfl

end LabelTable

instance {α : Type} [DecidableEq α] : DecidableEq (LabelTable α) := fun s t =>
  decidable_of_iff (s.entries = t.entries) (by
    cases s; cases t; simp)

end Interpose

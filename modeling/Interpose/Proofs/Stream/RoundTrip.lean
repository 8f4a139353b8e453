import Interpose.Proofs.Splice.Layout
import Interpose.Proofs.Stream.Reachable

/-!
Bodies and streams, there and back. Loading a body and writing it back gives the same body. Writing a
stream back gives a body that loads again, whatever was edited in between, and every label that the
stream has is in it, at the same instruction.
-/

set_option autoImplicit false
set_option relaxedAutoImplicit false

namespace Interpose

theorem LabelTable.labels_filterMap {α β : Type} {f : α → Option β} {t : LabelTable α}
    (total : ∀ {l a}, t.find? l = some a → ∃ b, f a = some b) :
    (t.filterMap f).labels = t.labels := by
  have each : ∀ es : List (Label × α), (∀ e ∈ es, ∃ b, f e.2 = some b) →
      (es.filterMap fun e => (f e.2).map (e.1, ·)).map (·.1) = es.map (·.1) := by
    intro es total
    induction es with
    | nil => rfl
    | cons e es ih =>
      obtain ⟨b, value⟩ := total e List.mem_cons_self
      simp [value, ih fun e later => total e (List.mem_cons_of_mem _ later)]
  exact each t.entries fun e member => total (find?_eq_some_iff.mpr member)

theorem Body.dangling_nil_iff {b : Body} :
    b.danglingLabels = [] ↔ ∃ s, Stream.ofBody b = .ok s := by
  have collects : ∀ ls dangling : List Label,
      ls.foldl (fun dangling l => if (b.resolve? l).isNone && !dangling.contains l
        then dangling ++ [l] else dangling) dangling = [] ↔
      dangling = [] ∧ ∀ l ∈ ls, ∃ i, b.labels.find? l = some i := by
    intro ls
    induction ls with
    | nil => simp
    | cons l ls ih =>
      intro dangling
      rw [List.foldl_cons, ih]
      cases found : b.labels.find? l with
      | some i => simp [resolve?, found]
      | none =>
        have lost : ¬∀ k ∈ l :: ls, ∃ i, b.labels.find? k = some i :=
          fun each => by simpa [found] using each l List.mem_cons_self
        simp only [resolve?, found, Option.isNone_none, Bool.true_and, lost, and_false, iff_false]
        rintro ⟨nothing, -⟩
        split at nothing
        · simp at nothing
        · next kept => simp [nothing] at kept
  have beyond : (b.labels.entries.filter fun e => b.code.length ≤ e.2).map (·.1) = [] ↔
      ∀ e ∈ b.labels.entries, e.2 < b.code.length := by
    simp [List.filter_eq_nil_iff]
  rw [danglingLabels, collects, beyond]
  constructor
  · rintro ⟨inside, bound⟩
    exact ⟨_, Stream.ofBody_iff.mpr ⟨inside, bound, rfl⟩⟩
  · rintro ⟨s, loaded⟩
    obtain ⟨inside, bound, -⟩ := Stream.ofBody_iff.mp loaded
    exact ⟨inside, bound⟩

namespace Stream

variable {s : Stream}

theorem WellFormed.loads (ok : s.WellFormed) : ∃ t, ofBody s.toBody = .ok t := by
  refine ⟨_, ofBody_iff.mpr ⟨fun e member => ?_, fun l member => ?_, rfl⟩⟩
  · have entry := LabelTable.find?_eq_some_iff.mpr member
    rw [toBody, LabelTable.find?_filterMap, Option.bind_eq_some_iff] at entry
    obtain ⟨p, -, index⟩ := entry
    exact length_code (s := s) ▸ index_lt index
  · obtain ⟨insn, here, target⟩ := List.mem_flatMap.mp member
    obtain ⟨p, found⟩ := ok.closed here target
    obtain ⟨i, index⟩ := index_of_mem (ok.live found)
    exact ⟨i, by simp [toBody, found, index]⟩

theorem WellFormed.label_iff (ok : s.WellFormed) {l : Label} {p : Position} :
    s.labels.find? l = some p ↔
      ∃ i, s.toBody.resolve? l = some i ∧ s.position? i = some p := by
  simp only [Body.resolve?, toBody, LabelTable.find?_filterMap, Option.bind_eq_some_iff,
    position_iff ok.distinct]
  constructor
  · intro found
    obtain ⟨i, index⟩ := index_of_mem (ok.live found)
    exact ⟨i, ⟨p, found, index⟩, index⟩
  · rintro ⟨i, ⟨q, found, index⟩, there⟩
    have same := ((index_iff ok.distinct).mp index).symm.trans ((index_iff ok.distinct).mp there)
    exact Option.some.inj same ▸ found

/-- A body that loads is written back as it was. A stream is written back, after any edits, as a
body that loads and is written back as itself, with the same labels at the same instructions. -/
theorem body_round_trip :
    (∀ b s, ofBody b = .ok s → s.toBody = b) ∧
    ∀ s : Stream, s.Reachable →
      (∃ t, ofBody s.toBody = .ok t ∧ t.toBody = s.toBody) ∧
      s.toBody.labels.labels = s.labels.labels ∧
      ∀ l p, s.labels.find? l = some p ↔
        ∃ i, s.toBody.resolve? l = some i ∧ s.position? i = some p := by
  refine ⟨fun b s => ofBody_toBody, fun s reached => ?_⟩
  have ok := reached.wellFormed
  obtain ⟨t, loaded⟩ := ok.loads
  refine ⟨⟨t, loaded, ofBody_toBody loaded⟩, ?_, fun l p => ok.label_iff⟩
  exact LabelTable.labels_filterMap fun found => index_of_mem (ok.live found)

/-- The instruction with a label is removed, so the label is written back at the next one. -/
theorem removed_round_trip : ∃ s t,
    ofBody ⟨[.nop, .br ⟨0⟩, .ret], .ofList [(⟨0⟩, 1)], false⟩ = .ok s ∧
    s.toBody = ⟨[.nop, .br ⟨0⟩, .ret], .ofList [(⟨0⟩, 1)], false⟩ ∧
    (Edit.perform s (.remove (.single ⟨1⟩))).toBody = ⟨[.nop, .ret], .ofList [(⟨0⟩, 1)], false⟩ ∧
    ofBody (Edit.perform s (.remove (.single ⟨1⟩))).toBody = .ok t ∧
    t.toBody = (Edit.perform s (.remove (.single ⟨1⟩))).toBody ∧
    (Edit.perform s (.remove (.single ⟨1⟩))).toBody.labels.labels = [⟨0⟩] := by
  obtain ⟨s, loaded⟩ : ∃ s, ofBody ⟨[.nop, .br ⟨0⟩, .ret], .ofList [(⟨0⟩, 1)], false⟩ = .ok s :=
    ⟨_, rfl⟩
  obtain ⟨⟨t, again, same⟩, labels, -⟩ := body_round_trip.2 _
    (.edited (.remove (.single ⟨1⟩)) (.loaded loaded))
  refine ⟨s, t, loaded, body_round_trip.1 _ _ loaded, ?_, again, same, labels.trans ?_⟩ <;>
    cases loaded <;> rfl

end Stream

end Interpose

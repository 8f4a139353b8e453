import Interpose.Proofs.Splice.Again
import Interpose.Proofs.Splice.Layout
import Interpose.Proofs.Stream.Changes
import Interpose.Proofs.Stream.Reachable
import Mathlib.Data.List.Induction

/-!
Where labels stand. A label that is bound stays bound, at an instruction of the stream, and there
are only three ways for it to get to another one: it is moved there on purpose, its instruction is
removed, or a point is spliced in front of its instruction. Insertion moves no label.
-/

set_option autoImplicit false
set_option relaxedAutoImplicit false

namespace Interpose

namespace Stream

variable {s t : Stream} {b : Block} {p : Position}

theorem insertBefore_refused {e : StreamError} (refused : s.insertBefore p b = (.error e, t)) :
    t = s := by
  unfold insertBefore at refused
  split at refused
  · exact (Prod.mk.inj refused).2.symm
  · exact insertBetween_refused refused

theorem insertBefore_admits {span : Span} (went : s.insertBefore p b = (.ok span, t)) :
    ∃ before onward, splitAt? p s.cells = some (before, onward) ∧ s.Admits b := by
  unfold insertBefore at went
  split at went
  · cases went
  · next before onward split => exact ⟨before, onward, split, (insertBetween_iff.mp went).1⟩

end Stream

namespace Point

variable {p : Point} {s t : Stream} {e : SpliceError}

theorem apply_refused (ok : s.WellFormed) (refused : p.apply s = (.error e, t)) :
    t.labels = s.labels := by
  cases finds : p.site s with
  | error e =>
    simp only [apply, finds] at refused
    rw [← (Prod.mk.inj refused).2]
  | ok site =>
    obtain ⟨name, lowered⟩ :=
      Template.lower_lowered (p.loads site) s site.resumeAt site.skipAt p.template
    rcases went : (p.template.lower (p.loads site) s site.resumeAt site.skipAt).2.insertBefore
        site.resumeAt (p.template.lower (p.loads site) s site.resumeAt site.skipAt).1 with
      ⟨e | span, u⟩
    · simp only [apply, finds, went] at refused
      obtain ⟨-, rfl⟩ := Prod.mk.inj refused
      rw [Stream.insertBefore_refused went, lowered.stream]
    · -- what the stream admits goes in, and then nothing else can fail
      obtain ⟨before, onward, split, admits⟩ := Stream.insertBefore_admits went
      have here : site.resumeAt ∈ s.positions := by
        rw [← Stream.contains_iff, Stream.contains]
        rw [lowered.stream] at split
        simp [show Stream.splitAt? site.resumeAt s.cells = some (before, onward) from split]
      obtain ⟨r, u, done⟩ := apply_ok ok finds here admits
      rw [done] at refused
      cases refused

end Point

namespace Stream

variable {s t : Stream} {c : Change} {answer : Change.Answer}

theorem next_of_parts (distinct : s.positions.Nodup) {before after : List Cell} {c : Cell}
    (whole : s.cells = before ++ c :: after) : s.next? c.pos = after.head?.map (·.pos) := by
  have split := split_middle distinct whole
  simp [next?, onward, split, List.head?_eq_getElem?]

/-- A label that is bound stays bound. Where it gets to another position, it is moved there, or it
was in a span that is removed and gets behind the span. -/
theorem Effect.label (distinct : s.positions.Nodup) (effect : s.Effect c answer t) {l : Label}
    {p : Position} (bound : s.labels.find? l = some p) :
    ∃ q, t.labels.find? l = some q ∧ (q ≠ p → c = .retarget l q ∧ q ∈ s.positions ∨
      ∃ span, c = .remove span ∧ s.Within span p ∧ s.next? span.last = some q) := by
  have kept : ∀ {before after : List Cell} {b : Block} {t : Stream}, s.Admits b →
      s.Inserted t before after b → t.labels.find? l = some p := by
    intro before after b t admits inserted
    refine (inserted.kept fun member => ?_).trans bound
    obtain ⟨e, taken, rfl⟩ := List.mem_map.mp member
    exact absurd (admits.free e taken) (by simp [bound])
  cases effect with
  | refused e => exact ⟨p, bound, fun moved => absurd rfl moved⟩
  | insertedBefore _ admits inserted =>
    exact ⟨p, kept admits inserted, fun moved => absurd rfl moved⟩
  | insertedAfter _ admits inserted =>
    exact ⟨p, kept admits inserted, fun moved => absurd rfl moved⟩
  | appended admits inserted => exact ⟨p, kept admits inserted, fun moved => absurd rfl moved⟩
  | @removed before inside after labels span whole start stop follow moves =>
    have found := moves l
    rw [bound, Option.map_some] at found
    by_cases doomed : p ∈ inside.map (·.pos)
    · obtain ⟨d, rest, rfl⟩ := List.exists_cons_of_ne_nil (follow l p bound doomed)
      refine ⟨d.pos, by simpa [doomed] using found, fun _ => .inr ⟨span, rfl,
        within_of_inside whole start stop doomed, ?_⟩⟩
      cases inside using List.reverseRecOn with
      | nil => cases doomed
      | append_singleton inner c =>
        have here : c.pos = span.last := by simpa using stop
        have apart : s.cells = (before ++ inner) ++ c :: d :: rest := by simpa using whole
        rw [← here, next_of_parts distinct apart]
        rfl
    · exact ⟨p, by simpa [doomed] using found, fun moved => absurd rfl moved⟩
  | replaced whole => exact ⟨p, bound, fun moved => absurd rfl moved⟩
  | @marked k q here unbound =>
    refine ⟨p, ?_, fun moved => absurd rfl moved⟩
    have other : l ≠ k := by
      rintro rfl
      rw [bound] at unbound
      cases unbound
    simpa [bind, other] using bound
  | @retargeted k q r here old =>
    by_cases same : l = k
    · subst same
      exact ⟨q, by simp, fun _ => .inl ⟨rfl, here⟩⟩
    · exact ⟨p, by simpa [same] using bound, fun moved => absurd rfl moved⟩
  | defined => exact ⟨p, bound, fun moved => absurd rfl moved⟩

/-! ### Edits -/

/-- The ways in which an edit gets a label from one position to another. -/
inductive Edit.Moves (s : Stream) : Edit → Label → Position → Position → Prop
  | retargeted {l : Label} {p q : Position} : q ∈ s.positions → Moves s (.retarget l q) l p q
  | removed {l : Label} {p q : Position} {span : Span} : s.Within span p →
      s.next? span.last = some q → Moves s (.remove span) l p q
  | spliced {l : Label} {p q : Position} {point : Point} {anchor : Anchor} {r : SpliceReport} :
      point.placement = .before → point.locate s = .ok anchor → anchor.span.first = p →
      (point.apply s).1 = .ok r → (point.apply s).2.positions[r.index]? = some q →
      q ∉ s.positions → Moves s (.splice point) l p q

variable {l : Label} {p : Position}

theorem perform_label (distinct : s.positions.Nodup) (c : Change)
    (bound : s.labels.find? l = some p) :
    ∃ q, (s.perform c).2.labels.find? l = some q ∧ (q ≠ p → c = .retarget l q ∧ q ∈ s.positions ∨
      ∃ span, c = .remove span ∧ s.Within span p ∧ s.next? span.last = some q) :=
  (perform_effect distinct c).label distinct bound

theorem perform_label_stays (distinct : s.positions.Nodup) {c : Change}
    (elsewhere : ∀ k q, c ≠ .retarget k q) (stays : ∀ span, c ≠ .remove span)
    (bound : s.labels.find? l = some p) : (s.perform c).2.labels.find? l = some p := by
  obtain ⟨q, found, moved⟩ := perform_label distinct c bound
  by_cases same : q = p
  · exact same ▸ found
  · rcases moved same with ⟨retargeted, -⟩ | ⟨span, removed, -⟩
    · exact absurd retargeted (elsewhere l q)
    · exact absurd removed (stays span)

theorem splice_label (ok : s.WellFormed) (point : Point) (bound : s.labels.find? l = some p) :
    ∃ q, (point.apply s).2.labels.find? l = some q ∧
      (q ≠ p → Edit.Moves s (.splice point) l p q) := by
  match applied : point.apply s with
  | (.error e, t) =>
    refine ⟨p, ?_, fun moved => absurd rfl moved⟩
    rw [Point.apply_refused ok applied]
    exact bound
  | (.ok r, t) =>
    obtain ⟨site, name, found, spliced, kept⟩ := Point.apply_spliced ok applied
    obtain ⟨located, continues, -⟩ := Point.site_iff.mp found
    refine ⟨_, spliced.moved l p bound, fun moved => ?_⟩
    by_cases led : point.placement = .before ∧ p = site.resumeAt
    · obtain ⟨before, rfl⟩ := led
      rw [if_pos ⟨before, rfl⟩]
      have start : site.anchor.span.first = site.resumeAt := by
        simpa [Point.resumeAt, before] using continues
      refine .spliced before located start (by rw [applied]) ?_ fun old => ?_
      · rw [applied, ← index_iff kept.distinct]
        exact spliced.start kept
      · exact Nat.lt_irrefl _ (ok.issued old)
    · rw [if_neg led] at moved
      exact absurd rfl moved

theorem Edit.perform_label (ok : s.WellFormed) (e : Edit) (bound : s.labels.find? l = some p) :
    ∃ q, (e.perform s).labels.find? l = some q ∧ (q ≠ p → e.Moves s l p q) := by
  have same : ∀ {t : Stream}, t.labels.find? l = some p →
      ∃ q, t.labels.find? l = some q ∧ (q ≠ p → e.Moves s l p q) := fun found =>
    ⟨p, found, fun moved => absurd rfl moved⟩
  have stays : ∀ c : Change, (∀ k q, c ≠ .retarget k q) → (∀ span, c ≠ .remove span) →
      (s.perform c).2.labels.find? l = some p := fun c elsewhere stays =>
    perform_label_stays ok.distinct elsewhere stays bound
  have emitted : ∀ (current : Option Position) (b : Block),
      (Cursor.emitBlock ⟨s, current⟩ b).2.stream.labels.find? l = some p := by
    intro current b
    cases current with
    | none => exact stays (.append b) (by simp) (by simp)
    | some q => exact stays (.insertBefore q b) (by simp) (by simp)
  have emittedAfter : ∀ (current : Option Position) (b : Block),
      (Cursor.emitBlockAfter ⟨s, current⟩ b).2.stream.labels.find? l = some p := by
    intro current b
    cases current with
    | none => exact bound
    | some q =>
      rw [Cursor.emitBlockAfter_stream]
      exact stays (.insertAfter q b) (by simp) (by simp)
  cases e with
  | defineLabel => exact same bound
  | markLabel k q => exact same (stays (.markLabel k q) (by simp) (by simp))
  | retarget k q =>
    obtain ⟨r, found, moved⟩ := Stream.perform_label ok.distinct (.retarget k q) bound
    refine ⟨r, found, fun other => ?_⟩
    rcases moved other with ⟨retargeted, here⟩ | ⟨span, removed, -⟩
    · cases retargeted
      exact .retargeted here
    · cases removed
  | insertBefore q b => exact same (stays (.insertBefore q b) (by simp) (by simp))
  | insertAfter q b => exact same (stays (.insertAfter q b) (by simp) (by simp))
  | append b => exact same (stays (.append b) (by simp) (by simp))
  | remove span =>
    obtain ⟨r, found, moved⟩ := Stream.perform_label ok.distinct (.remove span) bound
    refine ⟨r, found, fun other => ?_⟩
    rcases moved other with ⟨retargeted, -⟩ | ⟨span', removed, within, next⟩
    · cases retargeted
    · cases removed
      exact .removed within next
  | replace q insn => exact same (stays (.replace q insn) (by simp) (by simp))
  | setReturns returns => exact same bound
  | cursorDefine current => exact same bound
  | cursorMark current =>
    cases current with
    | none => exact same bound
    | some q =>
      rw [Edit.perform, Cursor.markLabel_stream]
      exact same (perform_label_stays (s := s.defineLabel.2) (c := .markLabel s.defineLabel.1 q)
        ok.distinct (by simp) (by simp) bound)
  | emit current insn => exact same (emitted current _)
  | emitBlock current b => exact same (emitted current b)
  | emitAfter current insn => exact same (emittedAfter current _)
  | emitBlockAfter current b => exact same (emittedAfter current b)
  | splice point => exact splice_label ok point bound

/-! ### Runs of edits -/

theorem WellFormed.validate (ok : s.WellFormed) : s.validate = .ok () := by
  unfold Stream.validate
  dsimp only
  split
  · next l lost =>
    obtain ⟨insn, member, target⟩ := List.mem_flatMap.mp (List.mem_of_find?_eq_some lost)
    obtain ⟨p, found⟩ := ok.closed member target
    have dead := List.find?_some lost
    simp only [found, Option.any_some, contains_iff.mpr (ok.live found)] at dead
    cases dead
  · rfl

theorem WellFormed.still_bound (ok : s.WellFormed) (es : List Edit)
    (bound : s.labels.find? l = some p) :
    ∃ q, (es.foldl Edit.perform s).labels.find? l = some q := by
  induction es generalizing s p with
  | nil => exact ⟨p, bound⟩
  | cons e es ih =>
    obtain ⟨q, found, -⟩ := e.perform_label ok bound
    exact ih (ok.perform e) found

/-- In every stream that edits lead to from a loaded body, branches have targets and labels stand at
instructions, a label that is bound stays bound, and it stays where it is unless it is moved in one
of the ways there are. -/
theorem reached_labels_stand (reached : s.Reachable) :
    s.validate = .ok () ∧
    (∀ l p, s.labels.find? l = some p → p ∈ s.positions) ∧
    (∀ (es : List Edit) l p, s.labels.find? l = some p →
      ∃ q, (es.foldl Edit.perform s).labels.find? l = some q) ∧
    ∀ (e : Edit) l p q, s.labels.find? l = some p → (e.perform s).labels.find? l = some q →
      q ≠ p → e.Moves s l p q := by
  have ok := reached.wellFormed
  refine ⟨ok.validate, fun l p => ok.live, fun es l p => ok.still_bound es,
    fun e l p q bound found other => ?_⟩
  obtain ⟨r, there, moves⟩ := e.perform_label ok bound
  obtain rfl := Option.some.inj (there.symm.trans found)
  exact moves other

/-- The label of an instruction that is removed moves to the instruction behind it. -/
theorem removed_label_moves : ∃ s,
    ofBody ⟨[⟨.nop, .none⟩, ⟨.br, .label ⟨0⟩⟩, ⟨.ret, .none⟩], .ofList [(⟨0⟩, 1)], false⟩ = .ok s ∧
    s.validate = .ok () ∧ s.labels.find? ⟨0⟩ = some ⟨1⟩ ∧
    (Edit.perform s (.remove (.single ⟨1⟩))).labels.find? ⟨0⟩ = some ⟨2⟩ ∧
    Edit.Moves s (.remove (.single ⟨1⟩)) ⟨0⟩ ⟨1⟩ ⟨2⟩ := by
  have loaded : ∃ s, ofBody ⟨[⟨.nop, .none⟩, ⟨.br, .label ⟨0⟩⟩, ⟨.ret, .none⟩],
      .ofList [(⟨0⟩, 1)], false⟩ = .ok s := ⟨_, rfl⟩
  obtain ⟨s, loaded⟩ := loaded
  obtain ⟨valid, -, -, moves⟩ := reached_labels_stand (.loaded loaded)
  cases loaded
  exact ⟨_, rfl, valid, rfl, rfl, moves _ _ _ _ rfl rfl (by decide)⟩

end Stream

end Interpose

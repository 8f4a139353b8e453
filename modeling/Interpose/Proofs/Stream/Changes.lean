import Interpose.Proofs.Stream.WellFormed

/-!
Runs of changes. Each change of a stream has an answer, and what it does to the list of
instructions and to the labels is said once, in `Effect`. Along a run a position keeps its
instruction until it is replaced or removed, and what is removed stays removed.
-/

set_option autoImplicit false
set_option relaxedAutoImplicit false

namespace Interpose

/-! ### Changes -/

inductive Change
  | insertBefore (p : Position) (b : Block)
  | insertAfter (p : Position) (b : Block)
  | append (b : Block)
  | remove (span : Span)
  | replace (p : Position) (insn : Instruction)
  | markLabel (l : Label) (p : Position)
  | retarget (l : Label) (p : Position)
  | defineLabel

inductive Change.Result
  | inserted (span : Span)
  | removed (code : List Instruction)
  | replaced (old : Instruction)
  | marked
  | defined (l : Label)
  deriving DecidableEq

/-- The result of an operation, or why it is refused. -/
abbrev Change.Answer := Except StreamError Change.Result

namespace Stream

def perform (s : Stream) : Change → Change.Answer × Stream
  | .insertBefore p b => ((s.insertBefore p b).1.map .inserted, (s.insertBefore p b).2)
  | .insertAfter p b => ((s.insertAfter p b).1.map .inserted, (s.insertAfter p b).2)
  | .append b => ((s.append b).1.map .inserted, (s.append b).2)
  | .remove span => ((s.remove span).1.map .removed, (s.remove span).2)
  | .replace p insn => ((s.replace p insn).1.map .replaced, (s.replace p insn).2)
  | .markLabel l p => ((s.markLabel l p).1.map fun _ => .marked, (s.markLabel l p).2)
  | .retarget l p => ((s.retarget l p).1.map fun _ => .marked, (s.retarget l p).2)
  | .defineLabel => (.ok (.defined s.defineLabel.1), s.defineLabel.2)

/-- The answers to some changes one after the other, and the stream after all of them. -/
def run (s : Stream) : List Change → List Change.Answer × Stream
  | [] => ([], s)
  | c :: cs => ((s.perform c).1 :: (run (s.perform c).2 cs).1, (run (s.perform c).2 cs).2)

end Stream

/-! ### What a change does to the list -/

/-- A change that is refused changes nothing. One that is done does this to the list and its labels,
and gives that answer. -/
inductive Stream.Effect (s : Stream) : Change → Change.Answer → Stream → Prop
  | refused {c : Change} (e : StreamError) : Effect s c (.error e) s
  | insertedBefore {before after : List Cell} {c : Cell} {b : Block} {t : Stream} :
      s.cells = before ++ c :: after → s.Admits b → s.Inserted t before (c :: after) b →
      Effect s (.insertBefore c.pos b)
        (.ok (.inserted ⟨⟨s.nextSerial⟩, ⟨s.nextSerial + b.code.length - 1⟩⟩)) t
  | insertedAfter {before after : List Cell} {c : Cell} {b : Block} {t : Stream} :
      s.cells = before ++ c :: after → s.Admits b → s.Inserted t (before ++ [c]) after b →
      Effect s (.insertAfter c.pos b)
        (.ok (.inserted ⟨⟨s.nextSerial⟩, ⟨s.nextSerial + b.code.length - 1⟩⟩)) t
  | appended {b : Block} {t : Stream} : s.Admits b → s.Inserted t s.cells [] b →
      Effect s (.append b)
        (.ok (.inserted ⟨⟨s.nextSerial⟩, ⟨s.nextSerial + b.code.length - 1⟩⟩)) t
  | removed {before inside after : List Cell} {labels : LabelTable Position} {span : Span} :
      s.cells = before ++ inside ++ after →
      (inside.map (·.pos)).head? = some span.first →
      (inside.map (·.pos)).getLast? = some span.last →
      (∀ l p, s.labels.find? l = some p → p ∈ inside.map (·.pos) → after ≠ []) →
      (∀ l, labels.find? l = (s.labels.find? l).map fun p =>
        if p ∈ inside.map (·.pos) then (after.head?.map (·.pos)).getD p else p) →
      Effect s (.remove span) (.ok (.removed (inside.map (·.insn))))
        { s with cells := before ++ after, labels }
  | replaced {before after : List Cell} {c : Cell} {insn : Instruction} :
      s.cells = before ++ c :: after →
      Effect s (.replace c.pos insn) (.ok (.replaced c.insn))
        { s with cells := before ++ ⟨c.pos, insn⟩ :: after }
  | marked {l : Label} {p : Position} : p ∈ s.positions → s.labels.find? l = none →
      Effect s (.markLabel l p) (.ok .marked) (s.bind l p)
  | retargeted {l : Label} {p q : Position} : p ∈ s.positions → s.labels.find? l = some q →
      Effect s (.retarget l p) (.ok .marked) { s with labels := s.labels.insert l p }
  | defined : Effect s .defineLabel (.ok (.defined ⟨s.nextLabel⟩))
      { s with nextLabel := s.nextLabel + 1 }

namespace Stream

variable {s t : Stream} {b : Block} {c : Change} {answer : Change.Answer}

theorem insertBetween_cases (s : Stream) (before after : List Cell) (b : Block) :
    (∃ e, s.insertBetween before after b = (.error e, s)) ∨
      s.Admits b ∧ s.Inserted (s.insertBetween before after b).2 before after b ∧
        (s.insertBetween before after b).1 =
          .ok ⟨⟨s.nextSerial⟩, ⟨s.nextSerial + b.code.length - 1⟩⟩ := by
  match result : s.insertBetween before after b with
  | (.error e, t) =>
    obtain rfl := insertBetween_refused result
    exact .inl ⟨e, rfl⟩
  | (.ok span, t) =>
    obtain ⟨admits, committed⟩ := insertBetween_iff.mp result
    have inserted := admits.inserted before after
    rw [committed] at inserted
    refine .inr ⟨admits, inserted, ?_⟩
    rw [← (Prod.mk.inj committed).1]

theorem remove_effect (s : Stream) (span : Span) :
    s.Effect (.remove span) (s.perform (.remove span)).1 (s.perform (.remove span)).2 := by
  simp only [perform]
  rcases s.remove_cases span with ⟨e, refused⟩ |
    ⟨before, inside, after, labels, cut, removed, moved⟩
  · rw [refused]
    exact .refused e
  · rw [removed]
    obtain ⟨start, stop⟩ := cut_ends cut
    refine .removed (cut_whole cut) start stop ?_ ?_
    · rintro l p found doomed rfl
      rcases moved with ⟨-, -, stay⟩ | ⟨c, rest, nonempty, -⟩
      · exact stay _ (LabelTable.find?_eq_some_iff.mp found) doomed
      · cases nonempty
    · intro l
      rcases moved with ⟨rfl, rfl, -⟩ | ⟨c, rest, rfl, rfl⟩
      · cases s.labels.find? l <;> simp
      · rw [LabelTable.find?_filterMap]
        cases s.labels.find? l <;> simp

theorem replace_effect (distinct : s.positions.Nodup) (p : Position) (insn : Instruction) :
    s.Effect (.replace p insn) (s.perform (.replace p insn)).1 (s.perform (.replace p insn)).2 := by
  simp only [perform, replace]
  cases insn.branchTargets.find? fun l => !s.labels.contains l with
  | some l => exact .refused _
  | none =>
    match split : splitAt? p s.cells with
    | none =>
      have unknown : s.insn? p = none := by simp [insn?, onward, split]
      simp only [unknown]
      exact .refused _
    | some (before, onward) =>
      obtain ⟨c, after, rfl, rfl, whole⟩ := split_cell split
      have known : s.insn? c.pos = some c.insn := by simp [insn?, Stream.onward, split]
      simp only [known, replaced_cells distinct whole insn]
      exact .replaced whole

theorem markLabel_effect (s : Stream) (l : Label) (p : Position) :
    s.Effect (.markLabel l p) (s.perform (.markLabel l p)).1 (s.perform (.markLabel l p)).2 := by
  simp only [perform, markLabel]
  by_cases present : s.contains p = true
  · by_cases bound : s.labels.contains l = true
    · simp only [present, bound]
      exact .refused _
    · have unbound := LabelTable.find?_eq_none_iff.mpr (Bool.eq_false_iff.mpr bound)
      simp only [present, bound]
      exact .marked (contains_iff.mp present) unbound
  · simp only [present]
    exact .refused _

theorem retarget_effect (s : Stream) (l : Label) (p : Position) :
    s.Effect (.retarget l p) (s.perform (.retarget l p)).1 (s.perform (.retarget l p)).2 := by
  match moved : s.retarget l p with
  | (.error e, t) =>
    obtain rfl := retarget_refused moved
    simp only [perform, moved]
    exact .refused e
  | (.ok (), t) =>
    obtain ⟨here, ⟨q, bound⟩, rfl⟩ := retarget_iff.mp moved
    simp only [perform, moved]
    exact .retargeted here bound

theorem perform_effect (distinct : s.positions.Nodup) (c : Change) :
    s.Effect c (s.perform c).1 (s.perform c).2 := by
  cases c with
  | insertBefore p b =>
    match split : splitAt? p s.cells with
    | none =>
      simp only [perform, insertBefore, split]
      exact .refused _
    | some (before, onward) =>
      obtain ⟨c, after, rfl, rfl, whole⟩ := split_cell split
      simp only [perform, insertBefore, split]
      rcases s.insertBetween_cases before (c :: after) b with ⟨e, refused⟩ |
        ⟨admits, inserted, span⟩
      · rw [refused]
        exact .refused e
      · rw [span]
        exact .insertedBefore whole admits inserted
  | insertAfter p b =>
    match split : splitAt? p s.cells with
    | none =>
      simp only [perform, insertAfter, split]
      exact .refused _
    | some (before, onward) =>
      obtain ⟨c, after, rfl, rfl, whole⟩ := split_cell split
      simp only [perform, insertAfter, split, List.take_succ_cons, List.take_zero,
        List.drop_succ_cons, List.drop_zero]
      rcases s.insertBetween_cases (before ++ [c]) after b with ⟨e, refused⟩ |
        ⟨admits, inserted, span⟩
      · rw [refused]
        exact .refused e
      · rw [span]
        exact .insertedAfter whole admits inserted
  | append b =>
    simp only [perform, append]
    rcases s.insertBetween_cases s.cells [] b with ⟨e, refused⟩ | ⟨admits, inserted, span⟩
    · rw [refused]
      exact .refused e
    · rw [span]
      exact .appended admits inserted
  | remove span => exact s.remove_effect span
  | replace p insn => exact replace_effect distinct p insn
  | markLabel l p => exact s.markLabel_effect l p
  | retarget l p => exact s.retarget_effect l p
  | defineLabel => exact .defined

/-! ### Spans -/

theorem spanPositions_unknown {span : Span}
    (absent : span.first ∉ s.positions ∨ span.last ∉ s.positions) :
    s.spanPositions span = .error .unknownPosition := by
  rcases absent with first | last
  · simp [spanPositions, cut, split_none_iff.mpr first]
  · simp only [spanPositions, cut, split_none_iff.mpr last]
    cases splitAt? span.first s.cells <;> rfl

theorem spanPositions_at (distinct : s.positions.Nodup) {p q : Position} {i j : Nat}
    (first : s.positions[i]? = some p) (last : s.positions[j]? = some q) :
    s.spanPositions ⟨p, q⟩ =
      if i ≤ j then .ok ((s.positions.drop i).take (j + 1 - i)) else .error .invalidSpan := by
  obtain ⟨⟨before, onward⟩, splitFirst, rfl⟩ :=
    Option.map_eq_some_iff.mp ((index_iff distinct).mpr first)
  obtain ⟨parts, splitLast, -⟩ := Option.map_eq_some_iff.mp ((index_iff distinct).mpr last)
  obtain ⟨whole, -, -⟩ := split_iff.mp splitFirst
  have places : s.positions = before.map (·.pos) ++ onward.map (·.pos) := by
    simp [positions, whole]
  have behind : s.positions.drop before.length = onward.map (·.pos) := by
    rw [places, List.drop_append_of_le_length (by simp), List.drop_eq_nil_of_le (by simp),
      List.nil_append]
  simp only [spanPositions, cut, splitFirst, splitLast]
  rcases splitInner : splitAt? q onward with _ | ⟨inner, final⟩
  · rw [if_neg fun inOrder => ?_]
    refine split_none_iff.mp splitInner ?_
    rw [← behind, List.mem_iff_getElem?]
    exact ⟨j - before.length, by rw [List.getElem?_drop, Nat.add_sub_cancel' inOrder, last]⟩
  · obtain ⟨c, rest, rfl, rfl, inside⟩ :
        ∃ c rest, final = c :: rest ∧ c.pos = q ∧ onward = inner ++ c :: rest := by
      obtain ⟨inside, -, head⟩ := split_iff.mp splitInner
      obtain ⟨c, start, here⟩ := Option.map_eq_some_iff.mp head
      obtain ⟨rest, rfl⟩ := List.head?_eq_some_iff.mp start
      exact ⟨c, rest, rfl, here, inside⟩
    have there : s.positions[before.length + inner.length]? = some c.pos := by
      rw [places, List.getElem?_append_right (by simp)]
      simp [inside]
    obtain ⟨bound, -⟩ := List.getElem?_eq_some_iff.mp there
    obtain rfl := (List.getElem?_inj bound distinct).mp (there.trans last.symm)
    rw [if_pos (Nat.le_add_right _ _), behind, inside]
    have count : before.length + inner.length + 1 - before.length = inner.length + 1 := by omega
    have taken : (inner.map (·.pos)).take (inner.length + 1) = inner.map (·.pos) :=
      List.take_of_length_le (by simp)
    simp [count, List.take_append, taken]

/-! ### Runs -/

theorem run_append (s : Stream) (cs ds : List Change) :
    (s.run (cs ++ ds)).2 = ((s.run cs).2.run ds).2 := by
  induction cs generalizing s with
  | nil => rfl
  | cons c cs ih => exact ih (s.perform c).2

/-- A position is in a span if it is not in front of its first one nor behind its last one. -/
def Within (s : Stream) (span : Span) (p : Position) : Prop :=
  ∃ i j n : Nat, s.positions[i]? = some span.first ∧ s.positions[n]? = some p ∧
    s.positions[j]? = some span.last ∧ i ≤ n ∧ n ≤ j

/-- Changes that do away with the instruction at a position. -/
def Takes (s : Stream) (p : Position) : Change → Prop
  | .remove span => s.Within span p
  | .replace q _ => q = p
  | _ => False

theorem within_of_inside {before inside after : List Cell} {span : Span} {p : Position}
    (whole : s.cells = before ++ inside ++ after)
    (start : (inside.map (·.pos)).head? = some span.first)
    (stop : (inside.map (·.pos)).getLast? = some span.last) (here : p ∈ inside.map (·.pos)) :
    s.Within span p := by
  have places : s.positions =
      before.map (·.pos) ++ (inside.map (·.pos) ++ after.map (·.pos)) := by
    simp [positions, whole]
  have nth : ∀ i, i < inside.length →
      s.positions[before.length + i]? = (inside.map (·.pos))[i]? := by
    intro i within
    rw [places, List.getElem?_append_right (by simp),
      List.getElem?_append_left (by simpa using within)]
    simp
  obtain ⟨i, found⟩ := List.mem_iff_getElem?.mp here
  have size : i < inside.length := by
    obtain ⟨within, -⟩ := List.getElem?_eq_some_iff.mp found
    simpa using within
  rw [List.head?_eq_getElem?] at start
  rw [List.getLast?_eq_getElem?, List.length_map] at stop
  refine ⟨before.length + 0, before.length + (inside.length - 1), before.length + i,
    (nth 0 (by omega)).trans start, (nth i size).trans found,
    (nth (inside.length - 1) (by omega)).trans stop, by omega, by omega⟩

theorem Inserted.fresh {before after : List Cell} (whole : s.cells = before ++ after)
    (inserted : s.Inserted t before after b) : s.nextSerial ≤ t.nextSerial ∧
      ∀ p ∈ t.positions, p ∈ s.positions ∨ s.nextSerial ≤ p.serial := by
  refine ⟨by rw [inserted.serial]; omega, fun p member => ?_⟩
  rw [(inserted.positions_perm whole).mem_iff, List.mem_append, mem_numbered] at member
  exact member.imp_right And.left

theorem Inserted.keeps {before after : List Cell} (whole : s.cells = before ++ after)
    (inserted : s.Inserted t before after b) {c : Cell} (here : c ∈ s.cells) : c ∈ t.cells := by
  rw [whole, List.mem_append] at here
  rw [inserted.cells, List.append_assoc, List.mem_append, List.mem_append]
  exact here.imp_right .inr

theorem Effect.fresh (effect : s.Effect c answer t) : s.nextSerial ≤ t.nextSerial ∧
    ∀ p ∈ t.positions, p ∈ s.positions ∨ s.nextSerial ≤ p.serial := by
  cases effect with
  | refused e => exact ⟨Nat.le_refl _, fun p member => .inl member⟩
  | insertedBefore whole _ inserted => exact inserted.fresh whole
  | insertedAfter whole _ inserted => exact inserted.fresh (by simpa using whole)
  | appended _ inserted => exact inserted.fresh (List.append_nil _).symm
  | removed whole _ _ _ _ =>
    refine ⟨Nat.le_refl _, fun p member => .inl ?_⟩
    simp only [positions, whole, List.map_append, List.mem_append] at member ⊢
    tauto
  | replaced whole =>
    refine ⟨Nat.le_refl _, fun p member => .inl ?_⟩
    simpa [positions, whole] using member
  | marked _ _ => exact ⟨Nat.le_refl _, fun p member => .inl member⟩
  | retargeted _ _ => exact ⟨Nat.le_refl _, fun p member => .inl member⟩
  | defined => exact ⟨Nat.le_refl _, fun p member => .inl member⟩

theorem Effect.keeps (effect : s.Effect c answer t) {p : Position} {insn : Instruction}
    (here : ⟨p, insn⟩ ∈ s.cells) :
    ⟨p, insn⟩ ∈ t.cells ∨ (∃ a, answer = .ok a) ∧ s.Takes p c := by
  cases effect with
  | refused e => exact .inl here
  | insertedBefore whole _ inserted => exact .inl (inserted.keeps whole here)
  | insertedAfter whole _ inserted => exact .inl (inserted.keeps (by simpa using whole) here)
  | appended _ inserted => exact .inl (inserted.keeps (List.append_nil _).symm here)
  | @removed before inside after _ span whole start stop _ _ =>
    rw [whole, List.mem_append, List.mem_append] at here
    rcases here with (front | inner) | back
    · exact .inl (List.mem_append_left _ front)
    · exact .inr ⟨⟨_, rfl⟩, within_of_inside whole start stop (List.mem_map_of_mem inner)⟩
    · exact .inl (List.mem_append_right _ back)
  | @replaced before after old new whole =>
    rw [whole, List.mem_append, List.mem_cons] at here
    rcases here with front | rfl | back
    · exact .inl (List.mem_append_left _ front)
    · exact .inr ⟨⟨_, rfl⟩, rfl⟩
    · exact .inl (List.mem_append_right _ (List.mem_cons_of_mem _ back))
  | marked _ _ => exact .inl here
  | retargeted _ _ => exact .inl here
  | defined => exact .inl here

theorem run_keeps (distinct : ∀ cs, (s.run cs).2.positions.Nodup) {p : Position}
    {insn : Instruction} (here : ⟨p, insn⟩ ∈ s.cells) (cs : List Change) :
    ⟨p, insn⟩ ∈ (s.run cs).2.cells ∨ ∃ before c after, cs = before ++ c :: after ∧
      (∃ a, ((s.run before).2.perform c).1 = .ok a) ∧ (s.run before).2.Takes p c := by
  induction cs generalizing s with
  | nil => exact .inl here
  | cons c cs ih =>
    rcases (perform_effect (distinct []) c).keeps here with still | ⟨done, takes⟩
    · rcases ih (fun ds => distinct (c :: ds)) still with last |
        ⟨before, d, after, rfl, done, takes⟩
      · exact .inl last
      · exact .inr ⟨c :: before, d, after, rfl, done, takes⟩
    · exact .inr ⟨[], c, cs, rfl, done, takes⟩

theorem run_gone (distinct : ∀ cs, (s.run cs).2.positions.Nodup) {p : Position}
    (old : p.serial < s.nextSerial) (gone : p ∉ s.positions) (cs : List Change) :
    p ∉ (s.run cs).2.positions := by
  induction cs generalizing s with
  | nil => exact gone
  | cons c cs ih =>
    obtain ⟨grown, fresh⟩ := (perform_effect (distinct []) c).fresh
    refine ih (fun ds => distinct (c :: ds)) (Nat.lt_of_lt_of_le old grown) fun member => ?_
    rcases fresh p member with there | new
    · exact gone there
    · exact absurd old (Nat.not_lt.mpr new)

theorem run_grows (distinct : ∀ cs, (s.run cs).2.positions.Nodup) (cs : List Change) :
    s.nextSerial ≤ (s.run cs).2.nextSerial := by
  induction cs generalizing s with
  | nil => exact Nat.le_refl _
  | cons c cs ih =>
    exact Nat.le_trans (perform_effect (distinct []) c).fresh.1 (ih fun ds => distinct (c :: ds))

end Stream

end Interpose

import Interpose.Proofs.Stream.Refused

/-!
Cursors on a stream. A cursor stands at an instruction of its stream or past the last one, whatever
was done with it; so it can label the instruction it stands on, and an action that is refused leaves
it and its stream as they were.
-/

set_option autoImplicit false
set_option relaxedAutoImplicit false

namespace Interpose

/-! ### Positions around a cursor -/

namespace Stream

variable {s : Stream} {b : Block} {p : Position}

theorem mem_of_onward {c : Cell} (member : c ∈ s.onward p) : c ∈ s.cells := by
  unfold onward at member
  split at member
  · next split =>
    rw [(split_iff.mp split).1]
    exact List.mem_append_right _ member
  · cases member

theorem mem_of_before {c : Cell} (member : c ∈ s.before p) : c ∈ s.cells := by
  unfold before at member
  split at member
  · next split =>
    rw [(split_iff.mp split).1]
    exact List.mem_append_left _ member
  · cases member

theorem mem_of_next {q : Position} (next : s.next? p = some q) : q ∈ s.positions := by
  obtain ⟨c, here, rfl⟩ := Option.map_eq_some_iff.mp next
  exact List.mem_map_of_mem (mem_of_onward (List.mem_of_getElem? here))

theorem mem_of_first (first : s.first? = some p) : p ∈ s.positions := by
  obtain ⟨c, here, rfl⟩ := Option.map_eq_some_iff.mp first
  exact List.mem_map_of_mem (List.mem_of_head? here)

theorem markLabel_positions (s : Stream) (l : Label) (p : Position) :
    (s.markLabel l p).2.positions = s.positions := by
  unfold markLabel
  split
  · rfl
  · split <;> rfl

theorem insertBetween_keeps {before after : List Cell} (whole : s.cells = before ++ after)
    (here : p ∈ s.positions) : p ∈ (s.insertBetween before after b).2.positions := by
  rcases s.insertBetween_cases before after b with ⟨e, refused⟩ | ⟨-, inserted, -⟩
  · rwa [refused]
  · obtain ⟨c, member, rfl⟩ := List.mem_map.mp here
    exact List.mem_map_of_mem (inserted.keeps whole member)

theorem insertBefore_keeps (q : Position) (here : p ∈ s.positions) :
    p ∈ (s.insertBefore q b).2.positions := by
  unfold insertBefore
  split
  · exact here
  · next before onward split => exact insertBetween_keeps (split_iff.mp split).1 here

theorem insertAfter_lands {span : Span} {t : Stream}
    (went : s.insertAfter p b = (.ok span, t)) : span.last ∈ t.positions := by
  unfold insertAfter at went
  split at went
  · cases went
  next before onward _ =>
  rcases s.insertBetween_cases (before ++ onward.take 1) (onward.drop 1) b with
    ⟨e, refused⟩ | ⟨admits, inserted, told⟩
  · cases refused.symm.trans went
  · rw [went] at inserted told
    have cells : t.cells = _ := inserted.cells
    have size := List.length_pos_iff.mpr admits.nonempty
    cases told
    rw [positions, cells, List.map_append, List.map_append]
    refine List.mem_append_left _ (List.mem_append_right _ (mem_numbered.mpr ⟨?_, ?_⟩))
    · exact Nat.le_sub_one_of_lt (Nat.lt_add_of_pos_right size)
    · exact Nat.sub_one_lt (by omega)

end Stream

namespace Cursor

inductive Action
  | goto (p : Position)
  | gotoStart
  | gotoEnd
  | advance
  | gotoNext (predicate : Predicate)
  | gotoPrev (predicate : Predicate)
  | gotoNextPattern (pattern : Pattern)
  | gotoNextSequence (predicates : List Predicate)
  | defineLabel
  | markLabel
  | emit (insn : Instruction)
  | emitBlock (b : Block)
  | emitAfter (insn : Instruction)
  | emitBlockAfter (b : Block)

/-- Whether an operation is done or why it is refused, without its result. -/
def Outcome.verdict {α : Type} (r : Outcome α) : Outcome Unit := (r.1.map fun _ => (), r.2)

def perform (c : Cursor) : Action → Outcome Unit
  | .goto p => c.goto p
  | .gotoStart => (.ok (), c.gotoStart)
  | .gotoEnd => (.ok (), c.gotoEnd)
  | .advance => (.ok (), c.advance.2)
  | .gotoNext predicate => (c.gotoNext predicate).verdict
  | .gotoPrev predicate => (c.gotoPrev predicate).verdict
  | .gotoNextPattern pattern => (c.gotoNextPattern pattern).verdict
  | .gotoNextSequence predicates => (c.gotoNextSequence predicates).verdict
  | .defineLabel => (.ok (), c.defineLabel.2)
  | .markLabel => c.markLabel.verdict
  | .emit insn => (c.emit insn).verdict
  | .emitBlock b => (c.emitBlock b).verdict
  | .emitAfter insn => (c.emitAfter insn).verdict
  | .emitBlockAfter b => (c.emitBlockAfter b).verdict

/-- The cursors that come up: on any stream, after anything that was done with them. -/
inductive Reached : Cursor → Prop
  | start {s : Stream} : s.Obtained → Reached (.start s)
  | on {s : Stream} {p : Position} {c : Cursor} : s.Obtained → Cursor.on s p = .ok c → Reached c
  | acted {c : Cursor} (a : Action) : Reached c → Reached (c.perform a).2

/-- The cursor stands at an instruction of its stream, or past the last one. -/
def Lives (c : Cursor) : Prop := ∀ p, c.current = some p → p ∈ c.stream.positions

variable {s : Stream} {c : Cursor} {p : Position} {b : Block}

theorem markLabel_current (c : Cursor) : c.markLabel.2.current = c.current := by
  unfold markLabel
  split
  · rfl
  · dsimp only
    split <;> rfl

/-! ### Where a cursor stands -/

theorem gotoAmong_lives (lives : c.Lives) (predicate : Predicate) {cells : List Cell}
    (inside : ∀ cell ∈ cells, cell ∈ c.stream.cells) :
    (c.gotoAmong predicate cells).2.Lives := by
  unfold gotoAmong
  split
  · next cell found =>
    rintro p ⟨⟩
    exact List.mem_map_of_mem (inside cell (List.mem_of_find?_eq_some found))
  · exact lives

theorem ahead_inside (c : Cursor) : ∀ cell ∈ c.ahead, cell ∈ c.stream.cells := by
  unfold ahead
  split
  · exact fun _ => Stream.mem_of_onward
  · exact fun _ member => absurd member List.not_mem_nil

theorem behind_inside (c : Cursor) : ∀ cell ∈ c.behind, cell ∈ c.stream.cells := by
  unfold behind
  split
  · exact fun _ member => Stream.mem_of_before (List.mem_reverse.mp member)
  · exact fun _ => List.mem_reverse.mp

theorem gotoNextPattern_lives (lives : c.Lives) (pattern : Pattern) :
    (c.gotoNextPattern pattern).2.Lives := by
  unfold gotoNextPattern
  split
  · exact fun p => Stream.mem_of_next
  · exact lives

theorem emitBlock_lives (lives : c.Lives) (b : Block) : (c.emitBlock b).2.Lives := by
  obtain ⟨s, current⟩ := c
  cases current with
  | none => exact nofun
  | some p => exact fun q here => Stream.insertBefore_keeps p (lives q here)

theorem emitBlockAfter_allOrNothing (c : Cursor) (b : Block) :
    AllOrNothing c (c.emitBlockAfter b) := by
  unfold emitBlockAfter
  split
  · exact .refused
  next p stands =>
  have whole := c.stream.insertAfter_allOrNothing p b
  split
  · exact .done
  · next e t refused =>
    obtain rfl : t = c.stream := (congrArg Prod.snd refused).symm.trans (whole e (by rw [refused]))
    exact .refused

theorem emitBlockAfter_lives (lives : c.Lives) (b : Block) : (c.emitBlockAfter b).2.Lives := by
  match result : c.emitBlockAfter b with
  | (.error e, d) =>
    obtain rfl : d = c := (congrArg Prod.snd result).symm.trans
      (emitBlockAfter_allOrNothing c b e (by rw [result]))
    exact lives
  | (.ok span, d) =>
    unfold emitBlockAfter at result
    split at result
    · cases result
    split at result
    · next went =>
      cases result
      rintro q ⟨⟩
      exact Stream.insertAfter_lands went
    · cases result

theorem Lives.perform (lives : c.Lives) (a : Action) :
    (c.perform a).2.Lives := by
  cases a with
  | goto p =>
    simp only [Cursor.perform, goto]
    split
    · next here =>
      rintro q ⟨⟩
      exact Stream.contains_iff.mp here
    · exact lives
  | gotoStart => exact fun p => Stream.mem_of_first
  | gotoEnd => exact nofun
  | advance =>
    intro p next
    obtain ⟨q, -, next⟩ := Option.bind_eq_some_iff.mp next
    exact Stream.mem_of_next next
  | gotoNext predicate => exact gotoAmong_lives lives predicate c.ahead_inside
  | gotoPrev predicate => exact gotoAmong_lives lives predicate c.behind_inside
  | gotoNextPattern pattern => exact gotoNextPattern_lives lives pattern
  | gotoNextSequence predicates => exact gotoNextPattern_lives lives _
  | defineLabel => exact lives
  | markLabel =>
    intro p stands
    have here := lives p (c.markLabel_current ▸ stands)
    obtain ⟨s, current⟩ := c
    cases current with
    | none => exact here
    | some q =>
      simp only [Cursor.perform, Outcome.verdict, markLabel_stream, Stream.markLabel_positions]
      exact here
  | emit insn => exact emitBlock_lives lives _
  | emitBlock b => exact emitBlock_lives lives b
  | emitAfter insn => exact emitBlockAfter_lives lives _
  | emitBlockAfter b => exact emitBlockAfter_lives lives b

theorem perform_edit (c : Cursor) (a : Action) : (c.perform a).2.stream = c.stream ∨
    ∃ e : Stream.Edit, (c.perform a).2.stream = e.perform c.stream := by
  cases a with
  | goto p =>
    simp only [perform, goto]
    split <;> exact .inl rfl
  | gotoNext predicate | gotoPrev predicate =>
    simp only [perform, Outcome.verdict, gotoNext, gotoPrev, gotoAmong]
    split <;> exact .inl rfl
  | gotoNextPattern pattern =>
    simp only [perform, Outcome.verdict, gotoNextPattern]
    split <;> exact .inl rfl
  | gotoNextSequence predicates =>
    simp only [perform, Outcome.verdict, gotoNextSequence, gotoNextPattern]
    split <;> exact .inl rfl
  | gotoStart | gotoEnd | advance => exact .inl rfl
  | defineLabel => exact .inr ⟨.cursorDefine c.current, rfl⟩
  | markLabel => exact .inr ⟨.cursorMark c.current, rfl⟩
  | emit insn => exact .inr ⟨.emit c.current insn, rfl⟩
  | emitBlock b => exact .inr ⟨.emitBlock c.current b, rfl⟩
  | emitAfter insn => exact .inr ⟨.emitAfter c.current insn, rfl⟩
  | emitBlockAfter b => exact .inr ⟨.emitBlockAfter c.current b, rfl⟩

theorem on_ok (stood : Cursor.on s p = .ok c) : p ∈ s.positions ∧ c = ⟨s, some p⟩ := by
  unfold Cursor.on at stood
  split at stood
  · next here =>
    cases stood
    exact ⟨Stream.contains_iff.mp here, rfl⟩
  · cases stood

theorem Reached.obtained (reached : c.Reached) : c.stream.Obtained := by
  induction reached with
  | start obtained => exact obtained
  | on obtained stood =>
    obtain ⟨-, rfl⟩ := on_ok stood
    exact obtained
  | @acted c a _ ih =>
    rcases c.perform_edit a with same | ⟨e, edited⟩
    · exact same ▸ ih
    · exact edited ▸ .edited e ih

theorem Reached.lives (reached : c.Reached) : c.Lives := by
  induction reached with
  | start _ => exact fun p => Stream.mem_of_first
  | on _ stood =>
    obtain ⟨here, rfl⟩ := on_ok stood
    rintro q ⟨⟩
    exact here
  | acted a _ ih => exact ih.perform a

/-! ### Refused actions -/

end Cursor

/-! ### Streams as a whole -/

end Interpose

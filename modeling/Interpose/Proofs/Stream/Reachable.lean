import Interpose.Proofs.Splice.Apply
import Interpose.Proofs.Stream.Changes

/-!
The streams that come up. A stream is loaded from a body and then edited in any way: directly,
through a cursor wherever it stands, or by splicing extension points in. No edit leaves the
well-formed streams, whether it succeeds or is refused.
-/

set_option autoImplicit false
set_option relaxedAutoImplicit false

namespace Interpose

namespace Stream

/-- One edit with all it is given. The edits through a cursor have the position it stands on. -/
inductive Edit
  | defineLabel
  | markLabel (l : Label) (p : Position)
  | retarget (l : Label) (p : Position)
  | insertBefore (p : Position) (b : Block)
  | insertAfter (p : Position) (b : Block)
  | append (b : Block)
  | remove (span : Span)
  | replace (p : Position) (insn : Instruction)
  | setReturns (returns : Bool)
  | cursorDefine (current : Option Position)
  | cursorMark (current : Option Position)
  | emit (current : Option Position) (insn : Instruction)
  | emitBlock (current : Option Position) (b : Block)
  | emitAfter (current : Option Position) (insn : Instruction)
  | emitBlockAfter (current : Option Position) (b : Block)
  | splice (p : Point)

/-- The stream after an edit, be it done or refused. -/
def Edit.perform (s : Stream) : Edit → Stream
  | .defineLabel => s.defineLabel.2
  | .markLabel l p => (s.markLabel l p).2
  | .retarget l p => (s.retarget l p).2
  | .insertBefore p b => (s.insertBefore p b).2
  | .insertAfter p b => (s.insertAfter p b).2
  | .append b => (s.append b).2
  | .remove span => (s.remove span).2
  | .replace p insn => (s.replace p insn).2
  | .setReturns returns => s.withReturns returns
  | .cursorDefine current => (Cursor.defineLabel ⟨s, current⟩).2.stream
  | .cursorMark current => (Cursor.markLabel ⟨s, current⟩).2.stream
  | .emit current insn => (Cursor.emit ⟨s, current⟩ insn).2.stream
  | .emitBlock current b => (Cursor.emitBlock ⟨s, current⟩ b).2.stream
  | .emitAfter current insn => (Cursor.emitAfter ⟨s, current⟩ insn).2.stream
  | .emitBlockAfter current b => (Cursor.emitBlockAfter ⟨s, current⟩ b).2.stream
  | .splice p => (p.apply s).2

/-- The streams that any edits lead to from a loaded body. -/
inductive Reachable : Stream → Prop
  | loaded {b : Body} {s : Stream} : ofBody b = .ok s → Reachable s
  | edited {s : Stream} (e : Edit) : Reachable s → Reachable (e.perform s)

end Stream

/-! ### Edits as changes -/

section Preserved

variable {s : Stream} {P : Stream → Prop}

theorem Point.retargetAll_preserves
    (moved : ∀ {s : Stream} (l : Label) (q : Position), P s → P (s.retarget l q).2) (q : Position)
    (ls : List Label) (holds : P s) : P (retargetAll s q ls).2 := by
  induction ls generalizing s with
  | nil => exact holds
  | cons l ls ih =>
    have first := moved l q holds
    match moves : s.retarget l q with
    | (.error e, t) => simpa only [retargetAll, moves] using first
    | (.ok (), t) =>
      rw [moves] at first
      simpa only [retargetAll, moves] using ih first

theorem Point.apply_at_site {p : Point} {site : Point.Site} (found : p.site s = .ok site)
    (moved : ∀ {s : Stream} (l : Label) (q : Position), P s → P (s.retarget l q).2)
    (inserted :
      let lowered := p.template.lower (p.loads site) s site.resumeAt site.skipAt
      P (lowered.2.insertBefore site.resumeAt lowered.1).2) : P (p.apply s).2 := by
  simp only [Point.apply, found]
  dsimp only at inserted
  split
  · next went =>
    rw [went] at inserted
    exact inserted
  · next span after went =>
    rw [went] at inserted
    have led := retargetAll_preserves moved span.first site.incoming inserted
    split <;> next result =>
      rw [result] at led
      exact led

theorem Point.apply_preserves
    (renumbered : ∀ {s : Stream} (n : UInt32), P s → P { s with nextLabel := n })
    (changed : ∀ {s : Stream} (c : Change), P s → P (s.perform c).2) (p : Point) (holds : P s) :
    P (p.apply s).2 := by
  match found : p.site s with
  | .error e => simpa only [Point.apply, found] using holds
  | .ok site =>
    refine apply_at_site found (fun l q => changed (.retarget l q)) (changed (.insertBefore _ _) ?_)
    obtain ⟨name, lowered⟩ :=
      Template.lower_lowered (p.loads site) s site.resumeAt site.skipAt p.template
    exact lowered.stream ▸ renumbered _ holds

namespace Cursor

theorem markLabel_stream (s : Stream) (q : Position) :
    (Cursor.markLabel ⟨s, some q⟩).2.stream = (s.defineLabel.2.markLabel s.defineLabel.1 q).2 := by
  simp only [markLabel]
  split <;> next result => rw [result]

theorem emitBlockAfter_stream (s : Stream) (q : Position) (b : Block) :
    (Cursor.emitBlockAfter ⟨s, some q⟩ b).2.stream = (s.insertAfter q b).2 := by
  simp only [emitBlockAfter]
  split <;> next result => rw [result]

end Cursor

theorem Stream.Edit.preserves
    (renumbered : ∀ {s : Stream} (n : UInt32), P s → P { s with nextLabel := n })
    (changed : ∀ {s : Stream} (c : Change), P s → P (s.perform c).2)
    (returning : ∀ {s : Stream} (returns : Bool), P s → P (s.withReturns returns)) (e : Edit)
    (holds : P s) : P (e.perform s) := by
  have emitted : ∀ (current : Option Position) (b : Block),
      P (Cursor.emitBlock ⟨s, current⟩ b).2.stream := fun current b => by
    cases current with
    | none => exact changed (.append b) holds
    | some p => exact changed (.insertBefore p b) holds
  have emittedAfter : ∀ (current : Option Position) (b : Block),
      P (Cursor.emitBlockAfter ⟨s, current⟩ b).2.stream := fun current b => by
    cases current with
    | none => exact holds
    | some p =>
      rw [Cursor.emitBlockAfter_stream]
      exact changed (.insertAfter p b) holds
  cases e with
  | defineLabel | cursorDefine => exact renumbered _ holds
  | markLabel l p => exact changed (.markLabel l p) holds
  | retarget l p => exact changed (.retarget l p) holds
  | insertBefore p b => exact changed (.insertBefore p b) holds
  | insertAfter p b => exact changed (.insertAfter p b) holds
  | append b => exact changed (.append b) holds
  | remove span => exact changed (.remove span) holds
  | replace p insn => exact changed (.replace p insn) holds
  | setReturns returns => exact returning returns holds
  | cursorMark current =>
    cases current with
    | none => exact holds
    | some p =>
      rw [perform, Cursor.markLabel_stream]
      exact changed (.markLabel _ p) (renumbered _ holds)
  | emit current insn => exact emitted current _
  | emitBlock current b => exact emitted current b
  | emitAfter current insn => exact emittedAfter current _
  | emitBlockAfter current b => exact emittedAfter current b
  | splice p => exact p.apply_preserves renumbered changed holds

end Preserved

/-! ### Well-formed streams -/

variable {s : Stream}

namespace Stream

theorem WellFormed.change (ok : s.WellFormed) (c : Change) : (s.perform c).2.WellFormed := by
  cases c with
  | insertBefore p b => exact ok.insertBefore p
  | insertAfter p b => exact ok.insertAfter p
  | append b => exact ok.append
  | remove span => exact ok.remove span
  | replace p insn => exact ok.replace p insn
  | markLabel l p => exact ok.markLabel l p
  | retarget l p => exact ok.retarget l p
  | defineLabel => exact ok.defineLabel

theorem WellFormed.perform (ok : s.WellFormed) (e : Edit) : (e.perform s).WellFormed :=
  e.preserves (fun n ok => ok.renumber n) (fun c ok => ok.change c)
    (fun _ ok => ⟨ok.distinct, ok.issued, ok.live, ok.closed⟩) ok

theorem Reachable.wellFormed (reached : s.Reachable) : s.WellFormed := by
  induction reached with
  | loaded loads => exact ofBody_wellFormed loads
  | edited e _ ih => exact ih.perform e

end Stream

theorem Point.apply_wellFormed (ok : s.WellFormed) (p : Point) : (p.apply s).2.WellFormed :=
  ok.perform (.splice p)

end Interpose

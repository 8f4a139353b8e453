import Interpose.Predicate

/-!
Patterns describe an anchor in a method body: predicates for successive instructions, with gaps that
absorb what differs from one build of the host to the next. A pattern set is a primary pattern with
fallbacks for other builds.
-/

set_option autoImplicit false
set_option relaxedAutoImplicit false

namespace Interpose

open Interpose.Text (decimal)

/-- A predicate, and how many other instructions may come between the previous step and it. -/
structure Step where
  maxGap : Nat
  predicate : Predicate

structure Pattern where
  name : String
  steps : List Step

namespace Pattern

/-- A pattern whose steps follow each other immediately. -/
def contiguous (name : String) (predicates : List Predicate) : Pattern :=
  ⟨name, predicates.map (⟨0, ·⟩)⟩

private def laterText : List Step → List String
  | [] => []
  | step :: rest =>
    (if 0 < step.maxGap then ["?" ++ decimal step.maxGap] else []) ++
      step.predicate.description :: laterText rest

/-- A pattern in listings: its name, and its steps with the gaps between them. A gap in front of the
first step has no meaning and is not shown. -/
def text (p : Pattern) : String :=
  let steps := match p.steps with
    | [] => []
    | first :: rest => first.predicate.description :: laterText rest
  p.name ++ " [" ++ "; ".intercalate steps ++ "]"

end Pattern

/-- A primary pattern, and the fallbacks tried after it in order. -/
structure PatternSet where
  primary : Pattern
  fallbacks : List Pattern

namespace PatternSet

def alternatives (ps : PatternSet) : List Pattern := ps.primary :: ps.fallbacks

def describe (ps : PatternSet) : String := ", ".intercalate (ps.alternatives.map (·.name))

end PatternSet

end Interpose

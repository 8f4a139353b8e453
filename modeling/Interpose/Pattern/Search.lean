import Interpose.Pattern
import Interpose.Stream.Basic

/-!
Searching a stream for a pattern. The first step holds at the start of a window, and each later step
at the first instruction that satisfies it. The instructions skipped on the way are at most as many
as the step's gap allows, and none of them satisfies the first step or any step still to come: a
shorter window would start there, or a later match would be jumped over.
-/

set_option autoImplicit false
set_option relaxedAutoImplicit false

namespace Interpose

namespace Pattern

/-- How many instructions it takes to reach a step from the match before it: the first one that
satisfies the step, behind at most `gap` others that satisfy neither the first step of the pattern
nor a later one. -/
def reach (first step : Predicate) (later : List Predicate) :
    (gap : Nat) → List Instruction → Option Nat
  | _, [] => none
  | gap, insn :: rest =>
    if step.accepts insn then some 1
    else if first.accepts insn || later.any (·.accepts insn) then none
    else
      match gap with
      | 0 => none
      | gap + 1 => (reach first step later gap rest).map (· + 1)

/-- How many instructions it takes to match the steps after the first. -/
def extent (first : Predicate) : List Step → List Instruction → Option Nat
  | [], _ => some 0
  | step :: later, code =>
    match reach first step.predicate (later.map (·.predicate)) step.maxGap code with
    | none => none
    | some n => (extent first later (code.drop n)).map (n + ·)

/-- The length of the window that a pattern matches at the start of some code. -/
def window? (p : Pattern) : List Instruction → Option Nat
  | [] => none
  | insn :: rest =>
    match p.steps with
    | [] => none
    | first :: later =>
      if first.predicate.accepts insn then (extent first.predicate later rest).map (· + 1)
      else none

/-- The span of the window at the start of some cells, and its length. -/
def windowSpan? (p : Pattern) (cells : List Cell) : Option (Span × Nat) :=
  match cells, p.window? (cells.map (·.insn)) with
  | c :: _, some n => cells[n - 1]?.map fun final => (⟨c.pos, final.pos⟩, n)
  | _, _ => none

def findIn (p : Pattern) : List Cell → Option Span
  | [] => none
  | c :: cs =>
    match p.windowSpan? (c :: cs) with
    | some (span, _) => some span
    | none => findIn p cs

/-- The windows in some cells behind the first `skip` ones, each search going on behind the last
window found. -/
def scan (p : Pattern) : (skip : Nat) → List Cell → List Span
  | _, [] => []
  | skip + 1, _ :: cs => scan p skip cs
  | 0, c :: cs =>
    match p.windowSpan? (c :: cs) with
    | some (span, n) => span :: scan p (n - 1) cs
    | none => scan p 0 cs

end Pattern

namespace Stream

def matchAt (s : Stream) (p : Position) (pattern : Pattern) : Option Span :=
  (pattern.windowSpan? (s.onward p)).map (·.1)

def findFrom (s : Stream) (p : Position) (pattern : Pattern) : Option Span :=
  pattern.findIn (s.onward p)

/-- All windows of a pattern that do not overlap an earlier one, in order. -/
def findAll (s : Stream) (pattern : Pattern) : List Span := pattern.scan 0 s.cells

/-- A window of one alternative of a pattern set. -/
structure Anchor where
  span : Span
  /-- The index of the alternative; 0 is the primary. -/
  alternative : Nat
  /-- The name of the alternative. -/
  pattern : String
  deriving DecidableEq

def Anchor.isFallback (a : Anchor) : Bool := 0 < a.alternative

/-- The first window of the first alternative that has one, with alternatives counted from
`index`. -/
def findAmong (s : Stream) : (index : Nat) → List Pattern → Option Anchor
  | _, [] => none
  | index, p :: ps =>
    match p.findIn s.cells with
    | some span => some ⟨span, index, p.name⟩
    | none => findAmong s (index + 1) ps

/-- The first window of the first alternative that has one, or the names of all that were tried. -/
def findFirst (s : Stream) (patterns : PatternSet) : Except String Anchor :=
  match s.findAmong 0 patterns.alternatives with
  | some anchor => .ok anchor
  | none => .error patterns.describe

end Stream

end Interpose

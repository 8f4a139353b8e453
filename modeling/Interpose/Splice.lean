import Interpose.Cursor
import Interpose.Point

/-!
Applying an extension point to a stream. The anchor, the place to go on, the skip target and the
captured values are all found before the stream is touched; then the template goes in, and for a
splice in front of its anchor the branches to the anchor are led through the splice.
-/

set_option autoImplicit false
set_option relaxedAutoImplicit false

namespace Interpose

open Interpose.Text (decimal)

inductive SpliceError
  | patternNotFound (point tried : String)
  | ambiguousMatch (point pattern : String) (count : Nat)
  | captureNotFound (point capture : String)
  | unsupportedCapture (point capture instruction : String)
  | skipTargetNotFound (point reason : String)
  | noContinuation (point : String)
  | stream (point : String) (source : StreamError)
  deriving DecidableEq

namespace SpliceError

def point : SpliceError → String
  | .patternNotFound point _ | .ambiguousMatch point _ _ | .captureNotFound point _
  | .unsupportedCapture point _ _ | .skipTargetNotFound point _ | .noContinuation point
  | .stream point _ => point

def kind : SpliceError → String
  | .patternNotFound .. => "PatternNotFound"
  | .ambiguousMatch .. => "AmbiguousMatch"
  | .captureNotFound .. => "CaptureNotFound"
  | .unsupportedCapture .. => "UnsupportedCapture"
  | .skipTargetNotFound .. => "SkipTargetNotFound"
  | .noContinuation _ => "NoContinuation"
  | .stream _ source => "Stream." ++ source.kind

def message : SpliceError → String
  | .patternNotFound point tried =>
    "Anchor for '" ++ point ++ "' not found (tried: " ++ tried ++ ")"
  | .ambiguousMatch point pattern count =>
    "Anchor for '" ++ point ++ "' matched " ++ decimal count ++ " times with pattern '" ++
      pattern ++ "'"
  | .captureNotFound point capture => "Capture '" ++ capture ++ "' for '" ++ point ++ "' not found"
  | .unsupportedCapture point capture instruction =>
    "Capture '" ++ capture ++ "' for '" ++ point ++ "' resolved to '" ++ instruction ++
      "', which is not a plain load"
  | .skipTargetNotFound point reason =>
    "Skip target for '" ++ point ++ "' not found: " ++ reason
  | .noContinuation point => "Anchor for '" ++ point ++ "' has no following instruction"
  | .stream point source => "Stream error while splicing '" ++ point ++ "': " ++ source.message

end SpliceError

structure SpliceReport where
  point : String
  /-- The name of the anchor alternative that matched. -/
  pattern : String
  /-- The index of that alternative; 0 is the primary. -/
  alternative : Nat
  /-- The index of the first inserted instruction. -/
  index : Nat
  /-- How many instructions were inserted. -/
  inserted : Nat
  deriving DecidableEq

def SpliceReport.usedFallback (r : SpliceReport) : Bool := 0 < r.alternative

namespace Point

/-- The match of one alternative that an occurrence policy accepts, if there is one. -/
def accept (p : Point) (pattern : Pattern) (spans : List Span) :
    Except SpliceError (Option Span) :=
  match p.occurrence with
  | .unique =>
    if 1 < spans.length then .error (.ambiguousMatch p.name pattern.name spans.length)
    else .ok spans.head?
  | .first => .ok spans.head?
  | .nth n => .ok spans[n]?

/-- The anchor among some alternatives, counted from `index`: the first alternative with an
acceptable match decides, or the first with too many. -/
def locateAmong (p : Point) (s : Stream) :
    (index : Nat) → List Pattern → Except SpliceError Stream.Anchor
  | _, [] => .error (.patternNotFound p.name p.anchors.describe)
  | index, pattern :: rest =>
    match p.accept pattern (s.findAll pattern) with
    | .error e => .error e
    | .ok (some span) => .ok ⟨span, index, pattern.name⟩
    | .ok none => locateAmong p s (index + 1) rest

def locate (p : Point) (s : Stream) : Except SpliceError Stream.Anchor :=
  p.locateAmong s 0 p.anchors.alternatives

/-- The instruction that the method goes on with after the splice. -/
def resumeAt (p : Point) (s : Stream) (anchor : Span) : Except SpliceError Position :=
  match p.placement with
  | .before => .ok anchor.first
  | .after =>
    match s.next? anchor.last with
    | some position => .ok position
    | none => .error (.noContinuation p.name)

/-- The first match of any of some patterns from a position on, the first pattern first. -/
def findSkip (s : Stream) (start : Position) (patterns : List Pattern) : Option Position :=
  (patterns.findSome? (s.findFrom start)).map (·.first)

def skipAt (p : Point) (s : Stream) (anchor : Span) (resume : Position) :
    Except SpliceError Position :=
  match p.skip with
  | .anchorBranch =>
    match s.spanPositions anchor with
    | .error e => .error (.stream p.name e)
    | .ok positions =>
      match positions.reverse.findSome? s.branchTarget? with
      | some position => .ok position
      | none => .error (.skipTargetNotFound p.name "anchor contains no branch")
  | .pattern patterns =>
    match findSkip s resume patterns.alternatives with
    | some position => .ok position
    | none => .error (.skipTargetNotFound p.name ("tried: " ++ patterns.describe))

/-- Goes on from match to match in a direction, and past `nth` of them. Backward a search starts in
front of the cursor; forward it starts behind it. -/
def seek (direction : Direction) (predicate : Predicate) : (nth : Nat) → Cursor → Option Position
  | nth, c =>
    let (found, c) := match direction with
      | .backward => c.gotoPrev predicate
      | .forward =>
        match c.advance with
        | (true, c) => c.gotoNext predicate
        | (false, c) => (.error (.notFound predicate.description), c)
    match found, nth with
    | .error _, _ => none
    | .ok position, 0 => some position
    | .ok _, nth + 1 => seek direction predicate nth c

/-- The instruction that a capture means, searched from the start of the anchor backward or from its
end forward. -/
def findCapture (s : Stream) (anchor : Span) (c : Capture) : Option Position :=
  let start := match c.direction with
    | .backward => anchor.first
    | .forward => anchor.last
  match Cursor.on s start with
  | .ok cursor => seek c.direction c.predicate c.nth cursor
  | .error _ => none

/-- The code that pushes a captured value again: the instruction itself if it is a pure load, or the
load of a field of the receiver together with the load of the receiver. -/
def captureLoads (p : Point) (s : Stream) (anchor : Span) (c : Capture) :
    Except SpliceError (List Instruction) :=
  match findCapture s anchor c with
  | none => .error (.captureNotFound p.name c.name)
  | some position =>
    match s.insn? position with
    | none => .error (.captureNotFound p.name c.name)
    | some insn =>
      let receiver := (s.prev? position).bind s.insn?
      if insn.opcode.isPureLoad then .ok [insn]
      else if insn.opcode = .ldfld ∧ receiver = some (.ldarg 0) then .ok [.ldarg 0, insn]
      else .error (.unsupportedCapture p.name c.name insn.text)

def allCaptureLoads (p : Point) (s : Stream) (anchor : Span) :
    List Capture → Except SpliceError (List (List Instruction))
  | [] => .ok []
  | c :: rest =>
    match p.captureLoads s anchor c with
    | .error e => .error e
    | .ok code => (p.allCaptureLoads s anchor rest).map (code :: ·)

/-- All that a splice needs to know of a stream. -/
structure Site where
  anchor : Stream.Anchor
  resumeAt : Position
  skipAt : Position
  captures : List (List Instruction)
  /-- The labels that are led through the splice. -/
  incoming : List Label
  deriving DecidableEq

/-- Finds everything a splice needs. Only a consume point whose template skips needs a skip
target. -/
def site (p : Point) (s : Stream) : Except SpliceError Site :=
  match p.locate s with
  | .error e => .error e
  | .ok anchor =>
    match p.resumeAt s anchor.span with
    | .error e => .error e
    | .ok resume =>
      let skip :=
        if p.mode = .consume && p.template.usesSkip then p.skipAt s anchor.span resume
        else .ok resume
      match skip with
      | .error e => .error e
      | .ok skip =>
        match p.allCaptureLoads s anchor.span p.captures with
        | .error e => .error e
        | .ok captures =>
          let incoming := match p.placement with
            | .before => s.labelsAt anchor.span.first
            | .after => []
          .ok ⟨anchor, resume, skip, captures, incoming⟩

def loads (p : Point) (site : Site) : Loads :=
  ⟨p.active.load, p.capability, p.callback, site.captures⟩

/-- Moves labels to a position, up to the first that cannot be moved. -/
def retargetAll (s : Stream) (position : Position) : List Label → Stream.Outcome Unit
  | [] => (.ok (), s)
  | l :: rest =>
    match s.retarget l position with
    | (.ok (), s) => retargetAll s position rest
    | (.error e, s) => (.error e, s)

def report (p : Point) (anchor : Stream.Anchor) (s : Stream) (inserted : Span) :
    Except SpliceError SpliceReport :=
  match s.spanPositions inserted with
  | .error e => .error (.stream p.name e)
  | .ok positions =>
    .ok ⟨p.name, anchor.pattern, anchor.alternative, (s.index? inserted.first).getD 0,
      positions.length⟩

def apply (p : Point) (s : Stream) : Except SpliceError SpliceReport × Stream :=
  match p.site s with
  | .error e => (.error e, s)
  | .ok site =>
    let (block, s) := p.template.lower (p.loads site) s site.resumeAt site.skipAt
    match s.insertBefore site.resumeAt block with
    | (.error e, s) => (.error (.stream p.name e), s)
    | (.ok inserted, s) =>
      match retargetAll s inserted.first site.incoming with
      | (.error e, s) => (.error (.stream p.name e), s)
      | (.ok (), s) => (p.report site.anchor s inserted, s)

end Point

end Interpose

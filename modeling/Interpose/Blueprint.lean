import Interpose.LoadError
import Interpose.Registry.Basic

/-!
Blueprints of patches: extension points whose anchors are still names in an anchor table or texts to
be read. Building a blueprint looks the names up, reads the texts and validates the points.
-/

set_option autoImplicit false
set_option relaxedAutoImplicit false

namespace Interpose

inductive PatternSource
  | text (name content : String)
  | ready (pattern : Pattern)

def PatternSource.read : PatternSource → Except PatternFault Pattern
  | .text name content => Pattern.read name content
  | .ready pattern => .ok pattern

def PatternSource.name : PatternSource → String
  | .text name _ => name
  | .ready pattern => pattern.name

/-- The pattern meant by a source; a fault is one of the anchor with the pattern's name. -/
def PatternSource.resolve (source : PatternSource) : Except AnchorError Pattern :=
  match source.read with
  | .ok pattern => .ok pattern
  | .error fault => .error (.invalidPattern source.name fault)

structure PatternSetSource where
  primary : PatternSource
  fallbacks : List PatternSource

/-- The patterns meant by a source, up to the first fault. -/
def PatternSetSource.resolve (source : PatternSetSource) : Except AnchorError PatternSet :=
  match source.primary.resolve with
  | .error e => .error e
  | .ok primary => (source.fallbacks.mapM PatternSource.resolve).map fun f => ⟨primary, f⟩

inductive AnchorSource
  /-- From the anchor table, by name. -/
  | table (anchor : String)
  | written (patterns : PatternSetSource)

def AnchorSource.resolve (table : AnchorTable) : AnchorSource → Except AnchorError PatternSet
  | .table anchor => table.find anchor
  | .written patterns => patterns.resolve

structure PointBlueprint where
  name : String
  mode : SpliceMode
  capability : TypeRef
  anchor : AnchorSource
  active : ObjectSource
  placement : Placement
  occurrence : Occurrence
  /-- Where a handled splice goes on; without patterns, where the anchor's branch goes. -/
  skip : Option PatternSetSource
  captures : List Capture
  /-- The template, if it is not the one of the mode. -/
  template : Option Template

namespace PointBlueprint

def skipTarget (b : PointBlueprint) : Except AnchorError SkipTarget :=
  match b.skip with
  | none => .ok .anchorBranch
  | some source => source.resolve.map SkipTarget.pattern

/-- The draft of a blueprint: first its anchor is resolved, then its skip target. -/
def draft (table : AnchorTable) (b : PointBlueprint) : Except AnchorError PointDraft :=
  match b.anchor.resolve table with
  | .error e => .error e
  | .ok anchors =>
    b.skipTarget.map fun skip =>
      { PointDraft.make b.mode b.name b.capability anchors with
        active := b.active
        placement := b.placement
        occurrence := b.occurrence
        skip := skip
        captures := b.captures
        template := b.template }

def build (table : AnchorTable) (b : PointBlueprint) : Except LoadError Point :=
  match b.draft table with
  | .error e => .error (.anchors e)
  | .ok draft =>
    match draft.build with
    | .error e => .error (.patch (.malformedTemplate e))
    | .ok point => .ok point

end PointBlueprint

structure PatchBlueprint where
  target : String
  points : List (PointBlueprint × Callback)

/-- The points of a blueprint in order, up to the first that cannot be built. -/
def PatchBlueprint.buildPoints (table : AnchorTable) :
    List (PointBlueprint × Callback) → Except LoadError (List (Point × Callback))
  | [] => .ok []
  | (blueprint, callback) :: rest =>
    match blueprint.build table with
    | .error e => .error e
    | .ok point => (buildPoints table rest).map ((point, callback) :: ·)

def PatchBlueprint.build (table : AnchorTable) (b : PatchBlueprint) :
    Except LoadError MethodPatch :=
  (buildPoints table b.points).map fun points => ⟨b.target, points⟩

end Interpose

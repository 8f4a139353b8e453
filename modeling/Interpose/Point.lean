import Interpose.Template

/-!
Extension points: which anchor to find, which object to test, what to insert and where to go on.
A point is built from a draft, once and for all; whatever is wrong with it shows then.
-/

set_option autoImplicit false
set_option relaxedAutoImplicit false

namespace Interpose

open Interpose.Text (trim)

inductive SpliceMode
  /-- It may handle the situation, so that the method's own code is skipped. -/
  | consume
  /-- It only adds behaviour. -/
  | augment
  deriving DecidableEq

inductive ObjectSource
  | arg (index : UInt16)
  | local (index : UInt16)
  /-- A field of the receiver. -/
  | thisField (field : FieldRef)
  deriving DecidableEq

def ObjectSource.load : ObjectSource → List Instruction
  | .arg index => [.ldarg index]
  | .local index => [.ldloc index]
  | .thisField field => [.ldarg 0, .ldfld field]

/-- Where a handled consume splice goes on. -/
inductive SkipTarget
  /-- At the target of the last branch in the anchor. -/
  | anchorBranch
  /-- At the start of the first match from the splice on. -/
  | pattern (patterns : PatternSet)

inductive Placement
  | before | after
  deriving DecidableEq

/-- How many matches of an anchor are accepted. -/
inductive Occurrence
  /-- One only. -/
  | unique
  /-- The first of any number. -/
  | first
  /-- The one with this number, counted from zero. -/
  | nth (n : Nat)
  deriving DecidableEq

inductive Direction
  /-- In front of the anchor, the nearest first. -/
  | backward
  /-- Behind the anchor, the nearest first. -/
  | forward
  deriving DecidableEq

/-- A value near the anchor that is handed to the callback. -/
structure Capture where
  name : String
  direction : Direction
  predicate : Predicate
  /-- How many nearer matches to pass over. -/
  nth : Nat

/-- The type that owns every callback in injected calls. -/
def dispatchOwner : String := "ilsplice.Dispatch"

/-- A validated extension point. -/
structure Point where
  name : String
  mode : SpliceMode
  anchors : PatternSet
  capability : TypeRef
  active : ObjectSource
  placement : Placement
  occurrence : Occurrence
  skip : SkipTarget
  captures : List Capture
  template : Template
  callback : MethodRef

/-- An extension point before validation. Without a template it gets the one of its mode. -/
structure PointDraft where
  name : String
  mode : SpliceMode
  anchors : PatternSet
  capability : TypeRef
  active : ObjectSource
  placement : Placement
  occurrence : Occurrence
  skip : SkipTarget
  captures : List Capture
  template : Option Template

namespace PointDraft

/-- A draft with all choices left open: the first argument is active, the splice goes behind the
only match of the anchor, and a handled splice goes where the anchor's branch goes. -/
def make (mode : SpliceMode) (name : String) (capability : TypeRef) (anchors : PatternSet) :
    PointDraft :=
  { name, mode, anchors, capability, active := .arg 0, placement := .after, occurrence := .unique,
    skip := .anchorBranch, captures := [], template := none }

def chosenTemplate (d : PointDraft) : Template :=
  d.template.getD <|
    match d.mode with
    | .consume => .consume
    | .augment => .augment d.captures.length

/-- The method that a splice calls: it takes the active object, for augment points also the captured
values, and returns a value for consume points. -/
def callback (d : PointDraft) : MethodRef :=
  let params := match d.mode with
    | .consume => 1
    | .augment => 1 + d.captures.length
  ⟨⟨dispatchOwner⟩, d.name, UInt16.ofNat params, false, d.mode = .consume⟩

/-- What the template of a draft is tried with; a null stands for each captured value. -/
def trialLoads (d : PointDraft) : Loads :=
  ⟨d.active.load, d.capability, d.callback, d.captures.map fun _ => [.ldnull]⟩

def build (d : PointDraft) : Except TemplateError Point :=
  if (trim d.name.toList).isEmpty then .error .emptyName
  else
    match d.anchors.alternatives.find? fun p => p.steps.isEmpty with
    | some p => .error (.emptyPattern d.name p.name)
    | none =>
      match d.chosenTemplate.validate d.name (d.mode = .consume) d.trialLoads with
      | .error e => .error e
      | .ok () => .ok {
          name := d.name
          mode := d.mode
          anchors := d.anchors
          capability := d.capability
          active := d.active
          placement := d.placement
          occurrence := d.occurrence
          skip := d.skip
          captures := d.captures
          template := d.chosenTemplate
          callback := d.callback }

end PointDraft

end Interpose

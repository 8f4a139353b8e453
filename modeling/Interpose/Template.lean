import Interpose.Pattern.Search
import Interpose.Stream.Edit
import Interpose.Stream.Loading

/-!
Templates: the shape of the code that a splice inserts, written against symbolic labels so that one
template serves every method. Lowering a template against concrete loads and a stream gives a block,
in which every symbol is a label of its own.
-/

set_option autoImplicit false
set_option relaxedAutoImplicit false

namespace Interpose

open Interpose.Text (decimal)

/-- A label of a template. -/
inductive Symbol
  /-- The instruction that the method goes on with. -/
  | resume
  /-- Where a handled splice goes on, past the method's own code. -/
  | skip
  /-- A place in the template itself. -/
  | named (name : String)
  deriving DecidableEq

def Symbol.text : Symbol → String
  | .resume => "continue"
  | .skip => "skip"
  | .named name => "'" ++ name

inductive TemplateOp
  /-- Pushes the active object. -/
  | loadActive
  /-- Tests the active object for the capability type. -/
  | typeTest
  /-- Pushes a captured value, by its number. -/
  | loadCapture (index : Nat)
  /-- Calls the callback. -/
  | invokeCallback
  | branch (target : Symbol)
  | branchTrue (target : Symbol)
  | branchFalse (target : Symbol)
  /-- Names the next instruction. -/
  | mark (name : String)
  /-- An instruction as it stands; it must not mention labels. -/
  | emit (insn : Instruction)
  deriving DecidableEq

def TemplateOp.target? : TemplateOp → Option Symbol
  | .branch s | .branchTrue s | .branchFalse s => some s
  | _ => none

abbrev Template := List TemplateOp

inductive TemplateError
  | emptyName
  | emptyPattern (point pattern : String)
  | undefinedSymbol (point symbol : String)
  | duplicateMark (point : String) (symbol : Symbol)
  | markAtEnd (point : String) (symbol : Symbol)
  | callbackCount (point : String) (count : Nat)
  | captureIndex (point : String) (index captures : Nat)
  | skipInAugment (point : String)
  | labelInEmit (point : String) (instruction : String)
  | unbalanced (point : String) (source : StackError)
  deriving DecidableEq

def TemplateError.kind : TemplateError → String
  | .emptyName => "EmptyName"
  | .emptyPattern .. => "EmptyPattern"
  | .undefinedSymbol .. => "UndefinedSymbol"
  | .duplicateMark .. => "DuplicateMark"
  | .markAtEnd .. => "MarkAtEnd"
  | .callbackCount .. => "CallbackCount"
  | .captureIndex .. => "CaptureIndex"
  | .skipInAugment _ => "SkipInAugment"
  | .labelInEmit .. => "LabelInEmit"
  | .unbalanced _ source => "Unbalanced." ++ source.kind

def TemplateError.message : TemplateError → String
  | .emptyName => "Extension point name is empty"
  | .emptyPattern point pattern =>
    "'" ++ point ++ "' has an empty anchor pattern '" ++ pattern ++ "'"
  | .undefinedSymbol point symbol => "'" ++ point ++ "' references undefined label " ++ symbol
  | .duplicateMark point symbol => "'" ++ point ++ "' marks label " ++ symbol.text ++ " twice"
  | .markAtEnd point symbol =>
    "'" ++ point ++ "' marks label " ++ symbol.text ++ " with no instruction after it"
  | .callbackCount point count =>
    "'" ++ point ++ "' invokes its callback " ++ decimal count ++ " times, expected once"
  | .captureIndex point index captures =>
    "'" ++ point ++ "' loads capture #" ++ decimal index ++ " but defines " ++ decimal captures
  | .skipInAugment point =>
    "'" ++ point ++ "' is an augment splice and cannot skip original code"
  | .labelInEmit point instruction =>
    "'" ++ point ++ "' emits '" ++ instruction ++ "', which references a label"
  | .unbalanced point source => "'" ++ point ++ "' is unbalanced: " ++ source.message

/-- What a template is lowered against: the code that pushes the active object, the capability type,
the callback, and for each capture the code that pushes its value. -/
structure Loads where
  active : List Instruction
  capability : TypeRef
  callback : MethodRef
  captures : List (List Instruction)

namespace Template

/-- Tests the active object, calls the callback with it, and skips the method's own code if the
callback handled the situation. -/
def consume : Template :=
  [.loadActive, .typeTest, .branchFalse .resume, .loadActive, .invokeCallback, .branchTrue .skip]

/-- Tests the active object, and calls the callback with it and the captured values. -/
def augment (captures : Nat) : Template :=
  [.loadActive, .typeTest, .branchFalse .resume, .loadActive] ++
    (List.range captures).map .loadCapture ++ [.invokeCallback]

def targets (t : Template) : List Symbol := t.filterMap TemplateOp.target?

def usesSkip (t : Template) : Bool := t.targets.contains .skip

/-- A lowering under way: the stream that defines the labels, the label of each symbol met so far,
and the block. -/
structure Lowering where
  stream : Stream
  symbols : List (Symbol × Label)
  block : Block

namespace Lowering

/-- The label of a symbol. A symbol met for the first time gets a new label, which is bound to the
place it stands for unless that is in the template. -/
def label (w : Lowering) (resumeAt skipAt : Position) (symbol : Symbol) : Label × Lowering :=
  match w.symbols.lookup symbol with
  | some l => (l, w)
  | none =>
    let (l, stream) := w.stream.defineLabel
    let block := match symbol with
      | .resume => w.block.bindExisting l resumeAt
      | .skip => w.block.bindExisting l skipAt
      | .named _ => w.block
    (l, ⟨stream, (symbol, l) :: w.symbols, block⟩)

def pushAll (w : Lowering) (code : List Instruction) : Lowering :=
  { w with block := code.foldl Block.push w.block }

def step (loads : Loads) (resumeAt skipAt : Position) (w : Lowering) (op : TemplateOp) :
    Lowering :=
  let branch (build : Label → Instruction) (symbol : Symbol) : Lowering :=
    let (l, w) := w.label resumeAt skipAt symbol
    w.pushAll [build l]
  match op with
  | .loadActive => w.pushAll loads.active
  | .typeTest => w.pushAll [.isinst loads.capability]
  | .loadCapture index => w.pushAll (loads.captures[index]?.getD [])
  | .invokeCallback => w.pushAll [.call loads.callback]
  | .branch symbol => branch .br symbol
  | .branchTrue symbol => branch .brtrue symbol
  | .branchFalse symbol => branch .brfalse symbol
  | .mark name =>
    let (l, w) := w.label resumeAt skipAt (.named name)
    { w with block := w.block.mark l }
  | .emit insn => w.pushAll [insn]

end Lowering

/-- The block of a template for a stream, and the stream with the block's labels defined. The
symbols `resume` and `skip` stand for positions of the stream. -/
def lower (t : Template) (loads : Loads) (s : Stream) (resumeAt skipAt : Position) :
    Block × Stream :=
  let w := t.foldl (Lowering.step loads resumeAt skipAt) ⟨s, [], .empty⟩
  (w.block, w.stream)

/-- Checks the elements in order: no name is marked twice, captures exist, and no emitted
instruction mentions a label. -/
def checkOps (point : String) (captures : Nat) :
    (marked : List String) → Template → Except TemplateError Unit
  | _, [] => .ok ()
  | marked, op :: rest =>
    match op with
    | .mark name =>
      if marked.contains name then .error (.duplicateMark point (.named name))
      else checkOps point captures (name :: marked) rest
    | .loadCapture index =>
      if captures ≤ index then .error (.captureIndex point index captures)
      else checkOps point captures marked rest
    | .emit insn =>
      if insn.operand.mentioned.isEmpty then checkOps point captures marked rest
      else .error (.labelInEmit point insn.text)
    | _ => checkOps point captures marked rest

def marks (t : Template) : List String :=
  t.filterMap fun
    | .mark name => some name
    | _ => none

/-- Checks the template as a whole: it does not end in a mark, invokes its callback once, skips only
where it may, and branches only to names that it marks. -/
def checkShape (point : String) (maySkip : Bool) (t : Template) : Except TemplateError Unit :=
  let callbacks := t.count .invokeCallback
  let lost := t.targets.find? fun
    | .named name => !t.marks.contains name
    | _ => false
  match t.getLast? with
  | some (.mark name) => .error (.markAtEnd point (.named name))
  | _ =>
    if callbacks ≠ 1 then .error (.callbackCount point callbacks)
    else if !maySkip && t.usesSkip then .error (.skipInAugment point)
    else
      match lost with
      | some symbol => .error (.undefinedSymbol point symbol.text)
      | none => .ok ()

/-- The stream of the trial: two returns that stand for the continue and the skip target. -/
def trialStream : Stream := .ofInstructions [.ret, .ret]

/-- Lowers the template in front of two returns and checks that every way out leaves the stack as it
was. -/
def checkBalance (point : String) (loads : Loads) (t : Template) : Except TemplateError Unit :=
  let (block, s) := t.lower loads trialStream ⟨0⟩ ⟨1⟩
  let inserted : Except StreamError Stream :=
    if block.code.isEmpty then .ok s
    else
      match s.insertBefore ⟨0⟩ block with
      | (.error e, _) => .error e
      | (.ok _, s) => s.validate.map fun _ => s
  match inserted with
  | .error e => .error (.undefinedSymbol point e.message)
  | .ok s =>
    match s.checkStack with
    | .error e => .error (.unbalanced point e)
    | .ok () => .ok ()

/-- A template can be spliced for an extension point. -/
def validate (point : String) (maySkip : Bool) (loads : Loads) (t : Template) :
    Except TemplateError Unit :=
  match checkOps point loads.captures.length [] t with
  | .error e => .error e
  | .ok () =>
    match checkShape point maySkip t with
    | .error e => .error e
    | .ok () => checkBalance point loads t

end Template

end Interpose

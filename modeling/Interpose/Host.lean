import Interpose.Body

/-!
The host that runs the methods. The engine asks it to resolve names, to hand over bodies and to
activate others in their place; a host may refuse. The host in memory keeps its methods in a table,
and can be told to refuse activations of single methods.
-/

set_option autoImplicit false
set_option relaxedAutoImplicit false

namespace Interpose

open Interpose.Text (hexadecimal)

structure MethodId where
  number : Nat
  deriving DecidableEq

def MethodId.text (m : MethodId) : String := "#" ++ hexadecimal 4 m.number

inductive HostError
  | methodNotFound (name : String)
  | unknownMethod (method : MethodId)
  | noBody (name : String)
  | activationRejected (method reason : String)
  | danglingLabels (method : String) (labels : List Label)
  deriving DecidableEq

def HostError.kind : HostError → String
  | .methodNotFound _ => "MethodNotFound"
  | .unknownMethod _ => "UnknownMethod"
  | .noBody _ => "NoBody"
  | .activationRejected .. => "ActivationRejected"
  | .danglingLabels .. => "DanglingLabels"

def HostError.message : HostError → String
  | .methodNotFound name => "Method not found: " ++ name
  | .unknownMethod method => "Unknown method identity: " ++ method.text
  | .noBody name => "Method has no body: " ++ name
  | .activationRejected method reason =>
    "Activation rejected for " ++ method ++ ": " ++ reason
  | .danglingLabels method labels =>
    "Body for " ++ method ++ " has dangling labels: " ++
      ", ".intercalate (labels.map Label.text)

structure MemoryMethod where
  name : String
  /-- The body that the method was defined with. -/
  pristine : Body
  /-- The body that runs. -/
  active : Body
  /-- How often a body was activated. -/
  activations : Nat
  /-- Whether activations are refused. -/
  locked : Bool
  deriving DecidableEq

/-- A host in memory: its methods, numbered from one in the order of their first definition. -/
structure Memory where
  methods : List MemoryMethod
  deriving DecidableEq

namespace Memory

def empty : Memory := ⟨[]⟩

def method? (h : Memory) (m : MethodId) : Option MemoryMethod :=
  match m.number with
  | 0 => none
  | n + 1 => h.methods[n]?

def modify (h : Memory) (m : MethodId) (f : MemoryMethod → MemoryMethod) : Memory :=
  match m.number with
  | 0 => h
  | n + 1 => ⟨h.methods.modify n f⟩

def find? (h : Memory) (name : String) : Option MethodId :=
  (h.methods.findIdx? fun e => e.name = name).map fun n => ⟨n + 1⟩

/-- Defines a method. Defining a name again keeps its identity and starts it afresh. -/
def define (h : Memory) (name : String) (body : Body) : MethodId × Memory :=
  let fresh : MemoryMethod := ⟨name, body, body, 0, false⟩
  match h.find? name with
  | some m => (m, h.modify m fun _ => fresh)
  | none => (⟨h.methods.length + 1⟩, ⟨h.methods ++ [fresh]⟩)

def setLocked (h : Memory) (m : MethodId) (locked : Bool) : Memory :=
  h.modify m fun e => { e with locked }

def resolve (h : Memory) (name : String) : Except HostError MethodId :=
  match h.find? name with
  | some m => .ok m
  | none => .error (.methodNotFound name)

def nameOf? (h : Memory) (m : MethodId) : Option String := (h.method? m).map (·.name)

def activeBody? (h : Memory) (m : MethodId) : Option Body := (h.method? m).map (·.active)

def pristineBody? (h : Memory) (m : MethodId) : Option Body := (h.method? m).map (·.pristine)

/-- The body that runs differs from the one defined, with floating-point constants compared by
value. -/
def isModified (h : Memory) (m : MethodId) : Bool :=
  match h.method? m with
  | some e => !e.active.same e.pristine
  | none => false

def activationCount (h : Memory) (m : MethodId) : Nat :=
  match h.method? m with
  | some e => e.activations
  | none => 0

/-- Hands over the body that runs. A method without instructions has none. -/
def loadBody (h : Memory) (m : MethodId) : Except HostError Body :=
  match h.method? m with
  | none => .error (.unknownMethod m)
  | some e => if e.active.code.isEmpty then .error (.noBody e.name) else .ok e.active

/-- Lets a body run in place of the present one, unless the method is locked or the body has labels
that stand nowhere. -/
def activate (h : Memory) (m : MethodId) (body : Body) : Except HostError Unit × Memory :=
  match h.method? m with
  | none => (.error (.unknownMethod m), h)
  | some e =>
    if e.locked then (.error (.activationRejected e.name "method is locked"), h)
    else
      match body.danglingLabels with
      | [] => (.ok (), h.modify m fun e =>
          { e with active := body, activations := e.activations + 1 })
      | labels => (.error (.danglingLabels e.name labels), h)

end Memory

end Interpose

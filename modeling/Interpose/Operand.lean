import Interpose.Binary64.Printer
import Interpose.Text.Quoted
import Interpose.Text.Split

/-!
The operands of instructions: constants, argument and local slots, labels, and symbolic references
to the members of host types. References are by name, since numeric tokens change from one build of
a host to the next.
-/

set_option autoImplicit false
set_option relaxedAutoImplicit false

namespace Interpose

open Interpose.Text (decimal signed splitAtLast)

/-- The name of a branch target. A label is an identity and not a place: a body or a stream says
where it is. -/
structure Label where
  id : UInt32
  deriving DecidableEq, Inhabited

def Label.text (l : Label) : String := "L" ++ decimal l.id.toNat

structure TypeRef where
  name : String
  deriving DecidableEq

/-- The name without its name space: what follows the last dot. -/
def TypeRef.shortName (t : TypeRef) : String :=
  match splitAtLast ['.'] t.name.toList with
  | some (_, short) => String.ofList short
  | none => t.name

structure FieldRef where
  owner : TypeRef
  name : String
  isStatic : Bool
  deriving DecidableEq

def FieldRef.text (f : FieldRef) : String := f.owner.name ++ "::" ++ f.name

/-- A method of a host type, with as much of its signature as a call's stack effect needs. -/
structure MethodRef where
  owner : TypeRef
  name : String
  /-- The explicit parameters, without the receiver. -/
  params : UInt16
  hasThis : Bool
  returns : Bool
  deriving DecidableEq

/-- The values that a call takes, counted in sixteen bits. -/
def MethodRef.callPops (m : MethodRef) : UInt16 := m.params + m.hasThis.toUInt16

def MethodRef.text (m : MethodRef) : String :=
  m.owner.name ++ "::" ++ m.name ++ "/" ++ decimal m.params.toNat

/-- The operand of an instruction. Any opcode may carry any operand. -/
inductive Operand
  | none
  | int (value : Int64)
  | float (value : Binary64)
  | str (value : String)
  | arg (index : UInt16)
  | local (index : UInt16)
  | label (target : Label)
  | labels (targets : List Label)
  | field (field : FieldRef)
  | method (method : MethodRef)
  | type (type : TypeRef)
  deriving DecidableEq

namespace Operand

def mentioned : Operand → List Label
  | .label l => [l]
  | .labels ls => ls
  | _ => []

def mapLabels (f : Label → Label) : Operand → Operand
  | .label l => .label (f l)
  | .labels ls => .labels (ls.map f)
  | operand => operand

/-- Equality of operands, with floating-point constants compared by value. -/
def same : Operand → Operand → Bool
  | .float x, .float y => x.same y
  | a, b => a = b

/-- The name of a field, method or type without its owner. -/
def memberName? : Operand → Option String
  | .field f => some f.name
  | .method m => some m.name
  | .type t => some t.shortName
  | _ => Option.none

def text : Operand → String
  | .none => ""
  | .int v => signed v
  | .float v => v.text
  | .str s => Text.Quoted.encode s
  | .arg i => "arg" ++ decimal i.toNat
  | .local i => "V_" ++ decimal i.toNat
  | .label l => l.text
  | .labels ls => "(" ++ ", ".intercalate (ls.map Label.text) ++ ")"
  | .field f => f.text
  | .method m => m.text
  | .type t => t.name

end Operand

end Interpose

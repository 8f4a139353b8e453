import Interpose.Instruction
import Interpose.Opcode.Family

/-!
Predicates on single instructions. A predicate carries a description, which error texts and listings
of patterns show, beside the test itself.
-/

set_option autoImplicit false
set_option relaxedAutoImplicit false

namespace Interpose

open Interpose.Text (signed splitAtLast)

structure Predicate where
  description : String
  accepts : Instruction → Bool

namespace Predicate

/-- A member name with its owner, if one is given: what stands before the last double colon. -/
def splitMember (name : String) : Option String × String :=
  match splitAtLast [':', ':'] name.toList with
  | some (owner, member) => (some (String.ofList owner), String.ofList member)
  | none => (none, name)

/-- A type with this full or short name; any type if no name is given. -/
def isOwner (owner : Option String) (t : TypeRef) : Bool :=
  match owner with
  | none => true
  | some o => t.name == o || t.shortName == o

/-- A field or method of that name, or a type. For a type an owner is its name space. -/
def isMember (owner : Option String) (member : String) : Operand → Bool
  | .field f => f.name == member && isOwner owner f.owner
  | .method m => m.name == member && isOwner owner m.owner
  | .type t =>
    match owner with
    | some o => t.name == o ++ "." ++ member
    | none => t.name == member || t.shortName == member
  | _ => false

/-- An integer constant, argument or local with this number. -/
def isIndex (value : Int64) : Operand → Bool
  | .int v => v == value
  | .arg i | .local i => (i.toNat : Int) == value.toInt
  | _ => false

def any : Predicate := ⟨"*", fun _ => true⟩

def opcode (op : Opcode) : Predicate := ⟨op.mnemonic, fun insn => insn.opcode == op⟩

def family (f : Family) : Predicate := ⟨"@" ++ f.text, fun insn => insn.opcode.family.meets f⟩

/-- One instruction, with floating-point constants compared by value. -/
def exact (insn : Instruction) : Predicate := ⟨insn.text, fun other => other.same insn⟩

/-- An opcode whose operand is the named field, method or type. The name may be a plain member name
or follow its owner and a double colon. -/
def member (op : Opcode) (name : String) : Predicate :=
  let (owner, bare) := splitMember name
  ⟨op.mnemonic ++ " " ++ name, fun insn => insn.opcode == op && isMember owner bare insn.operand⟩

/-- An opcode with this integer constant, argument or local. -/
def index (op : Opcode) (value : Int64) : Predicate :=
  ⟨op.mnemonic ++ " " ++ signed value, fun insn => insn.opcode == op && isIndex value insn.operand⟩

def string (op : Opcode) (value : String) : Predicate :=
  ⟨op.mnemonic ++ " " ++ Text.Quoted.encode value,
    fun insn => insn.opcode == op && insn.operand == .str value⟩

/-- How far floating-point constants may be apart to count as equal in a pattern: `1e-6`. -/
def tolerance : Binary64 := Binary64.ofQuotient false 1 (Nat.pow 10 6)

/-- An opcode with a floating-point constant close to a value. -/
def near (op : Opcode) (value : Binary64) (description : String) : Predicate :=
  ⟨description, fun insn => insn.opcode == op &&
    match insn.operand with
    | .float v => Binary64.within tolerance v value
    | _ => false⟩

def loadField (name : String) : Predicate := member .ldfld name

def loadStaticField (name : String) : Predicate := member .ldsfld name

/-- A direct or virtual call of a named method. -/
def call (name : String) : Predicate :=
  ⟨"call " ++ name, fun insn =>
    (member .call name).accepts insn || (member .callvirt name).accepts insn⟩

def branchIfFalse : Predicate := family .branchFalse

def branchIfTrue : Predicate := family .branchTrue

def or (p q : Predicate) : Predicate :=
  ⟨p.description ++ "|" ++ q.description, fun insn => p.accepts insn || q.accepts insn⟩

def anyOf (ps : List Predicate) : Predicate :=
  ⟨"|".intercalate (ps.map (·.description)), fun insn => ps.any (·.accepts insn)⟩

def and (p q : Predicate) : Predicate :=
  ⟨p.description ++ "&" ++ q.description, fun insn => p.accepts insn && q.accepts insn⟩

def not (p : Predicate) : Predicate := ⟨"!" ++ p.description, fun insn => !p.accepts insn⟩

def summary (p : Predicate) : String := "Predicate(" ++ p.description ++ ")"

end Predicate

end Interpose

import Interpose.Opcode
import Interpose.Operand

/-!
Instructions: an opcode with an operand, what they do to the evaluation stack, and where they may
jump to.
-/

set_option autoImplicit false
set_option relaxedAutoImplicit false

namespace Interpose

/-- What an instruction takes off the evaluation stack and then puts on it. -/
structure StackEffect where
  pops : Nat
  pushes : Nat
  deriving DecidableEq

def StackEffect.net (e : StackEffect) : Int := e.pushes - e.pops

structure Instruction where
  opcode : Opcode
  operand : Operand
  deriving DecidableEq

namespace Instruction

def plain (op : Opcode) : Instruction := ⟨op, .none⟩

def nop : Instruction := plain .nop
def ldnull : Instruction := plain .ldnull
def dup : Instruction := plain .dup
def pop : Instruction := plain .pop
def ret : Instruction := plain .ret
def ldarg (index : UInt16) : Instruction := ⟨.ldarg, .arg index⟩
def ldloc (index : UInt16) : Instruction := ⟨.ldloc, .local index⟩
def stloc (index : UInt16) : Instruction := ⟨.stloc, .local index⟩
def ldstr (value : String) : Instruction := ⟨.ldstr, .str value⟩
def ldfld (field : FieldRef) : Instruction := ⟨.ldfld, .field field⟩
def stfld (field : FieldRef) : Instruction := ⟨.stfld, .field field⟩
def ldsfld (field : FieldRef) : Instruction := ⟨.ldsfld, .field field⟩
def call (method : MethodRef) : Instruction := ⟨.call, .method method⟩
def callvirt (method : MethodRef) : Instruction := ⟨.callvirt, .method method⟩
def newobj (method : MethodRef) : Instruction := ⟨.newobj, .method method⟩
def isinst (type : TypeRef) : Instruction := ⟨.isinst, .type type⟩
def br (target : Label) : Instruction := ⟨.br, .label target⟩
def brfalse (target : Label) : Instruction := ⟨.brfalse, .label target⟩
def brtrue (target : Label) : Instruction := ⟨.brtrue, .label target⟩

def ldcI4 (value : Int32) : Instruction := ⟨.ldcI4, .int value.toInt64⟩

/-- A single-precision constant, given as the double it widens to. -/
def ldcR4 (value : Binary64) : Instruction := ⟨.ldcR4, .float value⟩

/-- The labels that an instruction may jump to: those of its operand if it is a branch. -/
def branchTargets (insn : Instruction) : List Label :=
  if insn.opcode.isBranch then insn.operand.mentioned else []

def mapLabels (f : Label → Label) (insn : Instruction) : Instruction :=
  { insn with operand := insn.operand.mapLabels f }

/-- Equality of instructions, with floating-point constants compared by value. -/
def same (a b : Instruction) : Bool := a.opcode = b.opcode && a.operand.same b.operand

def field? (insn : Instruction) : Option FieldRef :=
  match insn.operand with
  | .field f => some f
  | _ => none

def method? (insn : Instruction) : Option MethodRef :=
  match insn.operand with
  | .method m => some m
  | _ => none

/-- The stack effect. Instructions that end a method or a protected region take nothing here;
whoever tracks depths treats them on their own. A call without a method reference does nothing. -/
def stackEffect (insn : Instruction) : StackEffect :=
  match insn.opcode with
  | .nop | .br | .leave | .endfinally | .ret => ⟨0, 0⟩
  | .ldarg | .ldarga | .ldloc | .ldloca | .ldnull | .ldcI4 | .ldcI8 | .ldcR4 | .ldcR8 | .ldstr
  | .ldsfld => ⟨0, 1⟩
  | .starg | .stloc | .stsfld | .pop | .throw => ⟨1, 0⟩
  | .dup => ⟨1, 2⟩
  | .ldfld | .ldflda => ⟨1, 1⟩
  | .stfld => ⟨2, 0⟩
  | .brfalse | .brtrue | .switch => ⟨1, 0⟩
  | .beq | .bne | .bge | .bgt | .ble | .blt => ⟨2, 0⟩
  | .isinst | .castclass | .box | .unbox | .convI4 | .convR4 | .neg | .not => ⟨1, 1⟩
  | .add | .sub | .mul | .div | .and | .or | .ceq | .cgt | .clt => ⟨2, 1⟩
  | .call | .callvirt =>
    match insn.method? with
    | some m => ⟨m.callPops.toNat, m.returns.toNat⟩
    | none => ⟨0, 0⟩
  | .newobj =>
    match insn.method? with
    | some m => ⟨m.params.toNat, 1⟩
    | none => ⟨0, 0⟩

def text (insn : Instruction) : String :=
  match insn.operand with
  | .none => insn.opcode.mnemonic
  | operand => insn.opcode.mnemonic ++ " " ++ operand.text

end Instruction

end Interpose

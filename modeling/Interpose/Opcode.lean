/-!
The opcodes of method bodies: their spellings, how control leaves them, and which of them load a
value without any other effect.
-/

set_option autoImplicit false
set_option relaxedAutoImplicit false

namespace Interpose

/-- An operation of the evaluation stack machine. Encodings of one operation that differ only in
the size of their operand are one opcode. -/
inductive Opcode
  | nop
  | ldarg | ldarga | starg | ldloc | ldloca | stloc
  | ldnull | ldcI4 | ldcI8 | ldcR4 | ldcR8 | ldstr
  | dup | pop
  | ldfld | ldflda | stfld | ldsfld | stsfld
  | call | callvirt | newobj
  | ret | br | brfalse | brtrue | beq | bne | bge | bgt | ble | blt | switch | leave
  | endfinally | throw
  | isinst | castclass | box | unbox | convI4 | convR4
  | add | sub | mul | div | neg | and | or | not | ceq | cgt | clt
  deriving DecidableEq, Inhabited

inductive Flow
  /-- On to the next instruction. -/
  | next
  /-- To the target. -/
  | branch
  /-- To a target or to the next instruction. -/
  | condBranch
  /-- Out of the method or handler. -/
  | return
  /-- Out by an exception. -/
  | throw
  /-- Through another method, then to the next instruction. -/
  | call
  deriving DecidableEq

namespace Opcode

/-- Every opcode once, in the order of the reference listing. -/
def all : List Opcode :=
  [.nop, .ldarg, .ldarga, .starg, .ldloc, .ldloca, .stloc, .ldnull, .ldcI4, .ldcI8, .ldcR4,
    .ldcR8, .ldstr, .dup, .pop, .ldfld, .ldflda, .stfld, .ldsfld, .stsfld, .call, .callvirt,
    .newobj, .ret, .br, .brfalse, .brtrue, .beq, .bne, .bge, .bgt, .ble, .blt, .switch, .leave,
    .endfinally, .throw, .isinst, .castclass, .box, .unbox, .convI4, .convR4, .add, .sub, .mul,
    .div, .neg, .and, .or, .not, .ceq, .cgt, .clt]

def mnemonic : Opcode → String
  | .nop => "nop"
  | .ldarg => "ldarg"
  | .ldarga => "ldarga"
  | .starg => "starg"
  | .ldloc => "ldloc"
  | .ldloca => "ldloca"
  | .stloc => "stloc"
  | .ldnull => "ldnull"
  | .ldcI4 => "ldc.i4"
  | .ldcI8 => "ldc.i8"
  | .ldcR4 => "ldc.r4"
  | .ldcR8 => "ldc.r8"
  | .ldstr => "ldstr"
  | .dup => "dup"
  | .pop => "pop"
  | .ldfld => "ldfld"
  | .ldflda => "ldflda"
  | .stfld => "stfld"
  | .ldsfld => "ldsfld"
  | .stsfld => "stsfld"
  | .call => "call"
  | .callvirt => "callvirt"
  | .newobj => "newobj"
  | .ret => "ret"
  | .br => "br"
  | .brfalse => "brfalse"
  | .brtrue => "brtrue"
  | .beq => "beq"
  | .bne => "bne.un"
  | .bge => "bge"
  | .bgt => "bgt"
  | .ble => "ble"
  | .blt => "blt"
  | .switch => "switch"
  | .leave => "leave"
  | .endfinally => "endfinally"
  | .throw => "throw"
  | .isinst => "isinst"
  | .castclass => "castclass"
  | .box => "box"
  | .unbox => "unbox.any"
  | .convI4 => "conv.i4"
  | .convR4 => "conv.r4"
  | .add => "add"
  | .sub => "sub"
  | .mul => "mul"
  | .div => "div"
  | .neg => "neg"
  | .and => "and"
  | .or => "or"
  | .not => "not"
  | .ceq => "ceq"
  | .cgt => "cgt"
  | .clt => "clt"

def flow : Opcode → Flow
  | .br | .leave => .branch
  | .brfalse | .brtrue | .beq | .bne | .bge | .bgt | .ble | .blt | .switch => .condBranch
  | .ret | .endfinally => .return
  | .throw => .throw
  | .call | .callvirt | .newobj => .call
  | _ => .next

def isBranch (op : Opcode) : Bool :=
  match op.flow with
  | .branch | .condBranch => true
  | _ => false

/-- Opcodes from which control can reach the following instruction. -/
def fallsThrough (op : Opcode) : Bool :=
  match op.flow with
  | .branch | .return | .throw => false
  | _ => true

/-- Opcodes that push one value, pop none and do nothing else. -/
def isPureLoad : Opcode → Bool
  | .ldarg | .ldloc | .ldnull | .ldcI4 | .ldcI8 | .ldcR4 | .ldcR8 | .ldstr | .ldsfld => true
  | _ => false

end Opcode

end Interpose

import Interpose.Opcode

/-!
Coarse families of opcodes, for predicates that do not care which exact opcode a build of the host
picked. A family is a set of ten flags, and an opcode may carry several.
-/

set_option autoImplicit false
set_option relaxedAutoImplicit false

namespace Interpose

/-- A set of opcode classes, one bit for each. -/
structure Family where
  bits : BitVec 10
  deriving DecidableEq

namespace Family

def empty : Family := ⟨0x000⟩
/-- Arguments, locals, constants and static fields. -/
def load : Family := ⟨0x001⟩
def store : Family := ⟨0x002⟩
def fieldLoad : Family := ⟨0x004⟩
def call : Family := ⟨0x008⟩
def jump : Family := ⟨0x010⟩
def branchTrue : Family := ⟨0x020⟩
def branchFalse : Family := ⟨0x040⟩
/-- Branches on a comparison or a table. -/
def branchCompare : Family := ⟨0x080⟩
/-- Type tests and casts. -/
def typeTest : Family := ⟨0x100⟩
def exit : Family := ⟨0x200⟩

def union (a b : Family) : Family := ⟨a.bits ||| b.bits⟩

def branch : Family := union (union jump branchTrue) (union branchFalse branchCompare)

def meets (a b : Family) : Bool := a.bits &&& b.bits != 0

/-- A family from a number whose bits beyond the ten flags do not count. -/
def ofNat (n : Nat) : Family := ⟨BitVec.ofNat 10 n⟩

/-- The classes with their names, in the order of their flags. -/
def named : List (String × Family) :=
  [("LOAD", load), ("STORE", store), ("FIELD_LOAD", fieldLoad), ("CALL", call), ("JUMP", jump),
    ("BRANCH_TRUE", branchTrue), ("BRANCH_FALSE", branchFalse), ("BRANCH_COMPARE", branchCompare),
    ("TYPE_TEST", typeTest), ("EXIT", exit)]

def text (f : Family) : String :=
  let names := (named.filter fun (_, flag) => f.meets flag).map (·.1)
  "OpFamily(" ++ (if names.isEmpty then "0x0" else " | ".intercalate names) ++ ")"

end Family

def Opcode.family : Opcode → Family
  | .ldarg | .ldloc | .ldnull | .ldcI4 | .ldcI8 | .ldcR4 | .ldcR8 | .ldstr => .load
  | .ldsfld => .union .load .fieldLoad
  | .ldfld | .ldflda => .fieldLoad
  | .starg | .stloc | .stfld | .stsfld => .store
  | .call | .callvirt | .newobj => .call
  | .br | .leave => .jump
  | .brtrue => .branchTrue
  | .brfalse => .branchFalse
  | .beq | .bne | .bge | .bgt | .ble | .blt | .switch => .branchCompare
  | .isinst | .castclass => .typeTest
  | .ret | .throw | .endfinally => .exit
  | _ => .empty

end Interpose

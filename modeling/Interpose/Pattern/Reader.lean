import Interpose.Opcode.Spelling
import Interpose.Pattern

/-!
Reading patterns from text. Steps are separated by `;` and alternatives of a step by `|`, neither
between double quotes. A step is `*`, a family such as `@call`, or an opcode with an optional
operand: a member name, an index or integer, a float or a quoted string. A token `?2` allows a gap
of two instructions in front of the next step, a bare `?` a gap of one.
-/

set_option autoImplicit false
set_option relaxedAutoImplicit false

namespace Interpose

open Interpose.Text (integer? isBlank isDigit lower natural? splitAtFirst splitAtLast
  splitUnquoted stripEnd trim)

inductive PatternFault
  | empty (pattern : String)
  | unknownOpcode (mnemonic : String)
  | unknownFamily (family : String)
  | badOperand (opcode operand : String)
  | badGap (token : String)
  | trailingGap (pattern : String)
  deriving DecidableEq

def PatternFault.kind : PatternFault → String
  | .empty _ => "Empty"
  | .unknownOpcode _ => "UnknownOpCode"
  | .unknownFamily _ => "UnknownFamily"
  | .badOperand .. => "BadOperand"
  | .badGap _ => "BadGap"
  | .trailingGap _ => "TrailingGap"

def PatternFault.message : PatternFault → String
  | .empty pattern => "Pattern '" ++ pattern ++ "' has no steps"
  | .unknownOpcode mnemonic => "Unknown opcode '" ++ mnemonic ++ "'"
  | .unknownFamily family => "Unknown opcode family '@" ++ family ++ "'"
  | .badOperand opcode operand => "Invalid operand '" ++ operand ++ "' for " ++ opcode
  | .badGap token => "Invalid gap '" ++ token ++ "'"
  | .trailingGap pattern => "Gap at end of pattern '" ++ pattern ++ "'"

inductive OperandKind
  | none | member | index | float | string
  deriving DecidableEq

def Opcode.operandKind : Opcode → OperandKind
  | .ldfld | .ldflda | .stfld | .ldsfld | .stsfld | .call | .callvirt | .newobj | .isinst
  | .castclass | .box | .unbox => .member
  | .ldarg | .ldarga | .starg | .ldloc | .ldloca | .stloc | .ldcI4 | .ldcI8 => .index
  | .ldcR4 | .ldcR8 => .float
  | .ldstr => .string
  | _ => .none

def Family.read? (name : List Char) : Option Family :=
  let wanted := lower name
  if wanted = "load".toList then some .load
  else if wanted = "store".toList then some .store
  else if wanted = "fieldload".toList || wanted = "field".toList then some .fieldLoad
  else if wanted = "call".toList then some .call
  else if wanted = "jump".toList then some .jump
  else if wanted = "brtrue".toList then some .branchTrue
  else if wanted = "brfalse".toList then some .branchFalse
  else if wanted = "compare".toList then some .branchCompare
  else if wanted = "branch".toList then some .branch
  else if wanted = "typetest".toList then some .typeTest
  else if wanted = "exit".toList then some .exit
  else none

namespace Pattern

/-- The index that a short form carries in its mnemonic: the digits after the last dot, unless the
mnemonic is a canonical one that ends in a digit. -/
def inlineIndex? (op : Opcode) (mnemonic : List Char) : Option Int64 :=
  match splitAtLast ['.'] mnemonic with
  | none => none
  | some (head, tail) =>
    if head.isEmpty || tail.isEmpty || !tail.all isDigit then none
    else if op.mnemonic.toList = lower mnemonic then none
    else integer? tail

def unquote? : List Char → Option (List Char)
  | '"' :: rest => stripEnd ['"'] rest
  | _ => none

/-- The predicate of an opcode with an operand; `step` is the text of both. -/
def readOperand (op : Opcode) (operand step : List Char) : Except PatternFault Predicate :=
  let fault := PatternFault.badOperand op.mnemonic (String.ofList operand)
  match op.operandKind with
  | .member => .ok (.member op (String.ofList operand))
  | .index =>
    match integer? operand with
    | some v => .ok (.index op v)
    | none => .error fault
  | .float =>
    match Binary64.ofText? operand with
    | some v => .ok (.near op v (String.ofList step))
    | none => .error fault
  | .string =>
    match unquote? operand with
    | some s => .ok (.string op (String.ofList s))
    | none => .error fault
  | .none => .error fault

/-- The predicate of an opcode, with the operand that follows its first white space if there is
one. -/
def readOpcode (step : List Char) : Except PatternFault Predicate :=
  let (mnemonic, operand) := match splitAtFirst isBlank step with
    | some (mnemonic, rest) => (mnemonic, some (trim rest))
    | none => (step, none)
  match Opcode.read? mnemonic with
  | none => .error (.unknownOpcode (String.ofList mnemonic))
  | some op =>
    match operand with
    | some operand => readOperand op operand step
    | none =>
      match inlineIndex? op mnemonic with
      | some v => .ok (.index op v)
      | none => .ok (.opcode op)

def readAlternative (step : List Char) : Except PatternFault Predicate :=
  match step with
  | ['*'] => .ok .any
  | '@' :: name =>
    match Family.read? name with
    | some f => .ok (.family f)
    | none => .error (.unknownFamily (String.ofList name))
  | _ => readOpcode step

def readFurther (p : Predicate) : List (List Char) → Except PatternFault Predicate
  | [] => .ok p
  | alternative :: rest =>
    match readAlternative (trim alternative) with
    | .error e => .error e
    | .ok q => readFurther (p.or q) rest

def readStep (name : String) (token : List Char) : Except PatternFault Predicate :=
  match splitUnquoted '|' token with
  | [] => .error (.empty name)
  | alternative :: rest =>
    match readAlternative (trim alternative) with
    | .error e => .error e
    | .ok p => readFurther p rest

/-- The width of a gap: one if no number follows the question mark. -/
def readGap (digits : List Char) : Except PatternFault Nat :=
  if digits.isEmpty then .ok 1
  else
    match natural? digits with
    | some n => .ok n
    | none => .error (.badGap (String.ofList ('?' :: digits)))

/-- The steps of some tokens. A gap holds for the step after it; of several the last one counts. -/
def readSteps (name : String) :
    (gap : Option Nat) → List (List Char) → Except PatternFault (List Step)
  | some _, [] => .error (.trailingGap name)
  | none, [] => .ok []
  | gap, token :: rest =>
    match token with
    | '?' :: digits =>
      match readGap digits with
      | .error e => .error e
      | .ok n => readSteps name (some n) rest
    | _ =>
      match readStep name token with
      | .error e => .error e
      | .ok p =>
        match readSteps name none rest with
        | .error e => .error e
        | .ok steps => .ok (⟨gap.getD 0, p⟩ :: steps)

/-- The tokens of a pattern text: its parts between semicolons, but for the blank ones. -/
def tokens (text : List Char) : List (List Char) :=
  ((splitUnquoted ';' text).map trim).filter fun token => !token.isEmpty

def read (name text : String) : Except PatternFault Pattern :=
  match readSteps name none (tokens text.toList) with
  | .error e => .error e
  | .ok [] => .error (.empty name)
  | .ok steps => .ok ⟨name, steps⟩

end Pattern

end Interpose

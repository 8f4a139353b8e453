import Interpose.Opcode
import Interpose.Text.Blank

/-!
Reading an opcode from its mnemonic. Besides the canonical spelling in any letter case, a mnemonic
may carry the suffix of a short form, `.s` or an index, which names no other operation: `ldarg.0`
and `ldarg.s` are both `ldarg`.
-/

set_option autoImplicit false
set_option relaxedAutoImplicit false

namespace Interpose.Opcode

open Interpose.Text (isDigit lower stripEnd trim trimEnd)

def ofMnemonic? (s : List Char) : Option Opcode :=
  all.find? fun op => op.mnemonic.toList == s

/-- A mnemonic without the suffix of a short form: one `.s`, then digits, then dots. -/
def withoutSuffix (s : List Char) : List Char :=
  trimEnd (· == '.') (trimEnd isDigit ((stripEnd ".s".toList s).getD s))

/-- The canonical spelling that a short or abbreviated mnemonic stands for. The constant loads keep
the digit of their type, which the suffix rule would take away. -/
def expand (s : List Char) : List Char :=
  if s = "bne".toList then "bne.un".toList
  else if s = "unbox".toList then "unbox.any".toList
  else
    let base := withoutSuffix s
    if base = "ldc.i".toList then "ldc.i4".toList else base

/-- The opcode of a mnemonic in any accepted spelling. -/
def read? (s : List Char) : Option Opcode :=
  let wanted := lower (trim s)
  (ofMnemonic? wanted).or (ofMnemonic? (expand wanted))

end Interpose.Opcode

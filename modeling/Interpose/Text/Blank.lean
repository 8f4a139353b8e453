/-!
White space and letter case in the texts this library reads: pattern texts, opcode mnemonics and
the names of extension points. White space is the Unicode property White_Space; letter case is
folded for the ASCII letters only, because every mnemonic is spelled in ASCII.
-/

set_option autoImplicit false
set_option relaxedAutoImplicit false

namespace Interpose.Text

/-- The characters with the Unicode property White_Space. -/
def isBlank (c : Char) : Bool :=
  let n := c.toNat
  (9 ≤ n && n ≤ 13) || n == 0x20 || n == 0x85 || n == 0xA0 || n == 0x1680 ||
    (0x2000 ≤ n && n ≤ 0x200A) || n == 0x2028 || n == 0x2029 || n == 0x202F ||
    n == 0x205F || n == 0x3000

def isDigit (c : Char) : Bool := '0' ≤ c && c ≤ '9'

def trimStart (p : Char → Bool) (s : List Char) : List Char := s.dropWhile p

def trimEnd (p : Char → Bool) (s : List Char) : List Char := (s.reverse.dropWhile p).reverse

def trim (s : List Char) : List Char := trimEnd isBlank (trimStart isBlank s)

/-- Capital ASCII letters become small; all other characters stay. -/
def lower (s : List Char) : List Char := s.map Char.toLower

def stripStart : List Char → List Char → Option (List Char)
  | [], s => some s
  | _ :: _, [] => none
  | p :: ps, c :: cs => if p = c then stripStart ps cs else none

def stripEnd (ending s : List Char) : Option (List Char) :=
  (stripStart ending.reverse s.reverse).map List.reverse

end Interpose.Text

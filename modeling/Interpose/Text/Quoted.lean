import Interpose.Text.GraphemeExtend
import Interpose.Text.Numeral
import Interpose.Text.Printable

/-!
Quoted text, as listings and pattern descriptions show string operands: the text between double
quotes, with escapes for the quote, the backslash and every character that would not show as itself.
-/

set_option autoImplicit false
set_option relaxedAutoImplicit false

namespace Interpose.Text.Quoted

/-- The letter that follows a backslash, for the characters that have a short escape. -/
def shortEscape? : Char → Option Char
  | '"' => some '"'
  | '\\' => some '\\'
  | '\t' => some 't'
  | '\r' => some 'r'
  | '\n' => some 'n'
  | '\x00' => some '0'
  | _ => none

/-- A halfwidth sound mark: it extends the kana before it, but takes a place of its own. -/
def isHalfwidthMark (c : Char) : Bool := c = '\uff9e' || c = '\uff9f'

/-- A filler: a Hangul letter that stands for the absence of one and has no visible form. -/
def isFiller (c : Char) : Bool :=
  c = '\u115f' || c = '\u1160' || c = '\u3164' || c = '\uffa0'

/-- A character that quoted text shows by its code point, since it would not be seen as a character
of its own. -/
def needsCode (c : Char) : Bool :=
  (isGraphemeExtend c && !isHalfwidthMark c) || isFiller c || isUnprintable c

def codeEscape (c : Char) : List Char :=
  ['\\', 'u', '\x7b'] ++ (hexadecimal 0 c.toNat).toList ++ ['\x7d']

def encodeChar (c : Char) : List Char :=
  match shortEscape? c with
  | some letter => ['\\', letter]
  | none => if needsCode c then codeEscape c else [c]

def encode (s : String) : String :=
  String.ofList ('"' :: s.toList.flatMap encodeChar ++ ['"'])

end Interpose.Text.Quoted

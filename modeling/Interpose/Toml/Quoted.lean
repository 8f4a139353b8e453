import Interpose.Text.Numeral

/-!
Writing strings for TOML documents, in the plainest notation that can hold the text: on one line
rather than on several, between double quotes rather than single ones, and with escapes only where
nothing else will do.
-/

set_option autoImplicit false
set_option relaxedAutoImplicit false

namespace Interpose.Toml.Quoted

/-- The control characters that only an escape can write. -/
def isControl (c : Char) : Bool := (c.toNat < 0x20 && c ≠ '\t' && c ≠ '\n') || c.toNat = 0x7F

def hasTriple (quote : Char) : List Char → Bool
  | a :: b :: c :: rest => (a = quote && b = quote && c = quote) || hasTriple quote (b :: c :: rest)
  | _ => false

structure Notation where
  /-- The notation may hold line ends. -/
  isMulti : Bool
  /-- The notation has no escapes. -/
  isLiteral : Bool

/-- A notation can hold a text without an escape, but for that of the tab. -/
def Notation.fits (n : Notation) (s : List Char) : Bool :=
  let quote := if n.isLiteral then '\'' else '"'
  !s.any isControl && (n.isLiteral || !s.contains '\\') &&
    (if n.isMulti then !hasTriple quote s else !s.contains quote && !s.contains '\n')

def choose (s : List Char) : Notation :=
  let plain := [⟨false, false⟩, ⟨false, true⟩, ⟨true, false⟩, ⟨true, true⟩]
  (plain.find? fun n => n.fits s).getD ⟨s.contains '\n', false⟩

/-- The letter that follows a backslash, for the characters that have a short escape. -/
def shortEscape? : Char → Option Char
  | '\\' => some '\\'
  | '\x08' => some 'b'
  | '\t' => some 't'
  | '\x0c' => some 'f'
  | '\r' => some 'r'
  | _ => none

def codeEscape (c : Char) : List Char :=
  ['\\', 'u'] ++ (Text.hexadecimal 4 c.toNat).toList.map Char.toUpper

/-- A text with escapes. On several lines a quote is escaped only if it would be the third in a row;
`quotes` counts those in front. -/
def escape (isMulti : Bool) : (quotes : Nat) → List Char → List Char
  | _, [] => []
  | quotes, '"' :: rest =>
    if isMulti && quotes < 2 then '"' :: escape isMulti (quotes + 1) rest
    else '\\' :: '"' :: escape isMulti 0 rest
  | _, '\n' :: rest => (if isMulti then ['\n'] else ['\\', 'n']) ++ escape isMulti 0 rest
  | _, c :: rest =>
    let written := match shortEscape? c with
      | some letter => ['\\', letter]
      | none => if isControl c then codeEscape c else [c]
    written ++ escape isMulti 0 rest

/-- A text in quotes. Where it has several lines, it starts on a line of its own. -/
def encode (s : String) : String :=
  let text := s.toList
  let n := choose text
  let quote := List.replicate (if n.isMulti then 3 else 1) (if n.isLiteral then '\'' else '"')
  let start := if n.isMulti && text.contains '\n' then ['\n'] else []
  let inner := if n.isLiteral then text else escape n.isMulti 0 text
  String.ofList (quote ++ start ++ inner ++ quote)

end Interpose.Toml.Quoted

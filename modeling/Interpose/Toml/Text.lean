import Interpose.Text.Numeral

/-!
The texts of TOML documents: blanks, line ends and comments, bare keys, and strings in their four
notations. A reader takes the characters from a place on, and gives what it read and the rest.
-/

set_option autoImplicit false
set_option relaxedAutoImplicit false

namespace Interpose.Toml

open Interpose.Text (digits?)

def isSpace (c : Char) : Bool := c = ' ' || c = '\t'

/-- The characters that may stand in comments and strings: all but the control characters, of which
only the tab may. -/
def isPlain (c : Char) : Bool := c = '\t' || (0x20 ≤ c.toNat && c.toNat ≠ 0x7F)

def isBare (c : Char) : Bool := c.isAlphanum || c = '-' || c = '_'

def skipSpace (s : List Char) : List Char := s.dropWhile isSpace

def newline? : List Char → Option (List Char)
  | '\n' :: rest => some rest
  | '\r' :: '\n' :: rest => some rest
  | _ => none

def skipComment : List Char → List Char
  | '#' :: rest => rest.dropWhile isPlain
  | s => s

/-- The text behind the rest of a line that holds nothing but blanks and a comment. -/
def lineEnd? (s : List Char) : Option (List Char) :=
  match skipComment (skipSpace s) with
  | [] => some []
  | s => newline? s

/-- A text without the blanks, line ends and comments in front. -/
def skipTrivia : (comment : Bool) → List Char → List Char
  | _, [] => []
  | _, '\n' :: rest => skipTrivia false rest
  | _, '\r' :: '\n' :: rest => skipTrivia false rest
  | true, c :: rest => if isPlain c then skipTrivia true rest else c :: rest
  | false, c :: rest =>
    if c = '#' then skipTrivia true rest
    else if isSpace c then skipTrivia false rest
    else c :: rest

/-- What stands for a character that a backslash and one letter write. -/
def escaped? : Char → Option Char
  | '"' => some '"'
  | '\\' => some '\\'
  | 'b' => some '\x08'
  | 't' => some '\t'
  | 'n' => some '\n'
  | 'f' => some '\x0c'
  | 'r' => some '\r'
  | _ => none

/-- The character with a code point in hexadecimal digits. Halves of surrogate pairs are none. -/
def coded? (digits : List Char) : Option Char :=
  (digits? 16 digits).bind fun n =>
    if n < 0xD800 || (0xDFFF < n && n < 0x110000) then some (Char.ofNat n) else none

def prepend (c : Char) : Option (List Char × List Char) → Option (List Char × List Char)
  | some (text, rest) => some (c :: text, rest)
  | none => none

/-- A basic string behind its opening quote. -/
def readBasic : List Char → Option (List Char × List Char)
  | [] => none
  | '"' :: rest => some ([], rest)
  | '\\' :: 'u' :: a :: b :: c :: d :: rest =>
    (coded? [a, b, c, d]).bind fun x => prepend x (readBasic rest)
  | '\\' :: 'U' :: a :: b :: c :: d :: e :: f :: g :: h :: rest =>
    (coded? [a, b, c, d, e, f, g, h]).bind fun x => prepend x (readBasic rest)
  | '\\' :: c :: rest => (escaped? c).bind fun x => prepend x (readBasic rest)
  | c :: rest => if isPlain c then prepend c (readBasic rest) else none

def readLiteral : List Char → Option (List Char × List Char)
  | [] => none
  | '\'' :: rest => some ([], rest)
  | c :: rest => if isPlain c then prepend c (readLiteral rest) else none

/-- The end of a multi-line string behind its first three quotes: up to two of them are part of the
string if more quotes follow. -/
def closing (quote : Char) : List Char → List Char × List Char
  | a :: b :: rest =>
    if a = quote && b = quote then ([quote, quote], rest)
    else if a = quote then ([quote], b :: rest)
    else ([], a :: b :: rest)
  | [a] => if a = quote then ([quote], []) else ([], [a])
  | [] => ([], [])

/-- A multi-line basic string behind its opening. Behind a backslash at the end of a line, blanks
and line ends are trimmed up to the next other character. -/
def readMultiBasic : (trimming : Bool) → List Char → Option (List Char × List Char)
  | _, [] => none
  | _, '"' :: '"' :: '"' :: rest => some (closing '"' rest)
  | trimming, '\n' :: rest =>
    if trimming then readMultiBasic true rest else prepend '\n' (readMultiBasic false rest)
  | trimming, '\r' :: '\n' :: rest =>
    if trimming then readMultiBasic true rest else prepend '\n' (readMultiBasic false rest)
  | _, '\\' :: 'u' :: a :: b :: c :: d :: rest =>
    (coded? [a, b, c, d]).bind fun x => prepend x (readMultiBasic false rest)
  | _, '\\' :: 'U' :: a :: b :: c :: d :: e :: f :: g :: h :: rest =>
    (coded? [a, b, c, d, e, f, g, h]).bind fun x => prepend x (readMultiBasic false rest)
  | _, '\\' :: c :: rest =>
    match escaped? c with
    | some x => prepend x (readMultiBasic false rest)
    | none =>
      if (newline? (skipSpace (c :: rest))).isSome then readMultiBasic true (c :: rest) else none
  | trimming, c :: rest =>
    if trimming && isSpace c then readMultiBasic true rest
    else if isPlain c then prepend c (readMultiBasic false rest)
    else none

def readMultiLiteral : List Char → Option (List Char × List Char)
  | [] => none
  | '\'' :: '\'' :: '\'' :: rest => some (closing '\'' rest)
  | '\n' :: rest => prepend '\n' (readMultiLiteral rest)
  | '\r' :: '\n' :: rest => prepend '\n' (readMultiLiteral rest)
  | c :: rest => if isPlain c then prepend c (readMultiLiteral rest) else none

/-- A text without the line end in front, if there is one. -/
def skipNewline (s : List Char) : List Char := (newline? s).getD s

def readString : List Char → Option (List Char × List Char)
  | '"' :: '"' :: '"' :: rest => readMultiBasic false (skipNewline rest)
  | '"' :: rest => readBasic rest
  | '\'' :: '\'' :: '\'' :: rest => readMultiLiteral (skipNewline rest)
  | '\'' :: rest => readLiteral rest
  | _ => none

/-- One part of a key: a string on one line, or bare. -/
def readKeyPart : List Char → Option (List Char × List Char)
  | '"' :: rest => readBasic rest
  | '\'' :: rest => readLiteral rest
  | s =>
    match s.takeWhile isBare with
    | [] => none
    | part => some (part, s.dropWhile isBare)

/-- The parts of a key between dots, and the text behind the blanks that follow it. -/
def readKeyParts : (fuel : Nat) → List Char → Option (List String × List Char)
  | 0, _ => none
  | fuel + 1, s =>
    match readKeyPart (skipSpace s) with
    | none => none
    | some (part, rest) =>
      match skipSpace rest with
      | '.' :: rest =>
        (readKeyParts fuel rest).map fun (parts, rest) => (String.ofList part :: parts, rest)
      | rest => some ([String.ofList part], rest)

/-- How deep keys and values may nest. -/
def nestingLimit : Nat := 80

/-- A key of fewer parts than the nesting limit. Every part has a character at least, so that the
length of the text is fuel enough. -/
def readKey (s : List Char) : Option (List String × List Char) :=
  (readKeyParts (s.length + 1) s).filter fun (parts, _) => parts.length < nestingLimit

end Interpose.Toml

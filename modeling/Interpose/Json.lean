import Interpose.Text.Numeral

/-!
JSON documents, read strictly: one value with white space around it and nothing else. Strings are
kept as the code points they spell, since an escape may spell half of a surrogate pair; whether that
is a fault is for the user of the string to say. Of a number only the spelling is checked.
-/

set_option autoImplicit false
set_option relaxedAutoImplicit false

namespace Interpose

open Interpose.Text (isDigit stripStart)

inductive Json
  | null
  | boolean (value : Bool)
  | number
  | string (points : List Nat)
  | array (items : List Json)
  | object (members : List (List Nat × Json))

namespace Json

def isSpace (c : Char) : Bool := c = ' ' || c = '\t' || c = '\n' || c = '\r'

def skipSpace (s : List Char) : List Char := s.dropWhile isSpace

/-- The first half of a surrogate pair. -/
def isLeading (n : Nat) : Bool := 0xD800 ≤ n && n ≤ 0xDBFF

/-- The second half of a surrogate pair. -/
def isTrailing (n : Nat) : Bool := 0xDC00 ≤ n && n ≤ 0xDFFF

/-- The characters of a row of code points behind an unpaired first half, if all halves pair up. -/
def joinFrom : (leading : Option Nat) → List Nat → Option (List Char)
  | none, [] => some []
  | some _, [] => none
  | some h, n :: rest =>
    if isTrailing n then
      (joinFrom none rest).map (Char.ofNat (0x10000 + (h - 0xD800) * 0x400 + (n - 0xDC00)) :: ·)
    else none
  | none, n :: rest =>
    if isLeading n then joinFrom (some n) rest
    else if isTrailing n then none
    else (joinFrom none rest).map (Char.ofNat n :: ·)

/-- The text of a row of code points, if all surrogate halves pair up. -/
def text? (points : List Nat) : Option String := (joinFrom none points).map String.ofList

/-- A member with its key as text, if the key's halves pair up. -/
def named? (member : List Nat × Json) : Option (String × Json) :=
  (text? member.1).map fun key => (key, member.2)

/-- The code point of a character that follows a backslash by itself. -/
def escaped? : Char → Option Nat
  | '"' => some 0x22
  | '\\' => some 0x5C
  | '/' => some 0x2F
  | 'b' => some 0x08
  | 'f' => some 0x0C
  | 'n' => some 0x0A
  | 'r' => some 0x0D
  | 't' => some 0x09
  | _ => none

/-- The code points of a string behind its opening quote, and the text behind its closing one. -/
def readString : List Char → Option (List Nat × List Char)
  | [] => none
  | '"' :: rest => some ([], rest)
  | '\\' :: 'u' :: a :: b :: c :: d :: rest =>
    match Text.digits? 16 [a, b, c, d], readString rest with
    | some n, some (points, rest) => some (n :: points, rest)
    | _, _ => none
  | '\\' :: c :: rest =>
    match escaped? c, readString rest with
    | some n, some (points, rest) => some (n :: points, rest)
    | _, _ => none
  | c :: rest =>
    if c.toNat < 0x20 then none
    else (readString rest).map fun (points, rest) => (c.toNat :: points, rest)

def skipDigits : List Char → Option (List Char)
  | c :: rest => if isDigit c then some (rest.dropWhile isDigit) else none
  | [] => none

def skipExponent : List Char → Option (List Char)
  | c :: rest =>
    if c = 'e' || c = 'E' then
      match rest with
      | '+' :: rest | '-' :: rest => skipDigits rest
      | _ => skipDigits rest
    else some (c :: rest)
  | [] => some []

def skipNumber (s : List Char) : Option (List Char) :=
  let digits := match s with
    | '-' :: rest => rest
    | _ => s
  let whole := match digits with
    | '0' :: c :: rest => if isDigit c then none else some (c :: rest)
    | _ => skipDigits digits
  match whole with
  | some ('.' :: rest) => (skipDigits rest).bind skipExponent
  | some rest => skipExponent rest
  | none => none

mutual

def readValue : (fuel : Nat) → List Char → Option (Json × List Char)
  | 0, _ => none
  | fuel + 1, s =>
    match skipSpace s with
    | '"' :: rest => (readString rest).map fun (points, rest) => (.string points, rest)
    | '[' :: rest =>
      match skipSpace rest with
      | ']' :: rest => some (.array [], rest)
      | _ => (readItems fuel rest).map fun (items, rest) => (.array items, rest)
    | '\x7b' :: rest =>
      match skipSpace rest with
      | '\x7d' :: rest => some (.object [], rest)
      | _ => (readMembers fuel rest).map fun (members, rest) => (.object members, rest)
    | 'n' :: rest => (stripStart "ull".toList rest).map fun rest => (.null, rest)
    | 't' :: rest => (stripStart "rue".toList rest).map fun rest => (.boolean true, rest)
    | 'f' :: rest => (stripStart "alse".toList rest).map fun rest => (.boolean false, rest)
    | s => (skipNumber s).map fun rest => (.number, rest)

/-- The items of an array that has some, and the text behind its closing bracket. -/
def readItems : (fuel : Nat) → List Char → Option (List Json × List Char)
  | 0, _ => none
  | fuel + 1, s =>
    match readValue fuel s with
    | none => none
    | some (item, rest) =>
      match skipSpace rest with
      | ',' :: rest => (readItems fuel rest).map fun (items, rest) => (item :: items, rest)
      | ']' :: rest => some ([item], rest)
      | _ => none

/-- The members of an object that has some, and the text behind its closing brace. -/
def readMembers : (fuel : Nat) → List Char → Option (List (List Nat × Json) × List Char)
  | 0, _ => none
  | fuel + 1, s =>
    match readMember fuel s with
    | none => none
    | some (member, rest) =>
      match skipSpace rest with
      | ',' :: rest => (readMembers fuel rest).map fun (members, rest) => (member :: members, rest)
      | '\x7d' :: rest => some ([member], rest)
      | _ => none

def readMember : (fuel : Nat) → List Char → Option ((List Nat × Json) × List Char)
  | 0, _ => none
  | fuel + 1, s =>
    match skipSpace s with
    | '"' :: rest =>
      match readString rest with
      | none => none
      | some (key, rest) =>
        match skipSpace rest with
        | ':' :: rest => (readValue fuel rest).map fun (value, rest) => ((key, value), rest)
        | _ => none
    | _ => none

end

/-- The value of a document. Every third call at least moves on in the text, so that the fuel never
runs out. -/
def read? (s : List Char) : Option Json :=
  match readValue (3 * s.length + 3) s with
  | some (value, rest) => if (skipSpace rest).isEmpty then some value else none
  | none => none

end Json

end Interpose

import Interpose.Binary64.Reader
import Interpose.Toml.Text

/-!
The numbers, dates and times of TOML documents. Integers have 64 bits. Of floats, dates and times
only the spelling matters, and that they are in range.
-/

set_option autoImplicit false
set_option relaxedAutoImplicit false

namespace Interpose.Toml

open Interpose.Text (digits? hexDigit? isDigit stripStart)

def isDigitOf (base : Nat) (c : Char) : Bool := (hexDigit? c).any (· < base)

/-- The digits of a row that goes on behind a digit. An underscore must stand between digits. -/
def moreDigits (base : Nat) : List Char → List Char × List Char
  | '_' :: c :: rest =>
    if isDigitOf base c then
      let (digits, rest) := moreDigits base rest
      (c :: digits, rest)
    else ([], '_' :: c :: rest)
  | c :: rest =>
    if isDigitOf base c then
      let (digits, rest) := moreDigits base rest
      (c :: digits, rest)
    else ([], c :: rest)
  | [] => ([], [])

def readDigits (base : Nat) : List Char → Option (List Char × List Char)
  | c :: rest =>
    if isDigitOf base c then
      let (digits, rest) := moreDigits base rest
      some (c :: digits, rest)
    else none
  | [] => none

/-- The digits in front of a point: a single zero, or a row that does not start with one. -/
def readWhole : List Char → Option (List Char × List Char)
  | '0' :: rest => some (['0'], rest)
  | s => readDigits 10 s

def readSign : List Char → List Char × List Char
  | '+' :: rest => (['+'], rest)
  | '-' :: rest => (['-'], rest)
  | s => ([], s)

def readExponent : List Char → Option (List Char × List Char)
  | c :: rest =>
    if c = 'e' || c = 'E' then
      let (sign, rest) := readSign rest
      (readDigits 10 rest).map fun (digits, rest) => ('e' :: sign ++ digits, rest)
    else some ([], c :: rest)
  | [] => some ([], [])

/-- The point and the exponent of a float. Of a whole number there is neither. -/
def readFraction : List Char → Option (List Char × List Char)
  | '.' :: rest =>
    match readDigits 10 rest with
    | none => none
    | some (digits, rest) =>
      (readExponent rest).map fun (exponent, rest) => ('.' :: digits ++ exponent, rest)
  | s => readExponent s

/-- A number: an integer, or nothing for a float. -/
abbrev Numeric := Option Int

/-- An integer of 64 bits. -/
def inRange (v : Int) : Bool := -(Nat.pow 2 63 : Int) ≤ v && v < Nat.pow 2 63

/-- A whole number in hexadecimal, octal or binary, behind its base. -/
def readBased (base : Nat) (s : List Char) : Option (Numeric × List Char) :=
  match readDigits base s with
  | none => none
  | some (digits, rest) =>
    ((digits? base digits).map Int.ofNat).bind fun v =>
      if inRange v then some (some v, rest) else none

/-- A number in decimal behind its sign. A float may be too small, but not too great. -/
def readDecimal (sign s : List Char) : Option (Numeric × List Char) :=
  match readWhole s with
  | none => none
  | some (whole, rest) =>
    match readFraction rest with
    | none => none
    | some ([], rest) =>
      let magnitude := (digits? 10 whole).map Int.ofNat
      (magnitude.map fun v => if sign = ['-'] then -v else v).bind fun v =>
        if inRange v then some (some v, rest) else none
    | some (fraction, rest) =>
      (Binary64.ofText? (sign ++ whole ++ fraction)).bind fun v =>
        if v = Binary64.infinity false then none else some (none, rest)

def readNumber (s : List Char) : Option (Numeric × List Char) :=
  match s with
  | '0' :: 'x' :: rest => readBased 16 rest
  | '0' :: 'o' :: rest => readBased 8 rest
  | '0' :: 'b' :: rest => readBased 2 rest
  | _ =>
    let (sign, rest) := readSign s
    match stripStart "inf".toList rest, stripStart "nan".toList rest with
    | some rest, _ | _, some rest => some (none, rest)
    | none, none => readDecimal sign rest

/-- A row of exactly `width` digits with a value in a range. -/
def readField (width low high : Nat) (s : List Char) : Option (Nat × List Char) :=
  let digits := s.take width
  if digits.length = width && digits.all isDigit then
    (digits? 10 digits).bind fun n =>
      if low ≤ n && n ≤ high then some (n, s.drop width) else none
  else none

def skipChar (c : Char) : List Char → Option (List Char)
  | d :: rest => if c = d then some rest else none
  | [] => none

def daysIn (year month : Nat) : Nat :=
  if month = 2 then
    if year % 4 = 0 && (year % 100 ≠ 0 || year % 400 = 0) then 29 else 28
  else if month = 4 || month = 6 || month = 9 || month = 11 then 30
  else 31

def skipDate (s : List Char) : Option (List Char) := do
  let (year, s) ← readField 4 0 9999 s
  let s ← skipChar '-' s
  let (month, s) ← readField 2 1 12 s
  let s ← skipChar '-' s
  let (_, s) ← readField 2 1 (daysIn year month) s
  return s

/-- The text behind the fraction of a second, if there is one. -/
def skipSecondFraction : List Char → List Char
  | '.' :: c :: rest => if isDigit c then rest.dropWhile isDigit else '.' :: c :: rest
  | s => s

def skipTime (s : List Char) : Option (List Char) := do
  let (_, s) ← readField 2 0 23 s
  let s ← skipChar ':' s
  let (_, s) ← readField 2 0 59 s
  let s ← skipChar ':' s
  let (_, s) ← readField 2 0 60 s
  return skipSecondFraction s

def skipOffset : List Char → Option (List Char)
  | 'Z' :: s | 'z' :: s => some s
  | '+' :: s | '-' :: s => do
    let (_, s) ← readField 2 0 23 s
    let s ← skipChar ':' s
    let (_, s) ← readField 2 0 59 s
    return s
  | s => some s

/-- The text behind the time that may follow a date. -/
def skipTimeOfDate : List Char → Option (List Char)
  | c :: s =>
    if c = 'T' || c = 't' || c = ' ' then
      match skipTime s with
      | some rest => skipOffset rest
      | none => some (c :: s)
    else some (c :: s)
  | [] => some []

/-- The text behind a date, a date with a time, or a time. -/
def skipDateTime (s : List Char) : Option (List Char) :=
  match skipDate s with
  | some rest => skipTimeOfDate rest
  | none => skipTime s

end Interpose.Toml

import Interpose.Binary64.Rounding
import Interpose.Text.Numeral

/-!
Reading a binary number from decimal text. A text is an optional sign followed by `inf`,
`infinity`, `nan` (in any case) or a decimal: digits with at most one point, at least one digit in
all, and an optional exponent. The decimal denotes an exact number, which is rounded once.
-/

set_option autoImplicit false
set_option relaxedAutoImplicit false

namespace Interpose.Binary64

open Interpose.Text (digits? isDigit lower)

/-- The exact number `digits * 10 ^ exponent`. -/
structure Decimal where
  digits : Nat
  exponent : Int
  deriving DecidableEq

inductive Magnitude
  | decimal (d : Decimal)
  | infinite
  | nan
  deriving DecidableEq

def splitSign : List Char → Bool × List Char
  | '-' :: rest => (true, rest)
  | '+' :: rest => (false, rest)
  | s => (false, s)

/-- The exponent after the digits of a decimal: nothing, or `e`, a sign and digits. -/
def exponentPart? : List Char → Option Int
  | [] => some 0
  | c :: rest =>
    if c = 'e' || c = 'E' then
      let (negative, text) := splitSign rest
      if text.all isDigit then
        (digits? 10 text).map fun n => if negative then -(n : Int) else n
      else none
    else none

def decimal? (s : List Char) : Option Decimal :=
  let whole := s.takeWhile isDigit
  let (part, rest) := match s.dropWhile isDigit with
    | '.' :: more => (more.takeWhile isDigit, more.dropWhile isDigit)
    | more => ([], more)
  match digits? 10 (whole ++ part), exponentPart? rest with
  | some n, some e => some ⟨n, e - part.length⟩
  | _, _ => none

def magnitude? (s : List Char) : Option Magnitude :=
  if lower s = "inf".toList || lower s = "infinity".toList then some .infinite
  else if lower s = "nan".toList then some .nan
  else (decimal? s).map .decimal

/-- The number of a format nearest to a decimal. A decimal whose leading digit stands four hundred
places or more from the point is out of range on either side, whatever its digits are. -/
def Decimal.round (format : Format) (d : Decimal) : Rounded :=
  let lead : Int := (Nat.toDigits 10 d.digits).length + d.exponent
  if d.digits = 0 || lead < -400 then .finite 0 format.minExponent
  else if 400 < lead then .infinite
  else format.round (d.digits * Nat.pow 10 d.exponent.toNat) (Nat.pow 10 (-d.exponent).toNat)

/-- The double that a text denotes after rounding to a format. -/
def read? (format : Format) (s : List Char) : Option Binary64 :=
  let (negative, rest) := splitSign s
  (magnitude? rest).map fun
    | .decimal d => (d.round format).widen negative
    | .infinite => infinity negative
    | .nan => nan

def ofText? (s : List Char) : Option Binary64 := read? .double s

/-- The single-precision number that a text denotes, widened to a double. -/
def ofSingleText? (s : List Char) : Option Binary64 := read? .single s

end Interpose.Binary64

import Interpose.Text.Blank

/-!
Whole numbers in text: decimal and hexadecimal digits, padding with zeros, and the two decimal
readers of the library. A reader accepts a sign and any number of digits, leading zeros included,
and refuses a value outside its range.
-/

set_option autoImplicit false
set_option relaxedAutoImplicit false

namespace Interpose.Text

/-- The value of a hexadecimal digit of either case. -/
def hexDigit? (c : Char) : Option Nat :=
  if '0' ≤ c && c ≤ '9' then some (c.toNat - '0'.toNat)
  else if 'a' ≤ c && c ≤ 'f' then some (c.toNat - 'a'.toNat + 10)
  else if 'A' ≤ c && c ≤ 'F' then some (c.toNat - 'A'.toNat + 10)
  else none

/-- The value of a non-empty row of digits in a base of at most sixteen. -/
def digits? (base : Nat) (s : List Char) : Option Nat :=
  if s.isEmpty then none
  else s.foldlM (fun n c => (hexDigit? c).bind fun d =>
    if d < base then some (n * base + d) else none) 0

/-- A natural number up to `2 ^ 64 - 1`, with an optional plus sign. -/
def natural? (s : List Char) : Option Nat :=
  let digits := match s with
    | '+' :: rest => rest
    | _ => s
  (digits? 10 digits).filter (· < Nat.pow 2 64)

/-- A signed integer of 64 bits, with an optional sign. -/
def integer? (s : List Char) : Option Int64 :=
  let value : Option Int := match s with
    | '+' :: rest => (digits? 10 rest).map Int.ofNat
    | '-' :: rest => (digits? 10 rest).map fun n => -Int.ofNat n
    | _ => (digits? 10 s).map Int.ofNat
  (value.filter fun v => -(Nat.pow 2 63 : Int) ≤ v && v < Nat.pow 2 63).map Int64.ofInt

def decimal (n : Nat) : String := String.ofList (Nat.toDigits 10 n)

def signed (v : Int64) : String :=
  if v.toInt < 0 then "-" ++ decimal v.toInt.natAbs else decimal v.toInt.natAbs

/-- Zeros in front of a row of digits, up to a width. -/
def padded (width : Nat) (digits : List Char) : String :=
  String.ofList (List.replicate (width - digits.length) '0' ++ digits)

/-- A natural number in decimal with at least four digits, as listings number instructions. -/
def fourDigits (n : Nat) : String := padded 4 (Nat.toDigits 10 n)

/-- A natural number in hexadecimal, small letters, with at least `width` digits. -/
def hexadecimal (width n : Nat) : String := padded width (Nat.toDigits 16 n)

end Interpose.Text

import Interpose.Binary64.Shortest

/-!
The text of a binary number in listings: its shortest decimal, positional where the leading digit
stands between the fourth place after the point and the sixteenth before it, with an exponent
elsewhere. A positional text always has a digit after the point.
-/

set_option autoImplicit false
set_option relaxedAutoImplicit false

namespace Interpose.Binary64

open Interpose.Text (trimEnd)

/-- How a decimal is laid out: the exponents of the leading digit that are written positionally,
from `positionalFrom` up to but not including `positionalTo`. -/
structure Layout where
  positionalFrom : Int
  positionalTo : Int

/-- Listings write positionally from `0.0001` up to below `10 ^ 16`. -/
def Layout.listing : Layout := ⟨-4, 16⟩

private def exponentText (e : Int) : List Char :=
  if e < 0 then '-' :: Nat.toDigits 10 e.natAbs else Nat.toDigits 10 e.natAbs

/-- The digits of a decimal without trailing zeros, and the exponent of the leading one. -/
def Decimal.leading (d : Decimal) : List Char × Int :=
  let digits := Nat.toDigits 10 d.digits
  (trimEnd (· == '0') digits, digits.length + d.exponent - 1)

/-- Digits with the point after the place of exponent zero. -/
def positional (digits : List Char) (lead : Int) : List Char :=
  if lead < 0 then
    ['0', '.'] ++ List.replicate (-lead - 1).toNat '0' ++ digits
  else
    let places := lead.toNat + 1
    let whole := digits.take places
    let part := digits.drop places
    whole ++ List.replicate (places - whole.length) '0' ++ ['.'] ++
      (if part.isEmpty then ['0'] else part)

/-- Digits with the point after the first one, and the exponent. -/
def scientific (digits : List Char) (lead : Int) : List Char :=
  digits.take 1 ++ (if digits.length ≤ 1 then [] else '.' :: digits.drop 1) ++
    ['e'] ++ exponentText lead

def Layout.render (layout : Layout) (d : Decimal) : List Char :=
  let (digits, lead) := d.leading
  if layout.positionalFrom ≤ lead && lead < layout.positionalTo then positional digits lead
  else scientific digits lead

def text (x : Binary64) : String :=
  if x.isNaN then "NaN"
  else
    let magnitude :=
      if !x.isFinite then "inf".toList
      else if x.isZero then "0.0".toList
      else Layout.listing.render x.shortest
    String.ofList (if x.negative then '-' :: magnitude else magnitude)

end Interpose.Binary64

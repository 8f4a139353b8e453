import Interpose.Binary64.Reader

/-!
The shortest decimal that reads back to a given number. The reals that round to a finite number
form an interval; of the decimals in it the one with the fewest digits is chosen, of two such the
nearer, and of two equally near the greater.
-/

set_option autoImplicit false
set_option relaxedAutoImplicit false

namespace Interpose.Binary64

/-- Compares `a * 10 ^ i` with `n * 2 ^ j`. -/
def compareScaled (a : Nat) (i : Int) (n : Nat) (j : Int) : Ordering :=
  compare (a * Nat.pow 10 i.toNat * Nat.pow 2 (-j).toNat)
    (n * Nat.pow 2 j.toNat * Nat.pow 10 (-i).toNat)

/-- The gap below a power of two is half the gap above it, except for the least normal number. -/
def narrowBelow (x : Binary64) : Bool := x.fraction == 0 && 1 < x.biasedExponent

/-- A decimal among the reals that round to a positive finite number: between the midpoints to its
neighbours, the midpoints included exactly when the significand is even. -/
def readsBack (x : Binary64) (d : Decimal) : Bool :=
  let m := x.significand
  let low := if x.narrowBelow then 4 * m - 1 else 4 * m - 2
  let even := m % 2 == 0
  let fromLow := compareScaled d.digits d.exponent low (x.exponent - 2)
  let fromHigh := compareScaled d.digits d.exponent (4 * m + 2) (x.exponent - 2)
  (fromLow == .gt || (even && fromLow == .eq)) && (fromHigh == .lt || (even && fromHigh == .eq))

/-- The least `k` from a starting point on with the number below `10 ^ k`. -/
def scaleFrom (x : Binary64) : (fuel : Nat) → Int → Int
  | 0, k => k
  | fuel + 1, k =>
    if compareScaled 1 k x.significand x.exponent == .gt then k else scaleFrom x fuel (k + 1)

/-- The least `k` with a positive finite number below `10 ^ k`. The search starts a few
places below the answer, since a binary digit is worth between 0.30 and 0.31 decimal digits. -/
def scale (x : Binary64) : Int :=
  let top : Int := x.significand.log2 + x.exponent
  scaleFrom x 64 (if top < 0 then top * 31 / 100 - 1 else top * 30 / 100)

/-- The decimal on the grid of `10 ^ e` that reads back to a number, if there is one: of the two
neighbours of the number on the grid the nearer, and the greater if both are equally near. -/
def onGrid? (x : Binary64) (e : Int) : Option Decimal :=
  let num := x.significand * Nat.pow 2 x.exponent.toNat * Nat.pow 10 (-e).toNat
  let den := Nat.pow 2 (-x.exponent).toNat * Nat.pow 10 e.toNat
  let below : Decimal := ⟨num / den, e⟩
  let above : Decimal := ⟨num / den + 1, e⟩
  if x.readsBack below && (!x.readsBack above || 2 * (num % den) < den) then some below
  else if x.readsBack above then some above
  else none

/-- The first decimal found on ever finer grids. -/
def shortestFrom (x : Binary64) (k : Int) : (fuel digits : Nat) → Option Decimal
  | 0, _ => none
  | fuel + 1, digits =>
    match onGrid? x (k - digits) with
    | some d => some d
    | none => shortestFrom x k fuel (digits + 1)

/-- The shortest decimal that reads back to a positive finite number. Seventeen digits always
suffice; the exact value stands in where they would not. -/
def shortest (x : Binary64) : Decimal :=
  (shortestFrom x x.scale 17 1).getD
    ⟨x.significand * Nat.pow 2 x.exponent.toNat * Nat.pow 5 (-x.exponent).toNat,
      if x.exponent < 0 then x.exponent else 0⟩

end Interpose.Binary64

import Interpose.Binary64.Basic

/-!
Rounding of exact quotients to binary floating point, to nearest with ties to even. The rule is
stated once for any precision, so that constants of single precision round once, to their own
format, and are then widened without loss.
-/

set_option autoImplicit false
set_option relaxedAutoImplicit false

namespace Interpose.Binary64

/-- A binary floating-point format: the bits of its significand, and the least and greatest
exponent of the last of those bits. -/
structure Format where
  precision : Nat
  minExponent : Int
  maxExponent : Int
  deriving DecidableEq

def Format.double : Format := ⟨53, -1074, 971⟩

def Format.single : Format := ⟨24, -149, 104⟩

/-- The outcome of rounding a magnitude: `m * 2 ^ q`, or too large for the format. -/
inductive Rounded
  | finite (significand : Nat) (exponent : Int)
  | infinite
  deriving DecidableEq

/-- The quotient rounded to the nearest integer, a tie to the even one. -/
def roundQuotient (num den : Nat) : Nat :=
  let quotient := num / den
  let rest := num % den
  if den < 2 * rest || (2 * rest == den && quotient % 2 == 1) then quotient + 1 else quotient

/-- The quotient `num / (den * 2 ^ q)` as a pair of naturals. -/
def scaled (num den : Nat) (q : Int) : Nat × Nat :=
  (num * Nat.pow 2 (-q).toNat, den * Nat.pow 2 q.toNat)

/-- The exponent of the last bit of `num / den` in a format: the one that leaves `precision` bits
before the point, but never less than the least exponent of the format. -/
def lastBit (format : Format) (num den : Nat) : Int :=
  let estimate : Int :=
    max format.minExponent ((num.log2 : Int) - den.log2 - format.precision)
  let (n, d) := scaled num den estimate
  if Nat.pow 2 format.precision ≤ n / d then estimate + 1 else estimate

/-- The number of a format nearest to `num / den`. -/
def Format.round (format : Format) (num den : Nat) : Rounded :=
  if num = 0 then .finite 0 format.minExponent
  else
    let q := lastBit format num den
    let (n, d) := scaled num den q
    let m := roundQuotient n d
    let (m, q) := if m = Nat.pow 2 format.precision then (m / 2, q + 1) else (m, q)
    if format.maxExponent < q then .infinite else .finite m q

/-- The bits of a double-precision magnitude. The exponent field counts from the least exponent,
and the leading bit of a normal significand carries into it. -/
def Rounded.toBinary64 (negative : Bool) : Rounded → Binary64
  | .finite m q => ofMagnitude negative ((q + 1074).toNat * Nat.pow 2 52 + m)
  | .infinite => infinity negative

/-- The double nearest to a quotient of naturals, with a sign. -/
def ofQuotient (negative : Bool) (num den : Nat) : Binary64 :=
  (Format.double.round num den).toBinary64 negative

def ofInt (v : Int) : Binary64 := ofQuotient (v < 0) v.natAbs 1

/-- A rounded magnitude of any format of at most double precision, as a double. -/
def Rounded.widen (negative : Bool) : Rounded → Binary64
  | .finite m q => ofQuotient negative (m * Nat.pow 2 q.toNat) (Nat.pow 2 (-q).toNat)
  | .infinite => infinity negative

/-- A finite number as an integer multiple of the least subnormal number. -/
def units (x : Binary64) : Int :=
  let magnitude : Int := x.significand * Nat.pow 2 (x.exponent + 1074).toNat
  if x.negative then -magnitude else magnitude

/-- The distance of two finite numbers, rounded; none if either is infinite or NaN. -/
def distance? (x y : Binary64) : Option Binary64 :=
  if x.isFinite && y.isFinite then
    some (ofQuotient false (x.units - y.units).natAbs (Nat.pow 2 1074))
  else none

/-- Two finite numbers whose rounded distance is below a positive bound. -/
def within (bound x y : Binary64) : Bool :=
  match distance? x y with
  | some d => d.bits < bound.bits
  | none => false

end Interpose.Binary64

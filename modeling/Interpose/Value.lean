import Interpose.Binary64.Rounding

/-!
Values that the host takes off its evaluation stack and hands to callbacks.
-/

set_option autoImplicit false
set_option relaxedAutoImplicit false

namespace Interpose

/-- A live object of the host: a handle, and the full name of the object's own type. -/
structure ObjectRef where
  handle : UInt64
  typeName : String
  deriving DecidableEq

/-- A value at run time. -/
inductive Value
  | null
  | bool (value : Bool)
  | int (value : Int64)
  | float (value : Binary64)
  | str (value : String)
  | object (object : ObjectRef)
  deriving DecidableEq

namespace Value

/-- Null, false and the zeros are false; all else is true, NaN included. -/
def isTruthy : Value → Bool
  | .null => false
  | .bool b => b
  | .int v => v != 0
  | .float v => !v.isZero
  | .str _ | .object _ => true

/-- A number as a double; integers are rounded. -/
def toBinary64? : Value → Option Binary64
  | .float v => some v
  | .int v => some (Binary64.ofInt v.toInt)
  | _ => none

/-- The object, if the value is one. -/
def object? : Value → Option ObjectRef
  | .object o => some o
  | _ => none

/-- Equality of values, with floating-point numbers compared by value. -/
def same : Value → Value → Bool
  | .float x, .float y => x.same y
  | a, b => a = b

end Value

end Interpose

import AspectWeaving.Remainder
import AspectWeaving.Value

/-!
Calculation on values. Both operands have to be of one type, and neither is converted. Integers wrap
around; their division is rounded toward zero, and division by zero is a fault. Floating-point numbers
never fault. `compareValues` gives no order where there is none: to a number that is not one, and
between references to different objects.
-/
namespace AspectWeaving

/-- The result of an operation on integers of 32 bits. -/
def Arithmetic.onInt32 (operation : Arithmetic) (x y : Int32) : Except ExecutionFault Int32 :=
  match operation with
  | .add => .ok (x + y)
  | .sub => .ok (x - y)
  | .mul => .ok (x * y)
  | .div => if y = 0 then .error .divisionByZero else .ok (x / y)
  | .rem => if y = 0 then .error .divisionByZero else .ok (x % y)

/-- The result of an operation on integers of 64 bits. -/
def Arithmetic.onInt64 (operation : Arithmetic) (x y : Int64) : Except ExecutionFault Int64 :=
  match operation with
  | .add => .ok (x + y)
  | .sub => .ok (x - y)
  | .mul => .ok (x * y)
  | .div => if y = 0 then .error .divisionByZero else .ok (x / y)
  | .rem => if y = 0 then .error .divisionByZero else .ok (x % y)

/-- The result of an operation on floating-point numbers. -/
def Arithmetic.onReal (operation : Arithmetic) (x y : Float) : Float :=
  match operation with
  | .add => x + y
  | .sub => x - y
  | .mul => x * y
  | .div => x / y
  | .rem => remainder x y

/-- The fault of two operands that do not go together. -/
def operandMismatch (a b : Value) : ExecutionFault := .stackTypeMismatch a.typeName b.typeName

/-- The result of an operation on two values. -/
def Arithmetic.onValues (operation : Arithmetic) (a b : Value) : Except ExecutionFault Value :=
  match a, b with
  | .int32 x, .int32 y => (operation.onInt32 x y).map .int32
  | .int64 x, .int64 y => (operation.onInt64 x y).map .int64
  | .real x, .real y => .ok (.real (operation.onReal x y))
  | a, b => .error (operandMismatch a b)

/-- The negative of a number. -/
def negateValue : Value → Except ExecutionFault Value
  | .int32 x => .ok (.int32 (-x))
  | .int64 x => .ok (.int64 (-x))
  | .real x => .ok (.real (-x))
  | other => .error (other.mismatch "number")

/-- The order of two floating-point numbers, if both are numbers. -/
def realOrder (x y : Float) : Option Ordering :=
  if x < y then some .lt
  else if x == y then some .eq
  else if y < x then some .gt
  else none

/-- References are equal or not ordered. -/
def referenceOrder (a b : Option HeapRef) : Option Ordering := if a = b then some .eq else none

/-- The order of two values. -/
def compareValues (a b : Value) : Except ExecutionFault (Option Ordering) :=
  match a, b with
  | .int32 x, .int32 y => .ok (some (compare x y))
  | .int64 x, .int64 y => .ok (some (compare x y))
  | .real x, .real y => .ok (realOrder x y)
  | .null, .null => .ok (referenceOrder none none)
  | .null, .ref r => .ok (referenceOrder none (some r))
  | .ref r, .null => .ok (referenceOrder (some r) none)
  | .ref r, .ref s => .ok (referenceOrder (some r) (some s))
  | a, b => .error (operandMismatch a b)

/-- A relation holds in an order. Values without an order are just not equal. -/
def Relation.holdsIn : Relation → Option Ordering → Bool
  | .equal, order => order == some .eq
  | .notEqual, order => order != some .eq
  | .less, order => order == some .lt
  | .lessOrEqual, order => order == some .lt || order == some .eq
  | .greater, order => order == some .gt
  | .greaterOrEqual, order => order == some .gt || order == some .eq

end AspectWeaving

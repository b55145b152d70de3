import AspectWeaving.Fault
import AspectWeaving.TypeSig

/-!
Values of the machine. Smaller integers are widened to 32 bits before they get onto the evaluation
stack, so there are integers of 32 and 64 bits, floating-point numbers, references to objects and the
handles of methods and types. `Value.initial` is what a slot of a type starts with.
-/
namespace AspectWeaving

/-- The name of an object of a heap; objects are numbered from 1. -/
structure HeapRef where
  id : Nat
  deriving DecidableEq

/-- A reference as text. -/
def HeapRef.text (r : HeapRef) : String := s!"HeapRef({r.id})"

/-- A value on the evaluation stack, in a slot or in an argument. -/
inductive Value where
  /-- The result of a method without a result. -/
  | void
  | int32 (value : Int32)
  | int64 (value : Int64)
  | real (value : Float)
  | null
  | ref (reference : HeapRef)
  | methodHandle (token : Token)
  | typeHandle (token : Token)
  deriving Inhabited

namespace Value

/-- What a slot of a type starts with. -/
def initial : TypeSig → Value
  | .int64 | .uint64 | .nativeInt | .nativeUInt => .int64 0
  | .float32 | .float64 => .real 0
  | .boolean | .char | .int8 | .uint8 | .int16 | .uint16 | .int32 | .uint32 => .int32 0
  | .void | .string | .object | .classType _ | .valueType _ | .array _ | .byRef _ => .null

/-- The name of the type of a value, as the machine tells types apart. -/
def typeName : Value → String
  | .void => "void"
  | .int32 _ => "int32"
  | .int64 _ => "int64"
  | .real _ => "float64"
  | .null => "null"
  | .ref _ => "object"
  | .methodHandle _ => "RuntimeMethodHandle"
  | .typeHandle _ => "RuntimeTypeHandle"

/-- The value refers to nothing. -/
def isNull : Value → Bool
  | .null => true
  | _ => false

/-- The reference to an object. -/
def ref? : Value → Option HeapRef
  | .ref reference => some reference
  | _ => none

/-- The fault of a value of the wrong type. -/
def mismatch (expected : String) (found : Value) : ExecutionFault :=
  .stackTypeMismatch expected found.typeName

/-- The integer of 32 bits. -/
def asInt32 : Value → Except ExecutionFault Int32
  | .int32 value => .ok value
  | other => .error (mismatch "int32" other)

/-- The truth of a number that is not zero or of a reference to an object. -/
def isTrue : Value → Except ExecutionFault Bool
  | .int32 value => .ok (value != 0)
  | .int64 value => .ok (value != 0)
  | .real value => .ok (value != 0)
  | .null => .ok false
  | .ref _ => .ok true
  | other => .error (mismatch "int32, int64 or object" other)

/-- The value as text. -/
def text : Value → String
  | .void => "void"
  | .int32 value => s!"{value.toInt}"
  | .int64 value => s!"{value.toInt}L"
  | .real value => realText value
  | .null => "null"
  | .ref reference => reference.text
  | .methodHandle token => "method " ++ token.text
  | .typeHandle token => "type " ++ token.text

end Value

end AspectWeaving

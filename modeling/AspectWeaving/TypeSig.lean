import AspectWeaving.TypeName

/-!
Type signatures: the types of parameters, local slots and results. They are the built-in types, types
named by a token, and arrays of and references to other types.
-/
namespace AspectWeaving

/-- The type of a parameter, a local slot or a result. -/
inductive TypeSig where
  | void
  | boolean
  | char
  | int8
  | uint8
  | int16
  | uint16
  | int32
  | uint32
  | int64
  | uint64
  | float32
  | float64
  | nativeInt
  | nativeUInt
  | string
  | object
  | classType (token : Token)
  | valueType (token : Token)
  | array (element : TypeSig)
  | byRef (element : TypeSig)
  deriving DecidableEq, Hashable, Inhabited

namespace TypeSig

/-- The assembly text. -/
def text : TypeSig → String
  | .void => "void"
  | .boolean => "bool"
  | .char => "char"
  | .int8 => "int8"
  | .uint8 => "uint8"
  | .int16 => "int16"
  | .uint16 => "uint16"
  | .int32 => "int32"
  | .uint32 => "uint32"
  | .int64 => "int64"
  | .uint64 => "uint64"
  | .float32 => "float32"
  | .float64 => "float64"
  | .nativeInt => "native int"
  | .nativeUInt => "native uint"
  | .string => "string"
  | .object => "object"
  | .classType token => "class " ++ token.text
  | .valueType token => "valuetype " ++ token.text
  | .array element => element.text ++ "[]"
  | .byRef element => element.text ++ "&"

/-- The built-in types. -/
def builtins : List TypeSig :=
  [.void, .boolean, .char, .int8, .uint8, .int16, .uint16, .int32, .uint32, .int64, .uint64, .float32,
    .float64, .nativeInt, .nativeUInt, .string, .object]

/-- The name within the namespace `System` of a built-in type. -/
def builtinBaseName? : TypeSig → Option String
  | .void => some "Void"
  | .boolean => some "Boolean"
  | .char => some "Char"
  | .int8 => some "SByte"
  | .uint8 => some "Byte"
  | .int16 => some "Int16"
  | .uint16 => some "UInt16"
  | .int32 => some "Int32"
  | .uint32 => some "UInt32"
  | .int64 => some "Int64"
  | .uint64 => some "UInt64"
  | .float32 => some "Single"
  | .float64 => some "Double"
  | .nativeInt => some "IntPtr"
  | .nativeUInt => some "UIntPtr"
  | .string => some "String"
  | .object => some "Object"
  | .classType _ | .valueType _ | .array _ | .byRef _ => none

/-- The name of a built-in type in the library. -/
def builtinName? (s : TypeSig) : Option TypeName := s.builtinBaseName?.map (⟨"System", ·⟩)

/-- The signature of a method without a result. -/
def isVoid (s : TypeSig) : Bool := s == .void

/-- Values of the type are boxed when they are stored as objects. -/
def isValueType : TypeSig → Bool
  | .boolean | .char | .int8 | .uint8 | .int16 | .uint16 | .int32 | .uint32 | .int64 | .uint64
  | .float32 | .float64 | .nativeInt | .nativeUInt | .valueType _ => true
  | .void | .string | .object | .classType _ | .array _ | .byRef _ => false

/-- The type a reference refers to. -/
def byRefElement? : TypeSig → Option TypeSig
  | .byRef element => some element
  | _ => none

end TypeSig

end AspectWeaving

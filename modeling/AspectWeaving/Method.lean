import AspectWeaving.Body

/-!
Methods: name, access, modifiers, parameters, result, body and attributes. Access and modifiers are
packed into one word of flags, of which the low three bits are the access; `Access.ofFlags` and
`Modifiers.ofFlags` take the word apart. A method takes its object as argument 0 unless it is static.
-/
namespace AspectWeaving

/-- Who may use a method. -/
inductive Access where
  | compilerControlled
  | ownType
  | familyAndAssembly
  | assembly
  | family
  | familyOrAssembly
  | anyone
  /-- The value without a meaning. -/
  | reserved
  deriving DecidableEq

namespace Access

/-- The value of an access. -/
def bits : Access → Nat
  | .compilerControlled => 0
  | .ownType => 1
  | .familyAndAssembly => 2
  | .assembly => 3
  | .family => 4
  | .familyOrAssembly => 5
  | .anyone => 6
  | .reserved => 7

/-- The name of an access, if it has a meaning. -/
def name? : Access → Option String
  | .compilerControlled => some "COMPILER_CONTROLLED"
  | .ownType => some "PRIVATE"
  | .familyAndAssembly => some "FAM_AND_ASSEM"
  | .assembly => some "ASSEM"
  | .family => some "FAMILY"
  | .familyOrAssembly => some "FAM_OR_ASSEM"
  | .anyone => some "PUBLIC"
  | .reserved => none

/-- The access in the low three bits of a word of flags. -/
def ofFlags (flags : Nat) : Access :=
  match flags % 8 with
  | 0 => .compilerControlled
  | 1 => .ownType
  | 2 => .familyAndAssembly
  | 3 => .assembly
  | 4 => .family
  | 5 => .familyOrAssembly
  | 6 => .anyone
  | _ => .reserved

end Access

/-- The bit at a place where the flag is set. -/
def flagBit (flag : Bool) (place : Nat) : Nat := if flag then 1 <<< place else 0

/-- What else is known of a method. -/
structure Modifiers where
  isStatic : Bool := false
  isFinal : Bool := false
  isVirtual : Bool := false
  hidesBySig : Bool := false
  isAbstract : Bool := false
  isSpecialName : Bool := false
  isRuntimeSpecialName : Bool := false
  deriving DecidableEq, Inhabited

namespace Modifiers

/-- The modifiers in a word of flags. -/
def ofFlags (flags : Nat) : Modifiers where
  isStatic := flags.testBit 4
  isFinal := flags.testBit 5
  isVirtual := flags.testBit 6
  hidesBySig := flags.testBit 7
  isAbstract := flags.testBit 10
  isSpecialName := flags.testBit 11
  isRuntimeSpecialName := flags.testBit 12

/-- The bits of the modifiers. -/
def bits (m : Modifiers) : Nat :=
  flagBit m.isStatic 4 + flagBit m.isFinal 5 + flagBit m.isVirtual 6 + flagBit m.hidesBySig 7 +
    flagBit m.isAbstract 10 + flagBit m.isSpecialName 11 + flagBit m.isRuntimeSpecialName 12

/-- The names of the modifiers a method has. -/
def names (m : Modifiers) : List String :=
  namesOfSet [(m.isStatic, "STATIC"), (m.isFinal, "FINAL"), (m.isVirtual, "VIRTUAL"),
    (m.hidesBySig, "HIDE_BY_SIG"), (m.isAbstract, "ABSTRACT"), (m.isSpecialName, "SPECIAL_NAME"),
    (m.isRuntimeSpecialName, "RTSPECIAL_NAME")]

end Modifiers

/-- A declared parameter. -/
structure Parameter where
  name : String
  sig : TypeSig

/-- The arguments and the result of a method. -/
structure Signature where
  /-- The object comes before the declared parameters. -/
  hasThis : Bool
  parameters : List Parameter
  result : TypeSig

namespace Signature

/-- The place of a declared parameter among the arguments. -/
def argumentIndex (s : Signature) (parameter : Nat) : Nat := parameter + s.hasThis.toNat

/-- The number of arguments, the object included. -/
def argumentCount (s : Signature) : Nat := s.argumentIndex s.parameters.length

end Signature

/-- An argument of the constructor of an attribute. -/
inductive AttributeArgument where
  | boolean (value : Bool)
  | int32 (value : Int32)
  | int64 (value : Int64)
  | real (value : Float)
  | string (value : String)

/-- An attribute on a method: a type, and the arguments to construct it with. -/
structure Attribute where
  type : Token
  arguments : List AttributeArgument := []

/-- A method. -/
structure Method where
  name : String
  access : Access := .anyone
  modifiers : Modifiers := {}
  parameters : List Parameter := []
  result : TypeSig := .void
  body : Option Body := none
  attributes : List Attribute := []
  deriving Inhabited

/-- The name of constructors. -/
def constructorName : String := ".ctor"

namespace Method

/-- A method of a signature. Whether it takes an object is up to the modifiers, not to the signature. -/
def declare (name : String) (access : Access) (modifiers : Modifiers) (s : Signature) : Method where
  name := name
  access := access
  modifiers := modifiers
  parameters := s.parameters
  result := s.result

/-- A method takes an object unless it is static. -/
def hasThis (m : Method) : Bool := !m.modifiers.isStatic

/-- The signature of a method. -/
def signature (m : Method) : Signature := ⟨m.hasThis, m.parameters, m.result⟩

/-- A method that initializes a new object. -/
def isConstructor (m : Method) : Bool := m.name == constructorName && !m.modifiers.isStatic

end Method

/-- A method of a module, with its token. -/
structure MethodDef extends Method where
  token : Token
  deriving Inhabited

end AspectWeaving

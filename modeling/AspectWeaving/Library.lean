import AspectWeaving.Chain
import AspectWeaving.TypeName

/-!
The library a module is compiled against: the types that are there besides those of the module, with
their bases and methods. `Library.standard` is the part of the base classes that woven code and the
machine rely on.
-/
namespace AspectWeaving

/-! ### Names with a meaning of their own -/

namespace WellKnown

/-- The root of all types. -/
def object : TypeName := ⟨"System", "Object"⟩
/-- The base of all value types. -/
def valueType : TypeName := ⟨"System", "ValueType"⟩
/-- Texts. -/
def string : TypeName := ⟨"System", "String"⟩
/-- Truth values. -/
def boolean : TypeName := ⟨"System", "Boolean"⟩
/-- The base of all exceptions. -/
def exception : TypeName := ⟨"System", "Exception"⟩
/-- The base of the exceptions the machine raises. -/
def systemException : TypeName := ⟨"System", "SystemException"⟩
/-- The base of all attributes. -/
def attributeBase : TypeName := ⟨"System", "Attribute"⟩
/-- Objects that describe a type. -/
def type : TypeName := ⟨"System", "Type"⟩
/-- Handles of types. -/
def typeHandle : TypeName := ⟨"System", "RuntimeTypeHandle"⟩
/-- Handles of methods. -/
def methodHandle : TypeName := ⟨"System", "RuntimeMethodHandle"⟩
/-- The base of objects that describe a type or a method. -/
def memberInfo : TypeName := ⟨"System.Reflection", "MemberInfo"⟩
/-- The base of objects that describe a method. -/
def methodBase : TypeName := ⟨"System.Reflection", "MethodBase"⟩
/-- Arrays of objects. -/
def objectArray : TypeName := object.arrayOf
/-- The base of all decorators. -/
def decoratorAttribute : TypeName := ⟨"MethodDecorator.Attributes", "DecoratorAttribute"⟩

end WellKnown

/-! ### Library types -/

/-- A method of a library type. -/
structure LibraryMethod where
  name : String
  parameters : List TypeName
  hasThis : Bool := true
  isVirtual : Bool := false
  deriving DecidableEq

/-- A type of the library. -/
structure LibraryType where
  name : TypeName
  base : Option TypeName
  isValueType : Bool := false
  isAbstract : Bool := false
  methods : List LibraryMethod := []
  deriving DecidableEq

/-- A value type: its base is the base of all value types. -/
def LibraryType.valueType (name : TypeName) : LibraryType :=
  { name, base := some WellKnown.valueType, isValueType := true }

/-- A set of types with different names. -/
structure Library where
  types : List LibraryType := []
  deriving DecidableEq, Inhabited

namespace Library

/-- The type of a name. -/
def get? (l : Library) (name : TypeName) : Option LibraryType := l.types.find? (·.name == name)

/-- There is a type of the name. -/
def contains (l : Library) (name : TypeName) : Bool := (l.get? name).isSome

/-- Adds a type, in the place of the one of its name if there is one. -/
def add (l : Library) (t : LibraryType) : Library :=
  if l.contains t.name then ⟨l.types.map fun old => if old.name = t.name then t else old⟩
  else ⟨l.types ++ [t]⟩

/-- The base of a type, if the library has it. -/
def baseType? (l : Library) (t : LibraryType) : Option LibraryType := t.base.bind l.get?

/-- A type and its bases. -/
def baseChain (l : Library) (name : TypeName) : List LibraryType :=
  chain l.baseType? l.types.length (l.get? name)

/-- A type is an ancestor or has it among its bases. -/
def derivesFrom (l : Library) (name ancestor : TypeName) : Bool :=
  (l.baseChain name).any (·.name == ancestor)

end Library

end AspectWeaving

import AspectWeaving.Heap
import AspectWeaving.Naming

/-!
Inheritance of objects: which types an object is of. The types of an object are its own type and the
bases of that, within the module and then in the library (`typeNames`); an object is an instance of a
type whose name is among them (`isInstance`). An exception is always of the type of all exceptions.
-/
namespace AspectWeaving

/-- The base of a type, if it is written and in the module. -/
def Module.ownBase? (m : Module) (t : TypeDef) : Option TypeDef :=
  match t.base with
  | some (.definition base) => m.typeDef? base
  | _ => none

/-- A type and its bases within the module. -/
def Module.definitionChain (m : Module) (type : Token) : List TypeDef :=
  chain m.ownBase? (m.types.length + 1) (m.typeDef? type)

/-- The library type at which the bases of a type leave the module. -/
def Module.outerBase? (m : Module) (type : Token) : Option TypeName :=
  (m.definitionChain type).getLast?.bind fun t => t.baseLocator.external?

/-- The names of a library type and its bases; of a type the library lacks, its own name and the root. -/
def Library.typeNames (l : Library) (name : String) : List String :=
  match l.baseChain (.parse name) with
  | [] => [name, WellKnown.object.fullName]
  | types => types.map (·.name.fullName)

/-- The names with that of the type of all exceptions in second place, if they lack it. -/
def withException (names : List String) : List String :=
  if names.contains WellKnown.exception.fullName then names
  else names.take 1 ++ WellKnown.exception.fullName :: names.drop 1

/-- The names of a type of the module and its bases. -/
def Module.typeNames (m : Module) (type : Token) : List String :=
  (m.definitionChain type).map (·.fullName) ++
    match m.outerBase? type with
    | some base => m.library.typeNames base.fullName
    | none => []

/-- The names of the types of an object, its own type first. -/
def HeapObject.typeNames (m : Module) : HeapObject → List String
  | .exception typeName _ => withException (m.library.typeNames typeName)
  | .instance token => m.typeNames token
  | .string _ => [WellKnown.string.fullName, WellKnown.object.fullName]
  | .type _ => [WellKnown.type.fullName, WellKnown.memberInfo.fullName, WellKnown.object.fullName]
  | .method _ => [WellKnown.methodBase.fullName, WellKnown.memberInfo.fullName, WellKnown.object.fullName]
  | .boxed _ | .array _ => [WellKnown.object.fullName]

/-- The object of a reference is of the type of a token. A token without a name is of no object. -/
def isInstance (m : Module) (h : Heap) (r : HeapRef) (type : Token) : Except ExecutionFault Bool := do
  match ← m.naming type with
  | none => return false
  | some name => (h.get r).map fun object => (object.typeNames m).contains name

/-- Objects of types of the module and exceptions are checked by casts, all others pass. -/
def HeapObject.isChecked : HeapObject → Bool
  | .instance _ | .exception _ _ => true
  | .boxed _ | .array _ | .string _ | .method _ | .type _ => false

/-- The object of a reference may be taken for one of the type of a token. -/
def checkCast (m : Module) (h : Heap) (r : HeapRef) (type : Token) : Except ExecutionFault Unit := do
  let object ← h.get r
  if object.isChecked && !(← isInstance m h r type) then
    throw (.invalidCast ((m.tokenName? type).getD "") ((object.typeNames m).headD ""))

/-- The type of the exceptions of a name is known to the library. -/
def Library.isException (l : Library) (name : String) : Bool :=
  l.derivesFrom (.parse name) WellKnown.exception

end AspectWeaving

import AspectWeaving.Imports
import AspectWeaving.Library
import AspectWeaving.Method

/-!
Modules: the types a program defines, with their methods, the rows it imports and the library it is
compiled against. Types may be declared inside types. A declaration (`TypeDecl`) becomes rows of the
module (`Module.addType`, `Module.addNested?`, `Module.addMethod?`), which number its types and
methods on: first a type, then its methods, then the types inside it. `Module.types` lists every type
once, a type before those inside it.
-/
namespace AspectWeaving

/-- What is known of a type besides its members. -/
structure TypeFlags where
  isPublic : Bool := false
  isNestedPublic : Bool := false
  isInterface : Bool := false
  isAbstract : Bool := false
  isSealed : Bool := false
  deriving DecidableEq, Inhabited

namespace TypeFlags

/-- The flags in a word. -/
def ofBits (bits : Nat) : TypeFlags where
  isPublic := bits.testBit 0
  isNestedPublic := bits.testBit 1
  isInterface := bits.testBit 5
  isAbstract := bits.testBit 7
  isSealed := bits.testBit 8

/-- The bits of the flags. -/
def bits (f : TypeFlags) : Nat :=
  flagBit f.isPublic 0 + flagBit f.isNestedPublic 1 + flagBit f.isInterface 5 + flagBit f.isAbstract 7 +
    flagBit f.isSealed 8

/-- The names of the flags that are set. -/
def names (f : TypeFlags) : List String :=
  namesOfSet [(f.isPublic, "PUBLIC"), (f.isNestedPublic, "NESTED_PUBLIC"), (f.isInterface, "INTERFACE"),
    (f.isAbstract, "ABSTRACT"), (f.isSealed, "SEALED")]

end TypeFlags

/-- A type to be added to a module, with the types inside it. -/
structure TypeDecl where
  name : TypeName
  flags : TypeFlags := { isPublic := true }
  base : Option TypeLocator := none
  methods : List Method := []
  nested : List TypeDecl := []

/-- A type around another one. -/
structure EnclosingType where
  token : Token
  name : TypeName
  deriving DecidableEq

/-- A type of a module. -/
structure TypeDef where
  token : Token
  name : TypeName
  flags : TypeFlags
  /-- The base as it is written; see `TypeDef.baseLocator`. -/
  base : Option TypeLocator
  methods : List MethodDef
  /-- The types around it, from the inside out. -/
  enclosing : List EnclosingType
  deriving Inhabited

/-- The full name of a type inside others: the outermost with its namespace, then the bare names. -/
def nestedName : List TypeName → TypeName → String
  | [], name => name.fullName
  | outer :: rest, name => nestedName rest outer ++ "/" ++ name.name

namespace TypeDef

/-- The full name. -/
def fullName (t : TypeDef) : String := nestedName (t.enclosing.map (·.name)) t.name

/-- A type stands inside another one, at any depth. -/
def isWithin (t : TypeDef) (outer : Token) : Bool := t.enclosing.any (·.token == outer)

/-- The base, which is the root of all types where none is written. -/
def baseLocator (t : TypeDef) : TypeLocator := t.base.getD (.external WellKnown.object)

/-- The method of a token. -/
def method? (t : TypeDef) (token : Token) : Option MethodDef := t.methods.find? (·.token == token)

/-- A type has a method of a token. -/
def declares (t : TypeDef) (token : Token) : Bool := t.methods.any (·.token == token)

/-- The last method of a token. -/
def lastMethod? (t : TypeDef) (token : Token) : Option MethodDef := t.methods.reverse.find? (·.token == token)

end TypeDef

/-- The rows of definitions that are taken. -/
structure RowCounts where
  types : Nat := 0
  methods : Nat := 0
  deriving DecidableEq

/-- Methods with their tokens, in the rows after `taken`. -/
def numberMethods (taken : Nat) (methods : List Method) : List MethodDef :=
  methods.zipIdx.map fun (m, index) => { m with token := .ofParts Token.methodDef (taken + index + 1) }

mutual

/-- The types of a declaration in the rows after those taken, and the rows taken after them. -/
def TypeDecl.define (enclosing : List EnclosingType) (taken : RowCounts) :
    TypeDecl → List TypeDef × RowCounts
  | ⟨name, flags, base, methods, nested⟩ =>
    let token := Token.ofParts Token.typeDef (taken.types + 1)
    let own : TypeDef :=
      { token, name, flags, base, enclosing, methods := numberMethods taken.methods methods }
    let (inner, after) :=
      defineAll (⟨token, name⟩ :: enclosing) ⟨taken.types + 1, taken.methods + methods.length⟩ nested
    (own :: inner, after)

/-- The types of some declarations, one after another. -/
def defineAll (enclosing : List EnclosingType) (taken : RowCounts) :
    List TypeDecl → List TypeDef × RowCounts
  | [] => ([], taken)
  | decl :: rest =>
    let (first, middle) := decl.define enclosing taken
    let (others, after) := defineAll enclosing middle rest
    (first ++ others, after)

end

/-- Types put behind a type and all types inside it. -/
def placeInside (outer : Token) (added : List TypeDef) : List TypeDef → List TypeDef
  | [] => []
  | t :: rest =>
    if t.token = outer then
      t :: rest.takeWhile (·.isWithin outer) ++ added ++ rest.dropWhile (·.isWithin outer)
    else t :: placeInside outer added rest

/-- Replaces the first item that meets a condition by a function of it. -/
def modifyFirst {α : Type} (p : α → Bool) (f : α → α) : List α → List α
  | [] => []
  | a :: rest => if p a then f a :: rest else a :: modifyFirst p f rest

/-- Replaces the last item that meets a condition by a function of it. -/
def modifyLast {α : Type} (p : α → Bool) (f : α → α) (l : List α) : List α :=
  (modifyFirst p f l.reverse).reverse

/-- A program. -/
structure Module where
  name : String
  library : Library
  types : List TypeDef := []
  taken : RowCounts := {}
  imports : ImportTable := {}
  deriving Inhabited

namespace Module

/-- The type of a token. -/
def typeDef? (m : Module) (token : Token) : Option TypeDef := m.types.find? (·.token == token)

/-- The method of a token, with the type that declares it. -/
def method? (m : Module) (token : Token) : Option (TypeDef × MethodDef) :=
  m.types.findSome? fun t => (t.method? token).map (t, ·)

/-- The last method of a token: where methods share one, it is the one that is woven. -/
def lastMethod? (m : Module) (token : Token) : Option MethodDef :=
  (m.types.reverse.find? (·.declares token)).bind (·.lastMethod? token)

/-- The first method of a type with a name. -/
def findMethod? (m : Module) (owner : Token) (name : String) : Option Token := do
  let found ← (← m.typeDef? owner).methods.find? (·.name == name)
  return found.token

/-- The first type with a full name. -/
def findType? (m : Module) (fullName : String) : Option TypeDef := m.types.find? (·.fullName == fullName)

/-- The full name of the type of a token. -/
def typeFullName? (m : Module) (token : Token) : Option String := (m.typeDef? token).map (·.fullName)

/-- The name of a method behind the full name of its type. -/
def methodFullName? (m : Module) (token : Token) : Option String :=
  (m.method? token).map fun (t, method) => t.fullName ++ "::" ++ method.name

/-- The types that stand inside no other. -/
def outermost (m : Module) : List TypeDef := m.types.filter (·.enclosing.isEmpty)

/-- Adds a type, and gives its token. -/
def addType (m : Module) (decl : TypeDecl) : Module × Token :=
  let (added, taken) := decl.define [] m.taken
  ({ m with types := m.types ++ added, taken }, .ofParts Token.typeDef (m.taken.types + 1))

/-- Adds a type inside another one, and gives its token. -/
def addNested? (m : Module) (outer : Token) (decl : TypeDecl) : Except Fault (Module × Token) :=
  match m.typeDef? outer with
  | none => .error (.typeNotFound outer.text)
  | some t =>
    let (added, taken) := decl.define (⟨t.token, t.name⟩ :: t.enclosing) m.taken
    .ok ({ m with types := placeInside outer added m.types, taken },
      .ofParts Token.typeDef (m.taken.types + 1))

/-- Replaces the type of a token by a function of it. -/
def modifyType (m : Module) (token : Token) (f : TypeDef → TypeDef) : Module :=
  { m with types := m.types.map fun t => if t.token = token then f t else t }

/-- Replaces the method of a token by a function of it. -/
def modifyMethod (m : Module) (token : Token) (f : MethodDef → MethodDef) : Module :=
  { m with
    types := modifyFirst (·.declares token)
      (fun t => { t with methods := modifyFirst (·.token == token) f t.methods }) m.types }

/-- Replaces the last method of a token by a function of it. -/
def modifyLastMethod (m : Module) (token : Token) (f : MethodDef → MethodDef) : Module :=
  { m with
    types := modifyLast (·.declares token)
      (fun t => { t with methods := modifyLast (·.token == token) f t.methods }) m.types }

/-- Adds a method to a type, and gives its token. -/
def addMethod? (m : Module) (owner : Token) (method : Method) : Except Fault (Module × Token) :=
  match m.typeDef? owner with
  | none => .error (.typeNotFound owner.text)
  | some _ =>
    let token := Token.ofParts Token.methodDef (m.taken.methods + 1)
    let counted := { m with taken := { m.taken with methods := m.taken.methods + 1 } }
    .ok (counted.modifyType owner fun t => { t with methods := t.methods ++ [{ method with token }] }, token)

end Module

end AspectWeaving

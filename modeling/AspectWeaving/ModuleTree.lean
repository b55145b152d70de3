import AspectWeaving.Interning
import AspectWeaving.Module

/-!
Modules as trees. Types are declared inside types, and each is found by a search that comes to a type before those inside it, and to
those before the types behind it. An addition gives a declaration the next rows and puts it into the tree where it belongs; an addition
to a type that is not there is refused. In `ModuleTree.flat` all types stand in one list, each with the types around it.
-/
namespace AspectWeaving

/-- A type of a module, with the types inside it. -/
structure TypeTree where
  token : Token
  name : TypeName
  flags : TypeFlags
  base : Option TypeLocator
  methods : List MethodDef
  nested : List TypeTree

/-- The method of a token. -/
def TypeTree.method? (t : TypeTree) (token : Token) : Option MethodDef := t.methods.find? (·.token == token)

/-- The base, which is the root of all types where none is written. -/
def TypeTree.baseLocator (t : TypeTree) : TypeLocator := t.base.getD (.external WellKnown.object)

mutual

/-- The tree of a declaration in the rows after those taken, and the rows taken after it. -/
def TypeDecl.number (taken : RowCounts) : TypeDecl → TypeTree × RowCounts
  | ⟨name, flags, base, methods, nested⟩ =>
    let (inner, after) := numberAll ⟨taken.types + 1, taken.methods + methods.length⟩ nested
    (⟨.ofParts Token.typeDef (taken.types + 1), name, flags, base, numberMethods taken.methods methods, inner⟩, after)

/-- The trees of some declarations, one after another. -/
def numberAll (taken : RowCounts) : List TypeDecl → List TypeTree × RowCounts
  | [] => ([], taken)
  | decl :: rest =>
    let (first, middle) := decl.number taken
    let (others, after) := numberAll middle rest
    (first :: others, after)

end

mutual

/-- The types of a tree, a type before those inside it. -/
def TypeTree.all : TypeTree → List TypeTree
  | t@⟨_, _, _, _, _, nested⟩ => t :: allTypes nested

/-- The types of some trees, one tree after another. -/
def allTypes : List TypeTree → List TypeTree
  | [] => []
  | t :: rest => t.all ++ allTypes rest

end

mutual

/-- The first type of a tree with a token. -/
def TypeTree.find? (token : Token) : TypeTree → Option TypeTree
  | t@⟨own, _, _, _, _, nested⟩ => if own = token then some t else findAmong? token nested

/-- The first type of some trees with a token. -/
def findAmong? (token : Token) : List TypeTree → Option TypeTree
  | [] => none
  | t :: rest => (t.find? token).or (findAmong? token rest)

end

mutual

/-- The full name of the first type of a tree with a token, given that of the type around the tree. -/
def TypeTree.fullName? (token : Token) (outer : Option String) : TypeTree → Option String
  | ⟨own, name, _, _, _, nested⟩ =>
    let fullName := outer.elim name.fullName (· ++ "/" ++ name.name)
    if own = token then some fullName else fullNameAmong? token fullName nested

/-- The full name of the first type of some trees with a token. -/
def fullNameAmong? (token : Token) (outer : Option String) : List TypeTree → Option String
  | [] => none
  | t :: rest => (t.fullName? token outer).or (fullNameAmong? token outer rest)

end

mutual

/-- A tree in which the first type that can be changed is changed. -/
def TypeTree.changeFirst? (change? : TypeTree → Option TypeTree) : TypeTree → Option TypeTree
  | t@⟨token, name, flags, base, methods, nested⟩ =>
    (change? t).or ((changeFirstAmong? change? nested).map fun nested => ⟨token, name, flags, base, methods, nested⟩)

/-- Trees in which the first type that can be changed is changed. -/
def changeFirstAmong? (change? : TypeTree → Option TypeTree) : List TypeTree → Option (List TypeTree)
  | [] => none
  | t :: rest =>
    match t.changeFirst? change? with
    | some changed => some (changed :: rest)
    | none => (changeFirstAmong? change? rest).map (t :: ·)

end

mutual

/-- The types of a tree in one list, each with the types around it. -/
def TypeTree.defs (enclosing : List EnclosingType) : TypeTree → List TypeDef
  | ⟨token, name, flags, base, methods, nested⟩ =>
    ⟨token, name, flags, base, methods, enclosing⟩ :: defsAll (⟨token, name⟩ :: enclosing) nested

/-- The types of some trees in one list. -/
def defsAll (enclosing : List EnclosingType) : List TypeTree → List TypeDef
  | [] => []
  | t :: rest => t.defs enclosing ++ defsAll enclosing rest

end

/-- The trees of types that stand in one list, each behind the types around it. -/
def treesOf : List TypeDef → List TypeTree
  | [] => []
  | t :: rest =>
    ⟨t.token, t.name, t.flags, t.base, t.methods, treesOf (rest.takeWhile (·.isWithin t.token))⟩ ::
      treesOf (rest.dropWhile (·.isWithin t.token))
termination_by types => types.length
decreasing_by
  · exact Nat.lt_succ_of_le (List.takeWhile_sublist _).length_le
  · exact Nat.lt_succ_of_le (List.dropWhile_sublist _).length_le

/-- A program whose types stand in trees. -/
structure ModuleTree where
  name : String
  library : Library
  trees : List TypeTree := []
  taken : RowCounts := {}
  imports : ImportTable := {}

namespace ModuleTree

/-- The module with all types in one list. -/
def flat (m : ModuleTree) : Module := ⟨m.name, m.library, defsAll [] m.trees, m.taken, m.imports⟩

/-- The trees of a module. -/
def ofModule (m : Module) : ModuleTree := ⟨m.name, m.library, treesOf m.types, m.taken, m.imports⟩

/-- Every type, before those inside it. -/
def all (m : ModuleTree) : List TypeTree := allTypes m.trees

/-- The type of a token. -/
def typeDef? (m : ModuleTree) (token : Token) : Option TypeTree := findAmong? token m.trees

/-- The method of a token, with the type that declares it. -/
def method? (m : ModuleTree) (token : Token) : Option (TypeTree × MethodDef) :=
  m.all.findSome? fun t => (t.method? token).map (t, ·)

/-- The first method of a type with a name. -/
def findMethod? (m : ModuleTree) (owner : Token) (name : String) : Option Token := do
  let found ← (← m.typeDef? owner).methods.find? (·.name == name)
  return found.token

/-- The full name of the type of a token. -/
def typeFullName? (m : ModuleTree) (token : Token) : Option String := fullNameAmong? token none m.trees

/-- The first type with a full name. -/
def findType? (m : ModuleTree) (fullName : String) : Option TypeTree :=
  m.all.find? fun t => m.typeFullName? t.token == some fullName

/-- The name of a method behind the full name of its type. -/
def methodFullName? (m : ModuleTree) (token : Token) : Option String := do
  let (t, method) ← m.method? token
  return (← m.typeFullName? t.token) ++ "::" ++ method.name

/-- Replaces the type of a token by a function of it, if it is there. -/
def changeType? (m : ModuleTree) (token : Token) (f : TypeTree → TypeTree) : Option ModuleTree :=
  (changeFirstAmong? (fun t => if t.token = token then some (f t) else none) m.trees).map fun trees => { m with trees }

/-- Replaces the method of a token by a function of it, if it is there. -/
def changeMethod? (m : ModuleTree) (token : Token) (f : MethodDef → MethodDef) : Option ModuleTree :=
  let change? (t : TypeTree) : Option TypeTree :=
    if t.methods.any (·.token == token) then some { t with methods := modifyFirst (·.token == token) f t.methods } else none
  (changeFirstAmong? change? m.trees).map fun trees => { m with trees }

/-- Adds a type, and gives its token. -/
def addType (m : ModuleTree) (decl : TypeDecl) : ModuleTree × Token :=
  let (t, taken) := decl.number m.taken
  ({ m with trees := m.trees ++ [t], taken }, t.token)

/-- Adds a type inside another one, and gives its token. -/
def addNested (m : ModuleTree) (outer : Token) (decl : TypeDecl) : ModuleTree × Except Fault Token :=
  match m.typeDef? outer with
  | none => (m, .error (.typeNotFound outer.text))
  | some _ =>
    let (t, taken) := decl.number m.taken
    let counted := { m with taken }
    ((counted.changeType? outer fun o => { o with nested := o.nested ++ [t] }).getD counted, .ok t.token)

/-- Adds a method to a type, and gives its token. -/
def addMethod (m : ModuleTree) (owner : Token) (method : Method) : ModuleTree × Except Fault Token :=
  match m.typeDef? owner with
  | none => (m, .error (.typeNotFound owner.text))
  | some _ =>
    let taken := { m.taken with methods := m.taken.methods + 1 }
    let d : MethodDef := { method with token := .ofParts Token.methodDef taken.methods }
    let counted := { m with taken }
    ((counted.changeType? owner fun o => { o with methods := o.methods ++ [d] }).getD counted, .ok d.token)

end ModuleTree

/-- A type or a method that is added to a module. -/
inductive Addition
  | type (decl : TypeDecl)
  | nested (outer : Token) (decl : TypeDecl)
  | method (owner : Token) (method : Method)

/-- Adds a type or a method, and gives its token. -/
def ModuleTree.add (m : ModuleTree) : Addition → ModuleTree × Except Fault Token
  | .type decl => (m.addType decl).map id .ok
  | .nested outer decl => m.addNested outer decl
  | .method owner method => m.addMethod owner method

end AspectWeaving

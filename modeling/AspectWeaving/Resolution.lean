import AspectWeaving.Definitions
import AspectWeaving.Fault

/-!
Resolution: from a description of a type or a method to a token that the code of a module can use. A
type or method of the module has its own token; one of the library is imported, which adds rows to
the import table where they are missing (`Resolver.resolveType`, `Resolver.resolveMethod`,
`Resolver.importType`). A method is looked for in a type and its bases, the nearest first.
-/
namespace AspectWeaving

/-- A description of a method: its name, and its parameters as far as they matter. -/
structure MethodQuery where
  name : String
  count : Option Nat := none
  /-- The names of the parameter types; none are asked for where the list is empty. -/
  types : List String := []
  deriving DecidableEq

namespace MethodQuery

/-- Asks for a number of parameters. -/
def withCount (q : MethodQuery) (count : Nat) : MethodQuery := { q with count := some count }

/-- Asks for types of the parameters, and so for their number. -/
def withTypes (q : MethodQuery) (types : List String) : MethodQuery :=
  { q with count := some types.length, types }

/-- A method of a name and of types of parameters is one that is asked for. -/
def accepts (q : MethodQuery) (name : String) (parameters : List (Option String)) : Bool :=
  name == q.name && q.count.all (· == parameters.length) &&
    (q.types.zip parameters).all fun (asked, actual) => actual == some asked

/-- A method of the module is one that is asked for. -/
def acceptsEntry (q : MethodQuery) (m : MethodEntry) : Bool := q.accepts m.name m.parameters

/-- A method of the library is one that is asked for. -/
def acceptsLibrary (q : MethodQuery) (m : LibraryMethod) : Bool :=
  q.accepts m.name (m.parameters.map fun t => some t.fullName)

/-- The description as text. -/
def text (q : MethodQuery) : String :=
  if q.types.isEmpty then
    match q.count with
    | some count => s!"{q.name}/{count}"
    | none => q.name
  else q.name ++ "(" ++ ", ".intercalate q.types ++ ")"

end MethodQuery

/-- Where names are looked for. -/
structure Resolver where
  library : Library
  definitions : Definitions

/-- A computation that may import rows and may fail; rows imported before a failure stay. -/
abbrev Importing := EStateM Fault ImportTable

/-- A step that imports a row. -/
def importing {α : Type} (step : ImportTable → ImportTable × α) : Importing α :=
  modifyGet fun t =>
    let (t, result) := step t
    (result, t)

namespace Resolver

/-- The resolver of a module that does not change meanwhile. -/
def ofModule (m : Module) : Resolver := ⟨m.library, .ofModule m⟩

/-- The name of a type, or the token of a type that is not there. -/
def describe (r : Resolver) : TypeLocator → String
  | .definition token =>
    match r.definitions.get? token with
    | some e => e.fullName
    | none => token.text
  | .external name => name.fullName

/-- The name of a method of the module or of an imported one. -/
def methodName? (r : Resolver) (imports : ImportTable) (token : Token) : Option String :=
  if token.table = Token.methodDef then (r.definitions.method? token).map (·.name)
  else if token.table = Token.memberRef then (imports.getMemberRef? token).map (·.name)
  else none

/-- The token of a type. -/
def resolveType (r : Resolver) (locator : TypeLocator) : Importing Token :=
  match locator with
  | .definition token =>
    if (r.definitions.get? token).isSome then pure token else throw (.typeNotFound (r.describe locator))
  | .external name =>
    if r.library.contains name then importing (·.typeRef name) else throw (.typeNotFound (r.describe locator))

/-- The method of the library that is asked for, with the type that declares it. -/
def findLibraryMethod? (r : Resolver) (host : TypeName) (q : MethodQuery) :
    Option (LibraryType × LibraryMethod) :=
  (r.library.baseChain host).findSome? fun t => (t.methods.find? q.acceptsLibrary).map (t, ·)

/-- The method of the module that is asked for. -/
def findOwnMethod? (r : Resolver) (host : Token) (q : MethodQuery) : Option MethodEntry :=
  (r.definitions.baseChain host).findSome? fun e => e.methods.find? q.acceptsEntry

/-- Imports a method of the library, with the type that declares it. -/
def importMethod (found : LibraryType × LibraryMethod) : Importing Token := do
  let parent ← importing (·.typeRef found.1.name)
  importing (·.memberRef
    { parent, name := found.2.name, parameters := found.2.parameters, hasThis := found.2.hasThis })

/-- Imports the method of the library that is asked for. -/
def resolveLibraryMethod (r : Resolver) (origin : TypeLocator) (host : TypeName) (q : MethodQuery) :
    Importing Token :=
  match r.findLibraryMethod? host q with
  | some found => importMethod found
  | none => throw (.memberNotFound (r.describe origin) q.text)

/-- The token of a method. -/
def resolveMethod (r : Resolver) (host : TypeLocator) (q : MethodQuery) : Importing Token :=
  match host with
  | .definition token =>
    if (r.definitions.get? token).isNone then throw (.typeNotFound (r.describe host))
    else
      match r.findOwnMethod? token q, r.definitions.externalBase? token with
      | some method, _ => pure method.token
      | none, some base => r.resolveLibraryMethod host base q
      | none, none => throw (.memberNotFound (r.describe host) q.text)
  | .external name =>
    if r.library.contains name then r.resolveLibraryMethod host name q
    else throw (.typeNotFound name.fullName)

/-- The token of the type of a signature. -/
def importType (r : Resolver) (sig : TypeSig) : Importing Token :=
  match sig with
  | .classType token | .valueType token => pure token
  | .array _ | .byRef _ => importing (·.typeSpec sig)
  | builtin =>
    match builtin.builtinName? with
    | some name => r.resolveType (.external name)
    | none => throw (.typeNotFound builtin.text)

end Resolver

end AspectWeaving

import AspectWeaving.Naming

/-!
A snapshot of the definitions of a module: every type with its full name, base and methods, the
parameter types of methods given by name. `Definitions.baseChain` walks along bases within the
module, and `Definitions.externalBase?` is the library type at which the walk leaves it.
-/
namespace AspectWeaving

/-- What the snapshot knows of a method. -/
structure MethodEntry where
  token : Token
  name : String
  /-- The names of the parameter types that have one. -/
  parameters : List (Option String)
  hasThis : Bool
  hasBody : Bool
  deriving DecidableEq

/-- What the snapshot knows of a type. -/
structure DefinitionEntry where
  token : Token
  fullName : String
  base : TypeLocator
  isAbstract : Bool
  methods : List MethodEntry
  deriving DecidableEq

/-- The entries of all types, a type before those inside it. -/
structure Definitions where
  entries : List DefinitionEntry := []
  deriving DecidableEq

namespace Definitions

/-- The entry of a method. -/
def methodEntry (m : Module) (d : MethodDef) : MethodEntry where
  token := d.token
  name := d.name
  parameters := d.parameters.map fun p => m.sigName? p.sig
  hasThis := d.hasThis
  hasBody := d.body.isSome

/-- The snapshot of a module. -/
def ofModule (m : Module) : Definitions where
  entries := m.types.map fun t =>
    { token := t.token
      fullName := t.fullName
      base := t.baseLocator
      isAbstract := t.flags.isAbstract
      methods := t.methods.map (methodEntry m) }

/-- The entry of a type. -/
def get? (d : Definitions) (token : Token) : Option DefinitionEntry := d.entries.find? (·.token == token)

/-- The last entry with a full name. -/
def find? (d : Definitions) (fullName : String) : Option DefinitionEntry :=
  d.entries.reverse.find? (·.fullName == fullName)

/-- The entry of a method. -/
def method? (d : Definitions) (token : Token) : Option MethodEntry :=
  d.entries.findSome? fun e => e.methods.find? (·.token == token)

/-- The entry of the base of an entry, if it is in the module. -/
def baseEntry? (d : Definitions) (e : DefinitionEntry) : Option DefinitionEntry :=
  match e.base with
  | .definition base => d.get? base
  | .external _ => none

/-- A type and its bases within the module. -/
def baseChain (d : Definitions) (token : Token) : List DefinitionEntry :=
  chain d.baseEntry? d.entries.length (d.get? token)

/-- The library type that is the base of the last type of the chain. -/
def externalBase? (d : Definitions) (token : Token) : Option TypeName :=
  (d.baseChain token).getLast?.bind fun e => e.base.external?

/-- A type is an ancestor or has it among its bases within the module. -/
def derivesFrom (d : Definitions) (token ancestor : Token) : Bool :=
  (d.baseChain token).any (·.token == ancestor)

end Definitions

end AspectWeaving

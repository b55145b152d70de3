import AspectWeaving.Definitions
import AspectWeaving.ModuleTree
import Std.Data.HashMap

/-!
A snapshot of definitions in maps. One pass over the types of a module puts an entry for each under its token, and the token under the
full name of the type; what is put later under the same key takes the place of what is there. The maps have no order of their own, so
the tokens are also kept in the order of the types.
-/
namespace AspectWeaving

/-- The entries of all types by their tokens, the tokens by the full names of the types, and the tokens in order. -/
structure DefinitionIndex where
  entries : Std.HashMap Token DefinitionEntry := {}
  byName : Std.HashMap String Token := {}
  order : Array Token := #[]

namespace DefinitionIndex

/-- What the snapshot knows of a type. -/
def entry (m : ModuleTree) (t : TypeTree) : DefinitionEntry where
  token := t.token
  fullName := (m.typeFullName? t.token).getD t.name.fullName
  base := t.baseLocator
  isAbstract := t.flags.isAbstract
  methods := t.methods.map (Definitions.methodEntry m.flat)

/-- The snapshot with one more entry. -/
def insert (d : DefinitionIndex) (e : DefinitionEntry) : DefinitionIndex where
  entries := d.entries.insert e.token e
  byName := d.byName.insert e.fullName e.token
  order := d.order.push e.token

/-- The snapshot of a module. -/
def ofModule (m : ModuleTree) : DefinitionIndex := m.all.foldl (fun d t => d.insert (entry m t)) {}

/-- The entry of a type. -/
def get? (d : DefinitionIndex) (token : Token) : Option DefinitionEntry := d.entries[token]?

/-- The entry of a full name. -/
def find? (d : DefinitionIndex) (fullName : String) : Option DefinitionEntry := d.byName[fullName]?.bind d.get?

/-- The entry of a method, looked for in all types in the order of the map. -/
def method? (d : DefinitionIndex) (token : Token) : Option MethodEntry :=
  (d.entries.toList.flatMap (·.2.methods)).find? (·.token == token)

/-- The entries in the order of the types. -/
def inOrder (d : DefinitionIndex) : List DefinitionEntry := d.order.toList.filterMap d.get?

/-- The entry of the base of an entry, if it is in the module. -/
def baseEntry? (d : DefinitionIndex) (e : DefinitionEntry) : Option DefinitionEntry :=
  match e.base with
  | .definition base => d.get? base
  | .external _ => none

/-- A type and its bases within the module. -/
def baseChain (d : DefinitionIndex) (token : Token) : List DefinitionEntry :=
  chain d.baseEntry? d.entries.size (d.get? token)

/-- The library type that is the base of the last type of the chain. -/
def externalBase? (d : DefinitionIndex) (token : Token) : Option TypeName :=
  (d.baseChain token).getLast?.bind fun e => e.base.external?

/-- A type is an ancestor or has it among its bases within the module. -/
def derivesFrom (d : DefinitionIndex) (token ancestor : Token) : Bool :=
  (d.baseChain token).any (·.token == ancestor)

end DefinitionIndex

end AspectWeaving

import AspectWeaving.Token

/-!
Names of types. A `TypeName` is a namespace and a name within it, written with a point between them;
`TypeName.parse` reads a full name, of which the last point ends the namespace. A `TypeLocator` says
where a type is to be found: in the module itself, by its token, or in the library the module is
compiled against, by its name.
-/
namespace AspectWeaving

/-- The namespace of a type and its name within the namespace. -/
structure TypeName where
  scope : String
  name : String
  deriving DecidableEq, Hashable, Inhabited

namespace TypeName

/-- Reads a full name; without a point the namespace is empty. -/
def parse (fullName : String) : TypeName :=
  let reversed := fullName.toList.reverse
  match reversed.dropWhile (· != '.') with
  | [] => ⟨"", fullName⟩
  | _ :: outer => ⟨String.ofList outer.reverse, String.ofList (reversed.takeWhile (· != '.')).reverse⟩

/-- The namespace, a point and the name; the name alone where the namespace is empty. -/
def fullName (t : TypeName) : String :=
  if t.scope.isEmpty then t.name else t.scope ++ "." ++ t.name

/-- The name of the arrays of a type. -/
def arrayOf (t : TypeName) : TypeName := { t with name := t.name ++ "[]" }

end TypeName

/-- Where a type is defined. -/
inductive TypeLocator where
  | definition (token : Token)
  | external (name : TypeName)
  deriving DecidableEq, Hashable, Inhabited

/-- The name of a type of the library. -/
def TypeLocator.external? : TypeLocator → Option TypeName
  | .definition _ => none
  | .external name => some name

/-- The locator as text. -/
def TypeLocator.text : TypeLocator → String
  | .definition token => "TypeDef " ++ token.text
  | .external name => "[runtime]" ++ name.fullName

end AspectWeaving

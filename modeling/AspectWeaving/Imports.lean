import AspectWeaving.TypeSig

/-!
The import table of a module: the types, methods and constructed types of elsewhere that its code
refers to. A row is added once; asking for it again gives the token it has (`ImportTable.typeRef`,
`ImportTable.memberRef`, `ImportTable.typeSpec`), and rows are never changed.
-/
namespace AspectWeaving

/-- An imported method. -/
structure MemberRef where
  /-- The type that declares it, by token. -/
  parent : Token
  name : String
  /-- The types of the declared parameters, which tell overloads apart. -/
  parameters : List TypeName
  hasThis : Bool
  deriving DecidableEq

/-- The rows with a given one, and its index. -/
def intern {α : Type} [DecidableEq α] (rows : Array α) (row : α) : Array α × Nat :=
  match rows.idxOf? row with
  | some index => (rows, index)
  | none => (rows.push row, rows.size)

/-- The row of a token of a table; row 0 is none. -/
def rowOf? {α : Type} (rows : Array α) (table : Nat) (token : Token) : Option α :=
  if token.table = table ∧ 0 < token.row then rows[token.row - 1]? else none

/-- The rows a module imports. -/
structure ImportTable where
  typeRefs : Array TypeName := #[]
  memberRefs : Array MemberRef := #[]
  typeSpecs : Array TypeSig := #[]
  deriving DecidableEq, Inhabited

namespace ImportTable

/-- The table with an imported type, and its token. -/
def typeRef (t : ImportTable) (name : TypeName) : ImportTable × Token :=
  let (rows, index) := intern t.typeRefs name
  ({ t with typeRefs := rows }, .ofParts Token.typeRef (index + 1))

/-- The table with an imported method, and its token. -/
def memberRef (t : ImportTable) (row : MemberRef) : ImportTable × Token :=
  let (rows, index) := intern t.memberRefs row
  ({ t with memberRefs := rows }, .ofParts Token.memberRef (index + 1))

/-- The table with a constructed type, and its token. -/
def typeSpec (t : ImportTable) (sig : TypeSig) : ImportTable × Token :=
  let (rows, index) := intern t.typeSpecs sig
  ({ t with typeSpecs := rows }, .ofParts Token.typeSpec (index + 1))

/-- The imported type of a token. -/
def getTypeRef? (t : ImportTable) (token : Token) : Option TypeName :=
  rowOf? t.typeRefs Token.typeRef token

/-- The imported method of a token. -/
def getMemberRef? (t : ImportTable) (token : Token) : Option MemberRef :=
  rowOf? t.memberRefs Token.memberRef token

/-- The constructed type of a token. -/
def getTypeSpec? (t : ImportTable) (token : Token) : Option TypeSig :=
  rowOf? t.typeSpecs Token.typeSpec token

/-- The imported methods with their tokens. -/
def memberEntries (t : ImportTable) : List (Token × MemberRef) :=
  t.memberRefs.toList.zipIdx.map fun (row, index) => (.ofParts Token.memberRef (index + 1), row)

end ImportTable

end AspectWeaving

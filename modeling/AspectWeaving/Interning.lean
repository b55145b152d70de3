import AspectWeaving.Imports

/-!
Import tables with an index. All rows of the three tables stand in one index under what they hold, so that a row that has been
asked for is found there with its token (`ImportStore.request`); any other one is put at the end of its table and into the index.
-/
namespace AspectWeaving

/-- The state after some steps in turn, and what each of them answers. -/
def stepAll {α β σ : Type} (step : σ → α → σ × β) (s : σ) : List α → σ × List β
  | [] => (s, [])
  | a :: rest =>
    let (next, b) := step s a
    let (last, others) := stepAll step next rest
    (last, b :: others)

/-- The three tables of imported rows. -/
inductive ImportKind
  | type
  | member
  | spec
  deriving DecidableEq

/-- The number of the table in a token. -/
def ImportKind.table : ImportKind → Nat
  | .type => Token.typeRef
  | .member => Token.memberRef
  | .spec => Token.typeSpec

/-- A row of one of the three tables. -/
inductive ImportRow
  | type (name : TypeName)
  | member (row : MemberRef)
  | spec (sig : TypeSig)
  deriving DecidableEq

/-- The table a row is of. -/
def ImportRow.kind : ImportRow → ImportKind
  | .type _ => .type
  | .member _ => .member
  | .spec _ => .spec

namespace ImportTable

/-- The rows of a table, in order. -/
def rows (t : ImportTable) : ImportKind → List ImportRow
  | .type => t.typeRefs.toList.map .type
  | .member => t.memberRefs.toList.map .member
  | .spec => t.typeSpecs.toList.map .spec

/-- The number of rows of a table. -/
def count (t : ImportTable) : ImportKind → Nat
  | .type => t.typeRefs.size
  | .member => t.memberRefs.size
  | .spec => t.typeSpecs.size

/-- The row of a token, looked for in one of the tables. -/
def getRow? (t : ImportTable) (token : Token) : ImportKind → Option ImportRow
  | .type => (t.getTypeRef? token).map .type
  | .member => (t.getMemberRef? token).map .member
  | .spec => (t.getTypeSpec? token).map .spec

/-- The table with a row at the end, and the token of the row. -/
def append (t : ImportTable) (row : ImportRow) : ImportTable × Token :=
  let token := .ofParts row.kind.table (t.count row.kind + 1)
  match row with
  | .type name => ({ t with typeRefs := t.typeRefs.push name }, token)
  | .member row => ({ t with memberRefs := t.memberRefs.push row }, token)
  | .spec sig => ({ t with typeSpecs := t.typeSpecs.push sig }, token)

/-- The table with a row, and the token of the row. -/
def request (t : ImportTable) : ImportRow → ImportTable × Token
  | .type name => t.typeRef name
  | .member row => t.memberRef row
  | .spec sig => t.typeSpec sig

end ImportTable

/-- The rows a module imports, and the index of all of them. -/
structure ImportStore extends ImportTable where
  index : List (ImportRow × Token) := []

namespace ImportStore

/-- The store with a row, and the token of the row. -/
def request (s : ImportStore) (row : ImportRow) : ImportStore × Token :=
  match s.index.lookup row with
  | some token => (s, token)
  | none =>
    let (rows, token) := s.toImportTable.append row
    ({ toImportTable := rows, index := (row, token) :: s.index }, token)

end ImportStore

end AspectWeaving

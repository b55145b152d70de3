import AspectWeaving.Resolution

/-!
Answers that are kept. The same types and methods are asked for again and again. What has been found once is kept beside the
rows and looked for there first (`Resolver.remember`); what has not been found is not kept, and is looked up again.

Code that asks a resolver for tokens can do so with or without answers that are kept. It is written once, for any state that
`Lookups` can work with.
-/
namespace AspectWeaving

/-- What a resolver is asked for. -/
inductive Lookup
  | type (locator : TypeLocator)
  | method (host : TypeLocator) (query : MethodQuery)
  | signature (sig : TypeSig)
  deriving DecidableEq

/-- The imported rows, with the types and methods that have been found. -/
structure Recollection where
  imports : ImportTable
  types : List (TypeLocator × Token) := []
  methods : List ((TypeLocator × MethodQuery) × Token) := []

/-- A computation that may keep answers, import rows and fail. -/
abbrev Remembering := EStateM Fault Recollection

/-- An import, beside the answers that are kept. -/
def afresh (x : Importing Token) : Remembering Token := fun s =>
  match x s.imports with
  | .ok token imports => .ok token { s with imports }
  | .error fault imports => .error fault { s with imports }

/-- An answer that may be there already; otherwise it is found, and kept. -/
def remembered {κ : Type} [BEq κ] (kept : Recollection → List (κ × Token)) (keep : κ × Token → Recollection → Recollection)
    (key : κ) (x : Importing Token) : Remembering Token := do
  match (kept (← get)).lookup key with
  | some token => return token
  | none =>
    let token ← afresh x
    modify (keep (key, token))
    return token

/-- What becomes of computations in turn, each from the state that the one before leaves behind. -/
def inTurn {α β ε σ : Type} (run : α → EStateM ε σ β) : List α → σ → List (Except ε β) × σ
  | [], s => ([], s)
  | a :: rest, s =>
    match run a s with
    | .ok b s => (inTurn run rest s).map (.ok b :: ·) id
    | .error e s => (inTurn run rest s).map (.error e :: ·) id

namespace Resolver

/-- The token that is asked for. -/
def answer (r : Resolver) : Lookup → Importing Token
  | .type locator => r.resolveType locator
  | .method host q => r.resolveMethod host q
  | .signature sig => r.importType sig

/-- The token of a type, which is kept. -/
def rememberType (r : Resolver) (locator : TypeLocator) : Remembering Token :=
  remembered (·.types) (fun e s => { s with types := e :: s.types }) locator (r.resolveType locator)

/-- The token of a method, which is kept. -/
def rememberMethod (r : Resolver) (host : TypeLocator) (q : MethodQuery) : Remembering Token :=
  remembered (·.methods) (fun e s => { s with methods := e :: s.methods }) (host, q) (r.resolveMethod host q)

/-- The token of the type of a signature. A type that is built in is kept with the others. -/
def rememberSignature (r : Resolver) (sig : TypeSig) : Remembering Token :=
  match sig with
  | .classType token | .valueType token => pure token
  | .array _ | .byRef _ => afresh (importing (·.typeSpec sig))
  | builtin =>
    match builtin.builtinName? with
    | some name => r.rememberType (.external name)
    | none => throw (.typeNotFound builtin.text)

/-- The token that is asked for, from the answers that are kept if it is there. -/
def remember (r : Resolver) : Lookup → Remembering Token
  | .type locator => r.rememberType locator
  | .method host q => r.rememberMethod host q
  | .signature sig => r.rememberSignature sig

end Resolver

/-- A state in which a resolver can be asked for tokens, with the imported rows in it. -/
class Lookups (σ : Type) where
  /-- The state in which nothing has been asked for. -/
  start : ImportTable → σ
  /-- The rows that are there. -/
  rows : σ → ImportTable
  /-- The token that is asked for. -/
  find : Resolver → Lookup → EStateM Fault σ Token

/-- With the rows alone, everything is looked up again whenever it is asked for. -/
@[default_instance]
instance : Lookups ImportTable where
  start := id
  rows := id
  find := Resolver.answer

namespace Lookups

@[simp] theorem rows_self (t : ImportTable) : rows t = t := rfl

@[simp] theorem find_type (r : Resolver) (locator : TypeLocator) :
    (find r (.type locator) : Importing Token) = r.resolveType locator := rfl

@[simp] theorem find_method (r : Resolver) (host : TypeLocator) (q : MethodQuery) :
    (find r (.method host q) : Importing Token) = r.resolveMethod host q := rfl

@[simp] theorem find_signature (r : Resolver) (sig : TypeSig) :
    (find r (.signature sig) : Importing Token) = r.importType sig := rfl

end Lookups

instance : Lookups Recollection where
  start imports := { imports }
  rows := (·.imports)
  find := Resolver.remember

end AspectWeaving

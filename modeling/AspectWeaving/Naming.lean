import AspectWeaving.Module

/-!
Names of types by token and by signature. A constructed type is named by its signature, which may
mention tokens of further constructed types; `Module.tokenName?` follows such tokens at most as often
as there are rows of constructed types, so a row that leads back to itself has no name.
`Module.nameToken` follows them for as long as they lead on. Its result has two layers: `none` where
that does not end, `some none` where it ends without a name. A run asks for names by `Module.naming`,
which tells where that does not end by the number of rows.
-/
namespace AspectWeaving

/-- The name of a signature, given the names of tokens. -/
def TypeSig.nameWith (tokenName : Token → Option String) : TypeSig → Option String
  | .classType token | .valueType token => tokenName token
  | .array element => (element.nameWith tokenName).map (· ++ "[]")
  | .byRef element => (element.nameWith tokenName).map (· ++ "&")
  | builtin => builtin.builtinName?.map (·.fullName)

/-- The token that a signature mentions, within whatever arrays and references. -/
def TypeSig.mentioned? : TypeSig → Option Token
  | .classType token | .valueType token => some token
  | .array element | .byRef element => element.mentioned?
  | _ => none

namespace ImportTable

/-- The token that the row of a token mentions. -/
def onward? (t : ImportTable) (token : Token) : Option Token := (t.getTypeSpec? token).bind (·.mentioned?)

/-- Rows lead on from a token more often than so many times. -/
def leadsBeyond (t : ImportTable) : Nat → Token → Bool
  | 0, token => (t.onward? token).isSome
  | limit + 1, token => (t.onward? token).any (t.leadsBeyond limit)

end ImportTable

namespace Module

/-- The name of the type of a token, through at most `depth` rows. -/
def tokenNameWithin (m : Module) : Nat → Token → Option String
  | 0, _ => none
  | depth + 1, token =>
    if token.table = Token.typeDef then m.typeFullName? token
    else if token.table = Token.typeRef then (m.imports.getTypeRef? token).map (·.fullName)
    else if token.table = Token.typeSpec then
      (m.imports.getTypeSpec? token).bind (·.nameWith (m.tokenNameWithin depth))
    else none

/-- The name of the type of a token: defined, imported or constructed. -/
def tokenName? (m : Module) (token : Token) : Option String :=
  m.tokenNameWithin (m.imports.typeSpecs.size + 1) token

/-- The name of a signature. -/
def sigName? (m : Module) (sig : TypeSig) : Option String := sig.nameWith m.tokenName?

/-- Rows lead on from a token more often than there are rows, so they lead round in a circle. -/
def isEndless (m : Module) (token : Token) : Bool := m.imports.leadsBeyond m.imports.typeSpecs.size token

/-- What comes of naming the type of a token in a run. -/
def naming (m : Module) (token : Token) : Except ExecutionFault (Option String) :=
  if m.isEndless token then .error (.endlessName token) else .ok (m.tokenName? token)

mutual

/-- The name of the type of a token, through as many rows as it takes. -/
def nameToken (m : Module) (token : Token) : Option (Option String) :=
  if token.table = Token.typeDef then some (m.typeFullName? token)
  else if token.table = Token.typeRef then some ((m.imports.getTypeRef? token).map (·.fullName))
  else if token.table = Token.typeSpec then
    match m.imports.getTypeSpec? token with
    | some sig => m |>.nameSig sig
    | none => some none
  else some none
partial_fixpoint

/-- The name of a signature, through as many rows as it takes. -/
def nameSig (m : Module) (sig : TypeSig) : Option (Option String) :=
  match sig with
  | .classType token | .valueType token => m |>.nameToken token
  | .array element => do return (← m |>.nameSig element).map (· ++ "[]")
  | .byRef element => do return (← m |>.nameSig element).map (· ++ "&")
  | builtin => some (builtin.builtinName?.map (·.fullName))
partial_fixpoint

end

end Module

end AspectWeaving

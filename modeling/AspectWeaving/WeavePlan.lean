import AspectWeaving.CompactForms
import AspectWeaving.Discovery

/-!
The plan of a weave: where the protected code starts and every token the woven code needs, found
before anything is changed. The protected code of a method starts at its first instruction; that of a
constructor behind its call of another constructor, before which the object is not there
(`findAnchor`). `planWeave` then resolves what the hooks are called with.
-/
namespace AspectWeaving

/-- How an argument gets into the array of arguments. -/
structure ParameterLoad where
  argument : UInt16
  /-- Fetches what a reference refers to. -/
  deref : Option Instruction
  /-- The type to box the value as. -/
  boxType : Option Token

/-- What the woven code of a method is made from. -/
structure WeavePlan where
  anchor : Handle
  methodBase : Token
  exception : Token
  object : Token
  attributeType : Token
  getMethodFromHandle : Token
  getTypeFromHandle : Token
  getCustomAttributes : Token
  onEntry : Token
  onExit : Token
  onException : Token
  parameters : List ParameterLoad
  result : TypeSig
  resultBox : Option Token
  /-- The code returns a result, so there is one to store. -/
  storesResult : Bool

/-- An instruction calls a constructor. -/
def callsConstructor (r : Resolver) (imports : ImportTable) (i : Instruction) : Bool :=
  match i.opcode, i.operand with
  | .call, .method token => r.methodName? imports token == some constructorName
  | _, _ => false

/-- The handle behind the first call of a constructor, if no return stands before it. -/
def anchorBehindChainedCall (r : Resolver) (imports : ImportTable)
    (entries : List (Handle × Instruction)) : Except ShapeFault Handle :=
  let before := entries.takeWhile fun e => !callsConstructor r imports e.2
  match entries.dropWhile fun e => !callsConstructor r imports e.2 with
  | [] => .error .noChainedCall
  | _ :: behind =>
    if before.any (·.2.opcode == .ret) then .error .returnsBeforeChainedCall
    else
      match behind with
      | [] => .error .endsWithChainedCall
      | (anchor, _) :: _ => .ok anchor

/-- The first instruction of the code to protect. -/
def findAnchor (r : Resolver) (imports : ImportTable) (b : Body) (isConstructor : Bool) :
    Except ShapeFault Handle :=
  match b.code.first? with
  | none => .error .emptyBody
  | some first =>
    if isConstructor then anchorBehindChainedCall r imports b.code.entries else .ok first

variable {σ : Type} [Lookups σ]

/-- How the parameter at an index is loaded. A value is boxed, and a reference is followed first. -/
def planParameter (r : Resolver) (shapeFault : ShapeFault → Fault) (s : Signature) (index : Nat)
    (sig : TypeSig) : EStateM Fault σ ParameterLoad := do
  let argument := s.argumentIndex index
  unless argument < 0x10000 do
    throw (shapeFault .tooManyParameters)
  let argument := UInt16.ofNat argument
  match sig.byRefElement? with
  | some element =>
    if element.isValueType then
      let type ← Lookups.find r (.signature element)
      return { argument, deref := some ⟨.ldobj, .type type⟩, boxType := some type }
    else
      return { argument, deref := some ⟨.ldindRef, .none⟩, boxType := none }
  | none =>
    if sig.isValueType then return { argument, deref := none, boxType := some (← Lookups.find r (.signature sig)) }
    else return { argument, deref := none, boxType := none }

/-- Looks up all that it takes to weave a method with a decorator. -/
def planWeave (r : Resolver) (fullName : String) (d : MethodDef) (b : Body) (kind : DecoratorKind) :
    EStateM Fault σ WeavePlan := do
  let shapeFault := Fault.invalidShape fullName
  let anchor ←
    match findAnchor r (Lookups.rows (← get)) b d.isConstructor with
    | .ok anchor => pure anchor
    | .error cause => throw (shapeFault cause)
  let methodBase := TypeLocator.external WellKnown.methodBase
  let getMethodFromHandle ← Lookups.find r (.method methodBase
    (({ name := "GetMethodFromHandle" } : MethodQuery).withTypes
      [WellKnown.methodHandle.fullName, WellKnown.typeHandle.fullName]))
  let getCustomAttributes ← Lookups.find r (.method methodBase
    (({ name := "GetCustomAttributes" } : MethodQuery).withTypes
      [WellKnown.type.fullName, WellKnown.boolean.fullName]))
  let getTypeFromHandle ← Lookups.find r (.method (.external WellKnown.type)
    (({ name := "GetTypeFromHandle" } : MethodQuery).withTypes [WellKnown.typeHandle.fullName]))
  let attributeType ← Lookups.find r (.type (.definition kind.attributeType))
  let parameters ← d.parameters.zipIdx.mapM fun (p, index) =>
    planParameter r shapeFault d.signature index p.sig
  let resultBox ← if d.result.isValueType then some <$> Lookups.find r (.signature d.result) else pure none
  let methodBase ← Lookups.find r (.type methodBase)
  let exception ← Lookups.find r (.type (.external WellKnown.exception))
  let object ← Lookups.find r (.type (.external WellKnown.object))
  return {
    anchor, methodBase, exception, object, attributeType, getMethodFromHandle, getTypeFromHandle
    getCustomAttributes, parameters, resultBox
    onEntry := kind.onEntry
    onExit := kind.onExit
    onException := kind.onException
    result := d.result
    storesResult := b.code.entries.any (·.2.opcode == .ret) && !d.result.isVoid }

end AspectWeaving

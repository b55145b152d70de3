import AspectWeaving.Diagnostics
import AspectWeaving.Policy
import AspectWeaving.Remembering

/-!
Discovery: the decorators of a module and the methods they decorate. A decorator is a type that is
not abstract, derives from the marker of the policy and has the three hooks, itself or inherited
(`decoratorKinds`). Every attribute of the type of a decorator on a method with a body makes a target
(`discover`).
-/
namespace AspectWeaving

/-- A decorator: a type of attributes with its hooks. -/
structure DecoratorKind where
  attributeType : Token
  name : String
  onEntry : Token
  onExit : Token
  onException : Token
  deriving DecidableEq

/-- A decorator as it stands on a method. -/
structure Decoration where
  kind : DecoratorKind
  attr : Attribute

/-- A method to weave. -/
structure WeaveTarget where
  declaringType : Token
  method : Token
  decoration : Decoration

/-- A target as text. -/
def WeaveTarget.text (t : WeaveTarget) : String :=
  s!"{t.decoration.kind.name} on {t.method.text} (type {t.declaringType.text})"

/-- What an operation on a module adds to: the imported rows, with answers beside them if they are kept, and the
diagnostics. -/
structure Workspace (σ : Type := ImportTable) where
  imports : σ
  diagnostics : Diagnostics := {}

/-- A computation that may look up tokens and report. -/
abbrev WeavingWith (σ : Type) := StateM (Workspace σ)

/-- A computation that may import rows and report. -/
abbrev Weaving := WeavingWith ImportTable

namespace Weaving

variable {σ : Type}

/-- Reports. -/
def report (d : Diagnostic) : WeavingWith σ Unit :=
  modify fun w => { w with diagnostics := w.diagnostics.push d }

/-- Reports information. -/
def info (category : Category) (message : String) : WeavingWith σ Unit :=
  report { severity := .info, category, message }

/-- Logs a trace. -/
def trace (text : String) : WeavingWith σ Unit :=
  modify fun w => { w with diagnostics := w.diagnostics.trace text }

/-- Runs lookups, and keeps the rows they add whether they fail or not. -/
def attempt {α : Type} (x : EStateM Fault σ α) : WeavingWith σ (Except Fault α) := modifyGet fun w =>
  match x.run w.imports with
  | .ok a imports => (.ok a, { w with imports })
  | .error e imports => (.error e, { w with imports })

end Weaving

/-- The hook called before the code of a method: the method and its arguments. -/
def onEntryQuery : MethodQuery :=
  ({ name := "OnEntry" } : MethodQuery).withTypes [WellKnown.methodBase.fullName, WellKnown.objectArray.fullName]

/-- The hook called after it: the result, the method and its arguments. -/
def onExitQuery : MethodQuery :=
  ({ name := "OnExit" } : MethodQuery).withTypes
    [WellKnown.object.fullName, WellKnown.methodBase.fullName, WellKnown.objectArray.fullName]

/-- The hook called after a failure: the exception, the method and its arguments. -/
def onExceptionQuery : MethodQuery :=
  ({ name := "OnException" } : MethodQuery).withTypes
    [WellKnown.exception.fullName, WellKnown.methodBase.fullName, WellKnown.objectArray.fullName]

/-- The definition of the marker, if it is a type of the module. -/
def Resolver.markerDefinition? (r : Resolver) (p : Policy) : Option Token :=
  (r.definitions.find? p.marker.fullName).map (·.token)

/-- A type other than the marker derives from it: within the module if the marker is defined there, else
    beyond the base at which it leaves the module. -/
def Resolver.reachesMarker (r : Resolver) (p : Policy) (e : DefinitionEntry) : Bool :=
  match r.markerDefinition? p with
  | some marker => e.token != marker && r.definitions.derivesFrom e.token marker
  | none => (r.definitions.externalBase? e.token).any (r.library.derivesFrom · p.marker)

variable {σ : Type} [Lookups σ]

/-- The decorator of a type. -/
def Resolver.decoratorKind (r : Resolver) (e : DefinitionEntry) : EStateM Fault σ DecoratorKind := do
  let host := TypeLocator.definition e.token
  let onEntry ← Lookups.find r (.method host onEntryQuery)
  let onExit ← Lookups.find r (.method host onExitQuery)
  let onException ← Lookups.find r (.method host onExceptionQuery)
  return { attributeType := e.token, name := e.fullName, onEntry, onExit, onException }

/-- The decorators among some types; a type without usable hooks is reported and passed over. -/
def kindsAmong (r : Resolver) (p : Policy) : List DefinitionEntry → WeavingWith σ (List DecoratorKind)
  | [] => return []
  | e :: rest => do
    if e.isAbstract || !r.reachesMarker p e then
      kindsAmong r p rest
    else
      match ← Weaving.attempt (r.decoratorKind e) with
      | .ok kind => return kind :: (← kindsAmong r p rest)
      | .error fault =>
        Weaving.report
          { severity := .warning
            category := .discovery
            message := s!"Decorator {e.fullName} is unusable: {fault.message}"
            token := some e.token }
        kindsAmong r p rest

/-- The decorators of a module; there are none if the marker is neither defined nor in the library. -/
def decoratorKinds (r : Resolver) (p : Policy) : WeavingWith σ (List DecoratorKind) := do
  if (r.markerDefinition? p).isNone && !r.library.contains p.marker then
    Weaving.info .discovery s!"Marker base {p.marker.fullName} is not available, nothing to weave"
    return []
  else
    kindsAmong r p r.definitions.entries

/-- The target of an attribute of a method, if it is a decorator and there is a body to weave. -/
def targetOf? {σ : Type} (kinds : List DecoratorKind) (t : TypeDef) (d : MethodDef) (attr : Attribute) :
    WeavingWith σ (Option WeaveTarget) := do
  let some kind := kinds.find? (·.attributeType == attr.type) | return none
  if d.body.isNone then
    Weaving.report
      { severity := .warning
        category := .discovery
        message := s!"{t.fullName}::{d.name} carries {kind.name} but has no body"
        token := some d.token }
    return none
  else
    return some { declaringType := t.token, method := d.token, decoration := ⟨kind, attr⟩ }

/-- The attributes of a module, with the methods they stand on, in order. -/
def Module.attributes (m : Module) : List (TypeDef × MethodDef × Attribute) :=
  m.types.flatMap fun t => t.methods.flatMap fun d => d.attributes.map (t, d, ·)

/-- The targets of a module: types, then their methods, then their attributes in order. -/
def discover (m : Module) (r : Resolver) (p : Policy) : WeavingWith σ (List WeaveTarget) := do
  let kinds ← decoratorKinds r p
  if kinds.isEmpty then
    return []
  else
    let found ← m.attributes.mapM fun (t, d, a) => targetOf? kinds t d a
    let targets := found.filterMap id
    Weaving.info .discovery
      s!"Discovered {kinds.length} decorator kinds and {targets.length} weave targets"
    return targets

end AspectWeaving

import AspectWeaving.Discovery
import AspectWeaving.Splicing
import AspectWeaving.Validity
import AspectWeaving.Widening

/-!
Weaving: the decorators of a module put around the methods they stand on. `decorate` weaves one
decorator into one method. `weaveModule` weaves every target that is discovered, all decorators of a
method one after another, each around what the one before made of it; a method that one of them fails
on stays as it was, and the others are woven nevertheless.

All methods import into one table, so a method that is woven later finds more rows there. Where the
policy asks for parallel weaving, a `Schedule` says which method comes when; each is woven as a whole
before the next one is begun.
-/
namespace AspectWeaving

variable {σ : Type} [Lookups σ]

/-- The body of a method with a decorator around it. -/
def weaveBody (r : Resolver) (p : Policy) (fullName : String) (d : MethodDef) (kind : DecoratorKind)
    (declaringType : Token) : WeavingWith σ (Except Fault Body) := do
  let some body := d.body | return .error (.invalidShape fullName .noBody)
  match ← Weaving.attempt (planWeave r fullName d body kind) with
  | .error fault => return .error fault
  | .ok plan =>
    match plan.splice body d.token declaringType with
    | .error fault => return .error fault
    | .ok spliced =>
      let (woven, widened) := spliced.widen
      if 0 < widened then
        Weaving.trace s!"{fullName}: widened {widened} short branches"
      if p.validates then
        return woven.validate.map fun _ => woven
      else
        return .ok woven

/-- The method with a decorator around its body. -/
def decorate (r : Resolver) (p : Policy) (d : MethodDef) (kind : DecoratorKind) (declaringType : Token) :
    WeavingWith σ (Except Fault MethodDef) := do
  let fullName := r.describe (.definition declaringType) ++ "::" ++ d.name
  match ← weaveBody r p fullName d kind declaringType with
  | .error fault => return .error (.weaveFailed fullName fault)
  | .ok body =>
    Weaving.report
      { severity := .info
        category := .transform
        message := s!"Woven {fullName} with {kind.name}"
        token := some d.token }
    return .ok { d with body := some body }

/-- The method with some decorators around its body, the last one outermost. -/
def decorateAll (r : Resolver) (p : Policy) (declaringType : Token) :
    List Decoration → MethodDef → WeavingWith σ (Except Fault MethodDef)
  | [], d => return .ok d
  | decoration :: rest, d => do
    match ← decorate r p d decoration.kind declaringType with
    | .error fault => return .error fault
    | .ok woven => decorateAll r p declaringType rest woven

/-- A method to weave with all its decorators. -/
structure WeaveJob where
  method : Token
  declaringType : Token
  decorations : List Decoration

/-- Jobs with one more target: a decorator more for the method, or a job more. -/
def addTarget (target : WeaveTarget) : List WeaveJob → List WeaveJob
  | [] => [⟨target.method, target.declaringType, [target.decoration]⟩]
  | job :: rest =>
    if job.method = target.method then
      { job with decorations := job.decorations ++ [target.decoration] } :: rest
    else job :: addTarget target rest

/-- The jobs of some targets, one for each method, in the order of their first targets. -/
def jobsOf (targets : List WeaveTarget) : List WeaveJob :=
  targets.foldl (fun jobs target => addTarget target jobs) []

/-- Does the jobs one after another, each on the method as it is in the module. -/
def weaveJobs (m : Module) (r : Resolver) (p : Policy) :
    List WeaveJob → WeavingWith σ (List (Token × Except Fault MethodDef))
  | [] => return []
  | job :: rest => do
    let some d := m.lastMethod? job.method | weaveJobs m r p rest
    let result ← decorateAll r p job.declaringType job.decorations d
    return (job.method, result) :: (← weaveJobs m r p rest)

/-- An order for jobs that are done in parallel. It is up to the workers which job is begun when, so it may be any
order of the jobs. -/
structure Schedule where
  order : List WeaveJob → List WeaveJob
  perm (jobs : List WeaveJob) : (order jobs).Perm jobs

namespace Schedule

/-- One job after another, as they come. -/
def inTurn : Schedule where
  order := id
  perm := .refl

/-- The jobs as they are done. Only a policy that asks for parallel weaving leaves that to the schedule. -/
def taken (s : Schedule) (p : Policy) (jobs : List WeaveJob) : List WeaveJob :=
  if p.parallel then s.order jobs else jobs

end Schedule

/-- The results of jobs in the order of the jobs, in whatever order they came. -/
def inJobOrder (jobs : List WeaveJob) (results : List (Token × Except Fault MethodDef)) :
    List (Token × Except Fault MethodDef) :=
  jobs.filterMap fun job => results.find? (·.1 == job.method)

/-- What weaving a module comes to. -/
structure WeaveReport where
  /-- The methods that were woven. -/
  woven : List Token := []
  /-- The methods that were left as they were, and why. -/
  failed : List (Token × Fault) := []
  diagnostics : Diagnostics

namespace WeaveReport

/-- No method failed. -/
def isSuccess (r : WeaveReport) : Bool := r.failed.isEmpty

/-- Why a method failed. -/
def failure? (r : WeaveReport) (method : Token) : Option Fault :=
  (r.failed.find? (·.1 == method)).map (·.2)

end WeaveReport

/-- The methods that were woven, by their results. -/
def wovenAmong (results : List (Token × Except Fault MethodDef)) : List Token :=
  results.filterMap fun (token, result) =>
    match result with
    | .ok _ => some token
    | .error _ => none

/-- The methods that failed, by their results. -/
def failedAmong (results : List (Token × Except Fault MethodDef)) : List (Token × Fault) :=
  results.filterMap fun (token, result) =>
    match result with
    | .ok _ => none
    | .error fault => some (token, fault)

/-- The module with the methods that were woven in the place of the old ones. -/
def Module.commit (m : Module) (results : List (Token × Except Fault MethodDef)) : Module :=
  results.foldl (fun m (token, result) =>
    match result with
    | .ok woven => m.modifyLastMethod token fun _ => woven
    | .error _ => m) m

/-- The diagnostic of a method that failed. -/
def failureDiagnostic (failure : Token × Fault) : Diagnostic where
  severity := .error
  category := .transform
  message := failure.2.message
  token := some failure.1

/-- A computation with a resolver of its own, which has not been asked for anything. -/
def Weaving.renewed {α : Type} (x : WeavingWith σ α) : WeavingWith σ α := fun w =>
  x { w with imports := Lookups.start (Lookups.rows w.imports) }

/-- Discovers the targets of a module, weaves them and reports. -/
def weaveTargets (m : Module) (r : Resolver) (p : Policy) (s : Schedule := .inTurn) :
    WeavingWith σ (List (Token × Except Fault MethodDef)) := do
  let targets ← discover m r p
  if targets.isEmpty then
    Weaving.info .general "No decorated methods to weave"
    return []
  else
    let jobs := jobsOf targets
    let results := inJobOrder jobs (← Weaving.renewed (weaveJobs m r p (s.taken p jobs)))
    let failed := failedAmong results
    failed.forM fun failure => Weaving.report (failureDiagnostic failure)
    Weaving.info .general s!"Woven {(wovenAmong results).length} methods, {failed.length} failed"
    return results

/-- The woven module, and what weaving it came to. Rows that were imported for a method that failed stay. -/
def weaveModuleWith (σ : Type) [Lookups σ] (m : Module) (p : Policy) (s : Schedule) : Module × WeaveReport :=
  let start : Workspace σ := { imports := Lookups.start m.imports, diagnostics := { recordsInfo := p.reportsInfo } }
  let (results, finish) := (weaveTargets m (.ofModule m) p s).run start
  ({ m.commit results with imports := Lookups.rows finish.imports },
    { woven := wovenAmong results, failed := failedAmong results, diagnostics := finish.diagnostics })

/-- A module woven without answers that are kept. -/
def weaveModule (m : Module) (p : Policy) (s : Schedule := .inTurn) : Module × WeaveReport :=
  weaveModuleWith ImportTable m p s

end AspectWeaving

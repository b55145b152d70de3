import AspectWeaving.Proofs.Decorating

/-!
Growing tables. Whatever becomes of an import (`Importing.Extends`), the rows that were imported before stay where
they are, and new ones come behind them. A weave is made of imports and reports (`Weaving.Composed`), so it only adds
rows too.
-/
namespace AspectWeaving

/-- An import leaves the rows alone that there are, whether it fails or not. -/
structure Importing.Extends {α : Type} (x : Importing α) : Prop where
  ok : ∀ {t a u}, x t = .ok a u → t.Grows u
  error : ∀ {t fault u}, x t = .error fault u → t.Grows u

namespace Importing.Extends

variable {α β : Type} {x : Importing α}

theorem pure (a : α) : Extends (pure a : Importing α) := by
  constructor <;> intro t _ u done <;> cases done
  exact .refl t

theorem throw (fault : Fault) : Extends (throw fault : Importing α) := by
  constructor <;> intro t _ u done <;> cases done
  exact .refl t

theorem get : Extends (get : Importing ImportTable) := by
  constructor <;> intro t _ u done <;> cases done
  exact .refl t

theorem importing {step : ImportTable → ImportTable × α} (grows : ∀ t : ImportTable, t.Grows (step t).1) : Extends (importing step) := by
  constructor <;> intro t _ u done <;> cases done
  exact grows t

theorem bind {f : α → Importing β} (first : Extends x) (second : ∀ a, Extends (f a)) : Extends (x >>= f) := by
  have split : ∀ t, (∃ a u, x t = .ok a u ∧ (x >>= f) t = f a u) ∨
      ∃ fault u, x t = .error fault u ∧ (x >>= f) t = .error fault u := by
    intro t
    change (∃ a u, _ ∧ EStateM.bind x f t = _) ∨ ∃ fault u, _ ∧ EStateM.bind x f t = _
    unfold EStateM.bind
    cases x t with
    | ok a u => exact .inl ⟨a, u, rfl, rfl⟩
    | error fault u => exact .inr ⟨fault, u, rfl, rfl⟩
  constructor
  · intro t b v done
    rcases split t with ⟨a, u, start, rest⟩ | ⟨fault, u, start, rest⟩ <;> rw [rest] at done
    · exact (first.ok start).trans ((second a).ok done)
    · cases done
  · intro t fault v failed
    rcases split t with ⟨a, u, start, rest⟩ | ⟨cause, u, start, rest⟩ <;> rw [rest] at failed
    · exact (first.ok start).trans ((second a).error failed)
    · cases failed
      exact first.error start

theorem mapM {f : α → Importing β} (each : ∀ a, Extends (f a)) (l : List α) : Extends (l.mapM f) := by
  induction l with
  | nil => exact .pure []
  | cons a l ih =>
    rw [List.mapM_cons]
    exact (each a).bind fun b => ih.bind fun bs => .pure (b :: bs)

end Importing.Extends

/-! ### Lookups -/

/-- A property of imports is closed under the steps of lookups: an answer or a failure that imports nothing, and the import of a
    type or of a method of the library. -/
structure Importing.Closed (P : Importing Token → Prop) : Prop where
  pure : ∀ token, P (pure token)
  throw : ∀ fault, P (throw fault)
  typeRef : ∀ name, P (importing (·.typeRef name))
  importMethod : ∀ found, P (Resolver.importMethod found)

namespace Importing.Closed

variable {P : Importing Token → Prop}

theorem resolveType (closed : Closed P) (r : Resolver) (locator : TypeLocator) : P (r.resolveType locator) := by
  cases locator with
  | definition token =>
    simp only [Resolver.resolveType]
    split
    · exact closed.pure token
    · exact closed.throw _
  | external name =>
    simp only [Resolver.resolveType]
    split
    · exact closed.typeRef name
    · exact closed.throw _

theorem resolveLibraryMethod (closed : Closed P) (r : Resolver) (origin : TypeLocator) (host : TypeName) (q : MethodQuery) :
    P (r.resolveLibraryMethod origin host q) := by
  unfold Resolver.resolveLibraryMethod
  split
  · exact closed.importMethod _
  · exact closed.throw _

theorem resolveMethod (closed : Closed P) (r : Resolver) (host : TypeLocator) (q : MethodQuery) : P (r.resolveMethod host q) := by
  cases host with
  | definition token =>
    simp only [Resolver.resolveMethod]
    split
    · exact closed.throw _
    · split
      · exact closed.pure _
      · exact closed.resolveLibraryMethod r _ _ q
      · exact closed.throw _
  | external name =>
    simp only [Resolver.resolveMethod]
    split
    · exact closed.resolveLibraryMethod r _ _ q
    · exact closed.throw _

/-- The type of a signature is a row of its own where it is made of another type. -/
theorem importType (closed : Closed P) (typeSpec : ∀ sig, P (importing (·.typeSpec sig))) (r : Resolver) (sig : TypeSig) :
    P (r.importType sig) := by
  have builtin : ∀ name, P (r.resolveType (.external name)) := fun name => closed.resolveType r _
  cases sig with
  | classType | valueType => exact closed.pure _
  | array | byRef => exact typeSpec _
  | _ => exact builtin _

end Importing.Closed

section Imports

open Importing (Extends)

variable (r : Resolver)

theorem closed_extends : Importing.Closed Extends where
  pure := .pure
  throw := .throw
  typeRef name := .importing fun t => t.grows_typeRef name
  importMethod _ := (Extends.importing fun t => t.grows_typeRef _).bind fun _ => .importing fun t => t.grows_memberRef _

theorem extends_resolveType (locator : TypeLocator) : Extends (r.resolveType locator) := closed_extends.resolveType r locator

theorem extends_resolveMethod (host : TypeLocator) (q : MethodQuery) : Extends (r.resolveMethod host q) :=
  closed_extends.resolveMethod r host q

theorem extends_importType (sig : TypeSig) : Extends (r.importType sig) :=
  closed_extends.importType (fun _ => .importing fun t => t.grows_typeSpec _) r sig

theorem extends_answer (lookup : Lookup) : Extends (r.answer lookup) := by
  cases lookup with
  | type => exact extends_resolveType r _
  | method => exact extends_resolveMethod r _ _
  | signature => exact extends_importType r _

theorem extends_planParameter (faults : ShapeFault → Fault) (s : Signature) (index : Nat) (sig : TypeSig) :
    Extends (planParameter r faults s index sig) := by
  unfold planParameter
  dsimp only
  repeat' first
    | exact .pure _
    | exact .throw _
    | refine (extends_answer r _).bind fun _ => ?_
    | split

theorem extends_planWeave (fullName : String) (d : MethodDef) (b : Body) (kind : DecoratorKind) :
    Extends (planWeave r fullName d b kind) := by
  unfold planWeave
  refine Extends.get.bind fun rows => ?_
  cases findAnchor r (Lookups.rows rows) b d.isConstructor
  case error cause => exact Extends.throw (Fault.invalidShape fullName cause)
  case ok anchor =>
    refine (Extends.pure anchor).bind fun anchor => ?_
    refine (extends_answer r _).bind fun getMethod => ?_
    refine (extends_answer r _).bind fun getAttributes => ?_
    refine (extends_answer r _).bind fun getType => ?_
    refine (extends_answer r _).bind fun attributeType => ?_
    refine (Extends.mapM (fun e : Parameter × Nat => extends_planParameter r _ _ e.2 e.1.sig) _).bind fun parameters => ?_
    split
    all_goals
      refine Extends.bind (by first | exact .pure _ | exact (extends_answer r _).bind fun _ => .pure _) fun box => ?_
      refine (extends_answer r _).bind fun methodBase => ?_
      refine (extends_answer r _).bind fun exception => ?_
      exact (extends_answer r _).bind fun object => .pure _

theorem extends_decoratorKind (e : DefinitionEntry) : Extends (r.decoratorKind e) := by
  refine (extends_answer r _).bind fun onEntry => ?_
  refine (extends_answer r _).bind fun onExit => ?_
  exact (extends_answer r _).bind fun onException => .pure _

end Imports

/-- A computation is made of reports, traces and imports that leave the rows alone that there are. -/
inductive Weaving.Composed : {α : Type} → Weaving α → Prop
  | pure {α : Type} (a : α) : Composed (pure a : Weaving α)
  | bind {α β : Type} {x : Weaving α} {f : α → Weaving β} (first : Composed x) (second : ∀ a, Composed (f a)) :
    Composed (x >>= f)
  | report (d : Diagnostic) : Composed (report d)
  | trace (text : String) : Composed (trace text)
  | attempt {α : Type} {x : Importing α} (adds : Importing.Extends x) : Composed (attempt x)

namespace Weaving.Composed

variable {α β : Type} {x : Weaving α}

theorem info (category : Category) (message : String) : Composed (info category message) := .report _

theorem mapM {f : α → Weaving β} (each : ∀ a, Composed (f a)) (l : List α) : Composed (l.mapM f) := by
  induction l with
  | nil => exact .pure []
  | cons a l ih =>
    rw [List.mapM_cons]
    exact (each a).bind fun b => ih.bind fun bs => .pure (b :: bs)

theorem forM {f : α → Weaving Unit} (each : ∀ a, Composed (f a)) (l : List α) : Composed (l.forM f) := by
  induction l with
  | nil => exact .pure ()
  | cons a l ih => exact (each a).bind fun _ => ih

/-- Such a computation only adds rows. -/
theorem grows (composed : Composed x) (w : Workspace) : w.imports.Grows (x w).2.imports := by
  induction composed generalizing w with
  | pure | report | trace => exact .refl w.imports
  | bind first second ih more => exact (ih w).trans (more _ _)
  | @attempt _ x adds =>
    cases came : Weaving.attempt x w with
    | mk result u =>
      have rows := Weaving.attempt_eq came
      cases result with
      | ok a => exact adds.ok rows
      | error fault => exact adds.error rows

end Weaving.Composed

section Weaving

open Weaving (Composed)

variable (r : Resolver) (policy : Policy)

theorem composed_kindsAmong (entries : List DefinitionEntry) : Composed (kindsAmong r policy entries) := by
  induction entries with
  | nil => exact .pure []
  | cons e rest ih =>
    unfold kindsAmong
    split
    · exact ih
    · refine (Composed.attempt (extends_decoratorKind r e)).bind fun result => ?_
      cases result with
      | ok kind => exact ih.bind fun others => .pure _
      | error fault => exact (Composed.report _).bind fun _ => ih

theorem composed_decoratorKinds : Composed (decoratorKinds r policy) := by
  unfold decoratorKinds
  split
  · exact (Composed.info _ _).bind fun _ => .pure []
  · exact composed_kindsAmong r policy _

theorem composed_targetOf? (kinds : List DecoratorKind) (t : TypeDef) (d : MethodDef) (a : Attribute) :
    Composed (targetOf? kinds t d a) := by
  unfold targetOf?
  repeat' first
    | exact .pure _
    | refine (Composed.report _).bind fun _ => ?_
    | split

theorem composed_discover (m : Module) : Composed (discover m r policy) := by
  refine (composed_decoratorKinds r policy).bind fun kinds => ?_
  split
  · exact .pure []
  · exact (Composed.mapM (fun e : TypeDef × MethodDef × Attribute => composed_targetOf? kinds e.1 e.2.1 e.2.2) _).bind fun found =>
      (Composed.info _ _).bind fun _ => .pure _

theorem composed_weaveBody (fullName : String) (d : MethodDef) (kind : DecoratorKind) (declaringType : Token) :
    Composed (weaveBody r policy fullName d kind declaringType) := by
  unfold weaveBody
  cases d.body with
  | none => exact .pure _
  | some body =>
    refine (Composed.attempt (extends_planWeave r _ _ _ _)).bind fun result => ?_
    cases result with
    | error fault => exact .pure _
    | ok plan =>
      dsimp only
      repeat' first
        | exact .pure _
        | refine (Composed.trace _).bind fun _ => ?_
        | split

theorem composed_decorate (d : MethodDef) (kind : DecoratorKind) (declaringType : Token) :
    Composed (decorate r policy d kind declaringType) := by
  refine (composed_weaveBody r policy _ d kind declaringType).bind fun result => ?_
  cases result with
  | error fault => exact .pure _
  | ok body => exact (Composed.report _).bind fun _ => .pure _

theorem composed_decorateAll (declaringType : Token) (decorations : List Decoration) (d : MethodDef) :
    Composed (decorateAll r policy declaringType decorations d) := by
  induction decorations generalizing d with
  | nil => exact .pure _
  | cons e rest ih =>
    refine (composed_decorate r policy d e.kind declaringType).bind fun result => ?_
    cases result with
    | error fault => exact .pure _
    | ok woven => exact ih woven

theorem composed_weaveJobs (m : Module) (jobs : List WeaveJob) : Composed (weaveJobs m r policy jobs) := by
  induction jobs with
  | nil => exact .pure []
  | cons job rest ih =>
    unfold weaveJobs
    split
    · exact (composed_decorateAll r policy _ _ _).bind fun result => ih.bind fun others => .pure _
    · exact ih

theorem composed_weaveTargets (m : Module) (s : Schedule) : Composed (weaveTargets m r policy s) := by
  refine (composed_discover r policy m).bind fun targets => ?_
  split
  · exact (Composed.info _ _).bind fun _ => .pure []
  · refine (composed_weaveJobs r policy m _).bind fun results => ?_
    refine (Composed.forM (fun failure => Composed.report _) _).bind fun _ => ?_
    exact (Composed.info _ _).bind fun _ => .pure _

end Weaving

end AspectWeaving

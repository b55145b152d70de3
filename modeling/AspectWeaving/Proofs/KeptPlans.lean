import AspectWeaving.Proofs.KeptAnswers
import AspectWeaving.Proofs.WeaveJobs

/-!
Weaves with answers that are kept. All that a weave asks for it asks a resolver, which may have the answer already. Whatever is
made of answers in the same way comes out in the same way (`Remembering.Follows.bind`, `WeavingWith.Follows.bind`), so plans,
decorators and jobs follow those without answers that are kept (`planWeave_follows`, `decorateAll_follows`,
`weaveJobs_follows`), and a module is woven to the same (`weaveModuleWith_recollection`).
-/
namespace AspectWeaving

/-! ### Lookups -/

namespace Remembering.Follows

variable {α β : Type} {r : Resolver} {x : Remembering α} {y : Importing α}

theorem pure (a : α) : Follows r (pure a) (pure a) where
  ok {s _ _} sound done := by
    cases done
    exact ⟨s, rfl, rfl, sound⟩
  error _ failed := by cases failed

theorem throw (fault : Fault) : Follows r (throw fault : Remembering α) (throw fault) where
  ok _ done := by cases done
  error {s _ _} sound failed := by
    cases failed
    exact ⟨s, rfl, rfl, sound⟩

theorem bind {f : α → Remembering β} {g : α → Importing β} (first : Follows r x y) (second : ∀ a, Follows r (f a) (g a)) :
    Follows r (x >>= f) (y >>= g) where
  ok {s b u} sound done := by
    obtain ⟨a, v, here, done⟩ := importing_bind done
    obtain ⟨s', came, rfl, sound'⟩ := first.ok sound here
    obtain ⟨s'', last, rows, sound''⟩ := (second a).ok sound' done
    refine ⟨s'', ?_, rows, sound''⟩
    change EStateM.bind x f s = _
    simp only [EStateM.bind, came, last]
  error {s fault u} sound failed := by
    change EStateM.bind y g s.imports = _ at failed
    unfold EStateM.bind at failed
    cases here : y s.imports with
    | ok a v =>
      simp only [here] at failed
      obtain ⟨s', came, rfl, sound'⟩ := first.ok sound here
      obtain ⟨s'', last, rows, sound''⟩ := (second a).error sound' failed
      refine ⟨s'', ?_, rows, sound''⟩
      change EStateM.bind x f s = _
      simp only [EStateM.bind, came, last]
    | error cause v =>
      simp only [here] at failed
      cases failed
      obtain ⟨s', came, rows, sound'⟩ := first.error sound here
      refine ⟨s', ?_, rows, sound'⟩
      change EStateM.bind x f s = _
      simp only [EStateM.bind, came]

/-- The rows may be read. -/
theorem rows {f : Recollection → Remembering β} {g : ImportTable → Importing β} (onward : ∀ s, Follows r (f s) (g s.imports)) :
    Follows r (get >>= f) (get >>= g) where
  ok {s _ _} sound done := (onward s).ok sound done
  error {s _ _} sound failed := (onward s).error sound failed

theorem mapM {f : α → Remembering β} {g : α → Importing β} (each : ∀ a, Follows r (f a) (g a)) (l : List α) :
    Follows r (l.mapM f) (l.mapM g) := by
  induction l with
  | nil => exact pure []
  | cons a l ih =>
    rw [List.mapM_cons, List.mapM_cons]
    exact (each a).bind fun b => ih.bind fun bs => pure (b :: bs)

end Remembering.Follows

section Plans

open Remembering (Follows)

variable (r : Resolver)

theorem find_follows (lookup : Lookup) : Follows r (Lookups.find r lookup) (Lookups.find r lookup) := r.remember_follows lookup

theorem planParameter_follows (faults : ShapeFault → Fault) (s : Signature) (index : Nat) (sig : TypeSig) :
    Follows r (planParameter r faults s index sig) (planParameter r faults s index sig) := by
  unfold planParameter
  dsimp only
  repeat' first
    | exact .pure _
    | exact .throw _
    | refine (find_follows r _).bind fun _ => ?_
    | split

/-- A plan is made in the same way with answers that are kept. -/
theorem planWeave_follows (fullName : String) (d : MethodDef) (b : Body) (kind : DecoratorKind) :
    Follows r (planWeave r fullName d b kind) (planWeave r fullName d b kind) := by
  unfold planWeave
  refine Follows.rows fun s => ?_
  have rows : (Lookups.rows s : ImportTable) = s.imports := rfl
  rw [rows, Lookups.rows_self]
  cases findAnchor r s.imports b d.isConstructor
  case error cause => exact Follows.throw (Fault.invalidShape fullName cause)
  case ok anchor =>
    refine (Follows.pure anchor).bind fun anchor => ?_
    refine (find_follows r _).bind fun getMethod => ?_
    refine (find_follows r _).bind fun getAttributes => ?_
    refine (find_follows r _).bind fun getType => ?_
    refine (find_follows r _).bind fun attributeType => ?_
    refine (Follows.mapM (fun e : Parameter × Nat => planParameter_follows r _ _ e.2 e.1.sig) _).bind fun parameters => ?_
    split
    all_goals
      refine Follows.bind (by first | exact .pure _ | exact (find_follows r _).bind fun _ => .pure _) fun box => ?_
      refine (find_follows r _).bind fun methodBase => ?_
      refine (find_follows r _).bind fun exception => ?_
      exact (find_follows r _).bind fun object => .pure _

theorem decoratorKind_follows (e : DefinitionEntry) : Follows r (r.decoratorKind e) (r.decoratorKind e) := by
  refine (find_follows r _).bind fun onEntry => ?_
  refine (find_follows r _).bind fun onExit => ?_
  exact (find_follows r _).bind fun onException => .pure _

end Plans

/-! ### Weaves -/

/-- A workspace without the answers that are kept in it. -/
def Workspace.forget (w : Workspace Recollection) : Workspace := { w with imports := w.imports.imports }

/-- A computation that keeps answers gives what one without gives, imports the same rows and reports the same, and the
    answers stay sound. -/
def WeavingWith.Follows {α : Type} (r : Resolver) (x : WeavingWith Recollection α) (y : Weaving α) : Prop :=
  ∀ w : Workspace Recollection, w.imports.Sound r →
    (x w).1 = (y w.forget).1 ∧ (x w).2.forget = (y w.forget).2 ∧ (x w).2.imports.Sound r

namespace WeavingWith.Follows

variable {α β : Type} {r : Resolver} {x : WeavingWith Recollection α} {y : Weaving α}

theorem pure (a : α) : Follows r (pure a) (pure a) := fun _ sound => ⟨rfl, rfl, sound⟩

theorem bind {f : α → WeavingWith Recollection β} {g : α → Weaving β} (first : Follows r x y)
    (second : ∀ a, Follows r (f a) (g a)) : Follows r (x >>= f) (y >>= g) := fun w sound => by
  obtain ⟨result, rows, sound'⟩ := first w sound
  change (f (x w).1 (x w).2).1 = (g (y w.forget).1 (y w.forget).2).1 ∧ _ = (g (y w.forget).1 (y w.forget).2).2 ∧ _
  rw [← result, ← rows]
  exact second (x w).1 (x w).2 sound'

theorem report (d : Diagnostic) : Follows r (Weaving.report d) (Weaving.report d) := fun _ sound => ⟨rfl, rfl, sound⟩

theorem trace (text : String) : Follows r (Weaving.trace text) (Weaving.trace text) := fun _ sound => ⟨rfl, rfl, sound⟩

theorem attempt {x : Remembering α} {y : Importing α} (follows : Remembering.Follows r x y) :
    Follows r (Weaving.attempt x) (Weaving.attempt y) := fun w sound => by
  have rows : w.forget.imports = w.imports.imports := rfl
  rw [Weaving.attempt_apply, Weaving.attempt_apply, rows]
  cases done : y w.imports.imports with
  | ok a u =>
    obtain ⟨s, came, rfl, sound'⟩ := follows.ok sound done
    rw [came]
    exact ⟨rfl, rfl, sound'⟩
  | error fault u =>
    obtain ⟨s, came, rfl, sound'⟩ := follows.error sound done
    rw [came]
    exact ⟨rfl, rfl, sound'⟩

/-- A resolver of one's own has no answers yet, which is sound. -/
theorem renewed (follows : Follows r x y) : Follows r (Weaving.renewed x) (Weaving.renewed y) := fun w _ =>
  follows { w with imports := { imports := w.imports.imports } } ⟨nofun, nofun⟩

theorem mapM {f : α → WeavingWith Recollection β} {g : α → Weaving β} (each : ∀ a, Follows r (f a) (g a)) (l : List α) :
    Follows r (l.mapM f) (l.mapM g) := by
  induction l with
  | nil => exact pure []
  | cons a l ih =>
    rw [List.mapM_cons, List.mapM_cons]
    exact (each a).bind fun b => ih.bind fun bs => pure (b :: bs)

theorem forM {f : α → WeavingWith Recollection Unit} {g : α → Weaving Unit} (each : ∀ a, Follows r (f a) (g a)) (l : List α) :
    Follows r (l.forM f) (l.forM g) := by
  induction l with
  | nil => exact pure ()
  | cons a l ih => exact (each a).bind fun _ => ih

end WeavingWith.Follows

section Weaves

open WeavingWith (Follows)

variable (r : Resolver) (policy : Policy)

theorem kindsAmong_follows (entries : List DefinitionEntry) :
    Follows r (kindsAmong r policy entries) (kindsAmong r policy entries) := by
  induction entries with
  | nil => exact .pure []
  | cons e rest ih =>
    unfold kindsAmong
    split
    · exact ih
    · refine (Follows.attempt (decoratorKind_follows r e)).bind fun result => ?_
      cases result with
      | ok kind => exact ih.bind fun others => .pure _
      | error fault => exact (Follows.report _).bind fun _ => ih

theorem targetOf?_follows (kinds : List DecoratorKind) (t : TypeDef) (d : MethodDef) (a : Attribute) :
    Follows r (targetOf? kinds t d a) (targetOf? kinds t d a) := by
  unfold targetOf?
  repeat' first
    | exact .pure _
    | refine (Follows.report _).bind fun _ => ?_
    | split

/-- The same targets are discovered. -/
theorem discover_follows (m : Module) : Follows r (discover m r policy) (discover m r policy) := by
  have kinds : Follows r (decoratorKinds r policy) (decoratorKinds r policy) := by
    unfold decoratorKinds
    split
    · exact (Follows.report _).bind fun _ => .pure []
    · exact kindsAmong_follows r policy _
  refine kinds.bind fun kinds => ?_
  split
  · exact .pure []
  · refine (Follows.mapM (fun e : TypeDef × MethodDef × Attribute => targetOf?_follows r kinds e.1 e.2.1 e.2.2) _).bind
      fun found => ?_
    exact (Follows.report _).bind fun _ => .pure _

theorem weaveBody_follows (fullName : String) (d : MethodDef) (kind : DecoratorKind) (declaringType : Token) :
    Follows r (weaveBody r policy fullName d kind declaringType) (weaveBody r policy fullName d kind declaringType) := by
  unfold weaveBody
  cases d.body with
  | none => exact .pure _
  | some body =>
    refine (Follows.attempt (planWeave_follows r _ _ _ _)).bind fun result => ?_
    cases result with
    | error fault => exact .pure _
    | ok plan =>
      dsimp only
      repeat' first
        | exact .pure _
        | refine (Follows.trace _).bind fun _ => ?_
        | split

theorem decorate_follows (d : MethodDef) (kind : DecoratorKind) (declaringType : Token) :
    Follows r (decorate r policy d kind declaringType) (decorate r policy d kind declaringType) := by
  refine (weaveBody_follows r policy _ d kind declaringType).bind fun result => ?_
  cases result with
  | error fault => exact .pure _
  | ok body => exact (Follows.report _).bind fun _ => .pure _

/-- The decorators of a method come to the same. -/
theorem decorateAll_follows (declaringType : Token) (decorations : List Decoration) (d : MethodDef) :
    Follows r (decorateAll r policy declaringType decorations d) (decorateAll r policy declaringType decorations d) := by
  induction decorations generalizing d with
  | nil => exact .pure _
  | cons e rest ih =>
    refine (decorate_follows r policy d e.kind declaringType).bind fun result => ?_
    cases result with
    | error fault => exact .pure _
    | ok woven => exact ih woven

/-- Jobs come to the same in any order, each with the answers that those before it have left. -/
theorem weaveJobs_follows (m : Module) (jobs : List WeaveJob) :
    Follows r (weaveJobs m r policy jobs) (weaveJobs m r policy jobs) := by
  induction jobs with
  | nil => exact .pure []
  | cons job rest ih =>
    unfold weaveJobs
    split
    · exact (decorateAll_follows r policy _ _ _).bind fun result => ih.bind fun others => .pure _
    · exact ih

theorem weaveTargets_follows (m : Module) (s : Schedule) :
    Follows r (weaveTargets m r policy s) (weaveTargets m r policy s) := by
  refine (discover_follows r policy m).bind fun targets => ?_
  split
  · exact (Follows.report _).bind fun _ => .pure []
  · refine (Follows.renewed (weaveJobs_follows r policy m _)).bind fun results => ?_
    refine (Follows.forM (fun failure => Follows.report (failureDiagnostic failure)) _).bind fun _ => ?_
    exact (Follows.report _).bind fun _ => .pure _

/-- A module is woven to the same whether answers are kept or not, and the same is reported. -/
theorem weaveModuleWith_recollection (m : Module) (s : Schedule) :
    weaveModuleWith Recollection m policy s = weaveModule m policy s := by
  let start : Workspace Recollection := { imports := { imports := m.imports }, diagnostics := { recordsInfo := policy.reportsInfo } }
  let done := weaveTargets m (.ofModule m) policy s start
  obtain ⟨results, finish, -⟩ := weaveTargets_follows (.ofModule m) policy m s start ⟨nofun, nofun⟩
  have whole : weaveModuleWith Recollection m policy s = ({ m.commit done.1 with imports := done.2.forget.imports },
      { woven := wovenAmong done.1, failed := failedAmong done.1, diagnostics := done.2.forget.diagnostics }) := rfl
  rw [whole, results, finish]
  rfl

end Weaves

end AspectWeaving

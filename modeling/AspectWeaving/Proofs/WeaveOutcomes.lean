import AspectWeaving.Proofs.Anchors
import AspectWeaving.Proofs.HookDiscipline
import AspectWeaving.Proofs.WovenValidity

/-!
What weaving a valid body comes to. A weave needs some names, a place for the prologue, few enough arguments
and five more slots; where it fails one of them is missing (`Refusal`). In all other cases it succeeds, and
the woven body is valid again, so it never fails because the new body is not valid (`decorate_of_valid`).
-/
namespace AspectWeaving

/-! ### Look-ups -/

/-- The fault of a name that does not resolve. -/
def Fault.isUnresolved : Fault → Bool
  | .typeNotFound _ | .memberNotFound _ _ => true
  | _ => false

/-- A name does not resolve, since what an import needs is not there. -/
def Unresolved (needed : Prop) (fault : Fault) : Prop := fault.isUnresolved = true ∧ ¬ needed

/-- An import fails for some faults only. -/
def Importing.FailsFor {α : Type} (x : Importing α) (t : ImportTable) (refuses : Fault → Prop) : Prop :=
  ∀ fault u, x t = .error fault u → refuses fault

namespace Importing.FailsFor

variable {α β : Type} {x : Importing α} {t : ImportTable} {refuses refuses' : Fault → Prop}

theorem pure (a : α) : FailsFor (pure a) t refuses := nofun

theorem imp (fails : FailsFor x t refuses) (weaker : ∀ fault, refuses fault → refuses' fault) : FailsFor x t refuses' :=
  fun fault u failed => weaker fault (fails fault u failed)

theorem bind {f : α → Importing β} (first : FailsFor x t refuses)
    (second : ∀ a u, x t = .ok a u → FailsFor (f a) u refuses) : FailsFor (x >>= f) t refuses := by
  intro fault u failed
  change EStateM.bind x f t = _ at failed
  unfold EStateM.bind at failed
  cases done : x t with
  | ok a v =>
    rw [done] at failed
    exact second a v done fault u failed
  | error cause v =>
    rw [done] at failed
    cases failed
    exact first _ _ done

theorem mapM {f : α → Importing β} {l : List α} (each : ∀ a ∈ l, ∀ t, FailsFor (f a) t refuses) :
    FailsFor (l.mapM f) t refuses := by
  induction l generalizing t with
  | nil => exact .pure []
  | cons a l ih =>
    rw [List.mapM_cons]
    refine (each a List.mem_cons_self t).bind fun b u _ => ?_
    exact (ih fun a later => each a (List.mem_cons_of_mem _ later)).bind fun bs v _ => .pure (b :: bs)

end Importing.FailsFor

open Importing (FailsFor)

namespace Resolver

variable {r : Resolver} {t : ImportTable}

/-- A type is there. -/
def HasType (r : Resolver) : TypeLocator → Prop
  | .definition token => (r.definitions.get? token).isSome
  | .external name => r.library.contains name

/-- A type of the library has a method that is asked for. -/
def HasMethod (r : Resolver) (host : TypeName) (q : MethodQuery) : Prop :=
  r.library.contains host ∧ (r.findLibraryMethod? host q).isSome

/-- The type of a signature is there; of the built-in ones it depends on the library. -/
def HasSig (r : Resolver) (sig : TypeSig) : Prop := ∀ name, sig.builtinName? = some name → r.library.contains name

/-- The type that values of a signature are boxed as is there. -/
def HasBox (r : Resolver) (sig : TypeSig) : Prop := sig.isValueType = true → r.HasSig sig

/-- All that a weave of a method with a decorator looks up is there. -/
structure Knows (r : Resolver) (d : MethodDef) (kind : DecoratorKind) : Prop where
  getMethodFromHandle : r.HasMethod WellKnown.methodBase
    (({ name := "GetMethodFromHandle" } : MethodQuery).withTypes
      [WellKnown.methodHandle.fullName, WellKnown.typeHandle.fullName])
  getCustomAttributes : r.HasMethod WellKnown.methodBase
    (({ name := "GetCustomAttributes" } : MethodQuery).withTypes
      [WellKnown.type.fullName, WellKnown.boolean.fullName])
  getTypeFromHandle : r.HasMethod WellKnown.type
    (({ name := "GetTypeFromHandle" } : MethodQuery).withTypes [WellKnown.typeHandle.fullName])
  attributeType : r.HasType (.definition kind.attributeType)
  parameters : ∀ p ∈ d.parameters, r.HasBox (p.sig.byRefElement?.getD p.sig)
  result : r.HasBox d.result
  methodBase : r.HasType (.external WellKnown.methodBase)
  exception : r.HasType (.external WellKnown.exception)
  object : r.HasType (.external WellKnown.object)

theorem resolveType_failsFor (locator : TypeLocator) :
    FailsFor (r.resolveType locator) t (Unresolved (r.HasType locator)) := by
  intro fault u failed
  cases locator <;> simp only [resolveType] at failed <;> split at failed <;> cases failed
  all_goals exact ⟨rfl, by assumption⟩

theorem resolveMethod_failsFor (host : TypeName) (q : MethodQuery) :
    FailsFor (r.resolveMethod (.external host) q) t (Unresolved (r.HasMethod host q)) := by
  intro fault u failed
  simp only [resolveMethod] at failed
  split at failed
  · unfold resolveLibraryMethod at failed
    cases found : r.findLibraryMethod? host q with
    | some method =>
      simp only [found] at failed
      cases failed
    | none =>
      simp only [found] at failed
      cases failed
      exact ⟨rfl, fun has => by simpa [found] using has.2⟩
  · rename_i unknown
    cases failed
    exact ⟨rfl, fun has => unknown has.1⟩

theorem importType_failsFor (sig : TypeSig) : FailsFor (r.importType sig) t (Unresolved (r.HasSig sig)) := by
  have builtin : ∀ name, sig.builtinName? = some name →
      FailsFor (r.resolveType (.external name)) t (Unresolved (r.HasSig sig)) := by
    intro name named
    refine (resolveType_failsFor _).imp fun fault missing => ⟨missing.1, fun has => missing.2 (has name named)⟩
  cases sig with
  | classType | valueType | array | byRef => nofun
  | _ => exact builtin _ rfl

end Resolver

/-! ### Plans -/

/-- Why a method is not woven, with what is missing. -/
inductive Refusal (r : Resolver) (rows : ImportTable) (d : MethodDef) (b : Body) (kind : DecoratorKind) (fullName : String) :
    Fault → Prop
  | name {fault : Fault} (unresolved : fault.isUnresolved = true) (unknown : ¬ r.Knows d kind) :
      Refusal r rows d b kind fullName fault
  | chains {cause : ShapeFault} (shape : cause = .noChainedCall ∨ cause = .returnsBeforeChainedCall)
      (constructor : d.isConstructor = true) (free : ¬ b.Chains r rows) :
      Refusal r rows d b kind fullName (.invalidShape fullName cause)
  | arguments (many : 0x10000 < d.signature.argumentCount) :
      Refusal r rows d b kind fullName (.invalidShape fullName .tooManyParameters)
  | slots (few : Body.maxSlots < b.slots.size + 5) : Refusal r rows d b kind fullName (.malformed .tooManySlots)

section Planning

variable {r : Resolver} {t rows : ImportTable} {d : MethodDef} {b : Body} {kind : DecoratorKind} {fullName : String}

private theorem Unresolved.refusal {needed : Prop} (part : r.Knows d kind → needed) (fault : Fault)
    (missing : Unresolved needed fault) : Refusal r rows d b kind fullName fault :=
  .name missing.1 fun knows => missing.2 (part knows)

/-- A type is only looked up for values to box. -/
private theorem box_failsFor {α : Type} {sig : TypeSig} {boxed : Token → α} {plain : α} :
    FailsFor (if sig.isValueType then r.importType sig >>= fun type => pure (boxed type) else pure plain) t
      (Unresolved (r.HasBox sig)) := by
  split
  · rename_i valued
    refine FailsFor.bind ?_ fun type u _ => .pure _
    exact (r.importType_failsFor sig).imp fun fault missing => ⟨missing.1, fun box => missing.2 (box valued)⟩
  · exact .pure plain

theorem planParameter_failsFor {faults : ShapeFault → Fault} {s : Signature} (index : Nat) (sig : TypeSig) :
    FailsFor (planParameter r faults s index sig) t fun fault =>
      Unresolved (r.HasBox (sig.byRefElement?.getD sig)) fault ∨
        fault = faults .tooManyParameters ∧ ¬ s.argumentIndex index < 0x10000 := by
  simp only [planParameter]
  split
  · cases sig.byRefElement? <;> exact box_failsFor.imp fun _ => .inl
  · rename_i many
    intro fault u failed
    cases failed
    exact .inr ⟨rfl, many⟩

private theorem parameters_failFor : FailsFor
    (d.parameters.zipIdx.mapM fun e => planParameter r (Fault.invalidShape fullName) d.signature e.2 e.1.sig) t
    (Refusal r rows d b kind fullName) := by
  refine FailsFor.mapM fun e member t => (planParameter_failsFor e.2 e.1.sig).imp ?_
  have listed := List.mem_zipIdx_iff_getElem?.mp member
  rintro fault (missing | ⟨rfl, many⟩)
  · exact Unresolved.refusal (fun knows => knows.parameters e.1 (List.mem_of_getElem? listed)) fault missing
  · have bound : e.2 < d.parameters.length := (List.getElem?_eq_some_iff.mp listed).1
    refine .arguments ?_
    simp only [Signature.argumentCount, Signature.argumentIndex, Method.signature] at many ⊢
    omega

private theorem types_failFor {plan : Token → Token → Token → WeavePlan} : FailsFor
    (do
      let methodBase ← r.resolveType (.external WellKnown.methodBase)
      let exception ← r.resolveType (.external WellKnown.exception)
      let object ← r.resolveType (.external WellKnown.object)
      return plan methodBase exception object) t
    (Refusal r rows d b kind fullName) :=
  ((r.resolveType_failsFor _).imp (Unresolved.refusal (·.methodBase))).bind fun _ _ _ =>
    ((r.resolveType_failsFor _).imp (Unresolved.refusal (·.exception))).bind fun _ _ _ =>
      ((r.resolveType_failsFor _).imp (Unresolved.refusal (·.object))).bind fun _ _ _ => .pure _

/-- With an anchor a plan is found, unless a name is unknown or there are too many arguments. -/
theorem planWeave_failsFor (anchored : ∃ anchor, findAnchor r t b d.isConstructor = .ok anchor) :
    FailsFor (planWeave r fullName d b kind) t (Refusal r rows d b kind fullName) := by
  obtain ⟨anchor, anchored⟩ := anchored
  unfold planWeave
  refine FailsFor.bind nofun fun table v got => ?_
  cases got
  simp only [Lookups.rows_self, Lookups.find_type, Lookups.find_method, Lookups.find_signature, anchored]
  refine FailsFor.bind (.pure anchor) fun _ v same => ?_
  cases same
  refine ((r.resolveMethod_failsFor _ _).imp (Unresolved.refusal (·.getMethodFromHandle))).bind fun _ _ _ => ?_
  refine ((r.resolveMethod_failsFor _ _).imp (Unresolved.refusal (·.getCustomAttributes))).bind fun _ _ _ => ?_
  refine ((r.resolveMethod_failsFor _ _).imp (Unresolved.refusal (·.getTypeFromHandle))).bind fun _ _ _ => ?_
  refine ((r.resolveType_failsFor _).imp (Unresolved.refusal (·.attributeType))).bind fun _ _ _ => ?_
  refine parameters_failFor.bind fun _ _ _ => ?_
  split
  · rename_i valued
    refine FailsFor.bind (FailsFor.bind ?_ fun _ _ _ => .pure _) fun _ _ _ => types_failFor
    exact (r.importType_failsFor _).imp (Unresolved.refusal fun knows => knows.result valued)
  · exact FailsFor.bind (.pure none) fun _ _ _ => types_failFor

theorem planWeave_of_unanchored {cause : ShapeFault} (unanchored : findAnchor r t b d.isConstructor = .error cause) :
    planWeave r fullName d b kind t = .error (.invalidShape fullName cause) t := by
  have start : (get : Importing ImportTable) t = .ok t t := rfl
  unfold planWeave
  change EStateM.bind get _ t = _
  unfold EStateM.bind
  rw [start]
  simp only [Lookups.rows_self, unanchored]
  rfl

end Planning

/-! ### Bodies -/

/-- Slots are refused where there are too many. -/
theorem Body.foldlM_addSlot_error {b : Body} {added : List LocalSlot} {fault : Fault}
    (failed : added.foldlM addSlot b = .error fault) :
    fault = .malformed .tooManySlots ∧ maxSlots < b.slots.size + added.length := by
  induction added generalizing b with
  | nil => cases failed
  | cons slot rest ih =>
    rw [List.foldlM_cons, addSlot] at failed
    rw [List.length_cons]
    split at failed
    · obtain ⟨same, few⟩ := ih failed
      rw [Array.size_push] at few
      exact ⟨same, by omega⟩
    · cases failed
      exact ⟨rfl, by omega⟩

section Bodies

variable {r : Resolver} {policy : Policy} {d : MethodDef} {kind : DecoratorKind} {declaringType method : Token} {b : Body}
  {plan : WeavePlan} {fullName : String} {w : Workspace} {rows : ImportTable} {fault : Fault}

/-- Nothing but a lack of slots keeps a plan from being carried out. -/
theorem splice_cases {place : Nat} (anchor : b.code.order[place]? = some plan.anchor) :
    (∃ spliced, plan.splice b method declaringType = .ok spliced) ∨
      plan.splice b method declaringType = .error (.malformed .tooManySlots) ∧ Body.maxSlots < b.slots.size + 5 := by
  have stands : ∀ f, (b.code.mapInstructions f).position? plan.anchor = some place := fun f =>
    Code.position?_eq_some_iff.mpr anchor
  unfold WeavePlan.splice
  cases enlarged : plan.slots.foldlM Body.addSlot b with
  | error fault =>
    obtain ⟨rfl, few⟩ := Body.foldlM_addSlot_error enlarged
    rw [Weave.length_slots] at few
    exact .inr ⟨rfl, few⟩
  | ok enlarged =>
    simp only [bind, Except.bind, Code.insertAllBefore?, stands, Option.map_some]
    exact .inl ⟨_, rfl⟩

private theorem weaveBody_of_refused (has : d.body = some b)
    (refused : planWeave r fullName d b kind w.imports = .error fault rows) :
    (weaveBody r policy fullName d kind declaringType w).1 = .error fault := by
  have attempted : Weaving.attempt (planWeave r fullName d b kind) w = (.error fault, { w with imports := rows }) := by
    simp only [Weaving.attempt, modifyGet, MonadStateOf.modifyGet, StateT.modifyGet, EStateM.run, refused]
    rfl
  unfold weaveBody
  simp only [has]
  change (StateT.bind (Weaving.attempt (planWeave r fullName d b kind)) _ w).1 = _
  unfold StateT.bind
  rw [attempted]
  rfl

private theorem weaveBody_of_planned (has : d.body = some b)
    (planned : planWeave r fullName d b kind w.imports = .ok plan rows) :
    (∀ fault, plan.splice b d.token declaringType = .error fault →
      (weaveBody r policy fullName d kind declaringType w).1 = .error fault) ∧
    ∀ spliced, plan.splice b d.token declaringType = .ok spliced → spliced.widen.1.validate = .ok () →
      (weaveBody r policy fullName d kind declaringType w).1 = .ok spliced.widen.1 := by
  have attempted : Weaving.attempt (planWeave r fullName d b kind) w = (.ok plan, { w with imports := rows }) := by
    simp only [Weaving.attempt, modifyGet, MonadStateOf.modifyGet, StateT.modifyGet, EStateM.run, planned]
    rfl
  unfold weaveBody
  simp only [has]
  change (∀ fault, _ → (StateT.bind (Weaving.attempt (planWeave r fullName d b kind)) _ w).1 = _) ∧
    ∀ spliced, _ → _ → (StateT.bind (Weaving.attempt (planWeave r fullName d b kind)) _ w).1 = _
  unfold StateT.bind
  rw [attempted]
  constructor
  · intro fault failed
    simp only [failed, bind]
    rfl
  · intro spliced done valid
    -- Neither the count of widened branches nor the policy matters for the result.
    have checked : (spliced.widen.1.validate.map fun _ => spliced.widen.1) = .ok spliced.widen.1 := by
      rw [valid]
      rfl
    simp only [done, bind]
    split <;> split <;> first | exact checked | rfl

theorem decorate_fst : (decorate r policy d kind declaringType w).1 =
    ((weaveBody r policy (r.describe (.definition declaringType) ++ "::" ++ d.name) d kind declaringType w).1.mapError
      (Fault.weaveFailed (r.describe (.definition declaringType) ++ "::" ++ d.name))).map
        fun body => { d with body := some body } := by
  unfold decorate
  simp only [bind, StateT.bind]
  rcases weaveBody r policy (r.describe (.definition declaringType) ++ "::" ++ d.name) d kind declaringType w with ⟨result, v⟩
  cases result <;> rfl

private theorem weaveBody_of_valid (has : d.body = some b) (valid : b.Valid) :
    (∃ new, (weaveBody r policy fullName d kind declaringType w).1 = .ok new ∧ new.Valid) ∨
      ∃ fault, (weaveBody r policy fullName d kind declaringType w).1 = .error fault ∧
        Refusal r w.imports d b kind fullName fault := by
  rcases valid.findAnchor_cases r w.imports d.isConstructor with ⟨-, anchored⟩ | ⟨constructor, free, unanchored⟩
  · cases planned : planWeave r fullName d b kind w.imports with
    | error fault rows =>
      exact .inr ⟨fault, weaveBody_of_refused has planned, planWeave_failsFor anchored fault rows planned⟩
    | ok plan rows =>
      obtain ⟨crowded, woven⟩ :=
        @weaveBody_of_planned r policy d kind declaringType b plan fullName w rows has planned
      obtain ⟨found, -, plannedFor⟩ := planWeave_plannedFor planned
      obtain ⟨place, anchor⟩ := exists_position_of_findAnchor found
      rcases @splice_cases declaringType d.token b plan place anchor with ⟨spliced, done⟩ | ⟨failed, few⟩
      · have splices := @Weave.splices_of_splice ⟨plan, b, d.token, declaringType⟩ place spliced anchor done
        have stays := (splices.valid plannedFor.fetches valid).widen
        exact .inl ⟨_, woven spliced done (Body.validate_eq_ok_iff.mpr stays), stays⟩
      · exact .inr ⟨_, crowded _ failed, .slots few⟩
  · have refused : ∀ {cause}, findAnchor r w.imports b d.isConstructor = .error cause →
        (weaveBody r policy fullName d kind declaringType w).1 = .error (.invalidShape fullName cause) :=
      fun failed => weaveBody_of_refused has (planWeave_of_unanchored failed)
    rcases unanchored with failed | failed
    · exact .inr ⟨_, refused failed, .chains (.inl rfl) constructor free⟩
    · exact .inr ⟨_, refused failed, .chains (.inr rfl) constructor free⟩

/-- A weave of a valid body makes a valid body, or it fails because a name is unknown, a constructor has no
    call of another one to go behind, there are too many arguments or too few slots are left. -/
theorem decorate_of_valid (has : d.body = some b) (valid : b.validate = .ok ()) :
    (∃ new, (decorate r policy d kind declaringType w).1 = .ok { d with body := some new } ∧ new.validate = .ok ()) ∨
      ∃ fault, (decorate r policy d kind declaringType w).1 =
          .error (.weaveFailed (r.describe (.definition declaringType) ++ "::" ++ d.name) fault) ∧
        Refusal r w.imports d b kind (r.describe (.definition declaringType) ++ "::" ++ d.name) fault := by
  rw [decorate_fst]
  rcases weaveBody_of_valid has (Body.validate_eq_ok_iff.mp valid) with ⟨new, woven, stays⟩ | ⟨fault, failed, refusal⟩
  · rw [woven]
    exact .inl ⟨new, rfl, Body.validate_eq_ok_iff.mpr stays⟩
  · rw [failed]
    exact .inr ⟨fault, rfl, refusal⟩

end Bodies

namespace Sample

/-- A method that raises what it catches once more. Its clause runs up to the end. -/
def guarded : MethodDef where
  name := "Guarded"
  modifiers := { isStatic := true }
  body := some
    { code := .ofList [⟨.leaveS, .target ⟨1⟩⟩, ⟨.ret, .none⟩, ⟨.pop, .none⟩, ⟨.rethrow, .none⟩]
      handlers := [{ guarded := ⟨⟨0⟩, some ⟨1⟩⟩, handling := ⟨⟨2⟩, none⟩, catchType := none }] }
  attributes := [{ type := .ofParts Token.typeDef 1 }]
  token := .ofParts Token.methodDef 4

/-- The method is woven, and its new body is valid. -/
theorem guarded_woven_validly :
    (guarded.body.get rfl).validate = .ok () ∧
      ∃ new, (decorate (.ofModule module) {} guarded kind (.ofParts Token.typeDef 2) { imports := rows }).1 =
        .ok { guarded with body := some new } ∧ new.validate = .ok () := by
  have valid : (guarded.body.get rfl).validate = .ok () := isOk_eq_true_iff.mp (by decide +kernel)
  have done : (decorate (.ofModule module) {} guarded kind (.ofParts Token.typeDef 2) { imports := rows }).1.isOk = true := by
    decide +kernel
  refine ⟨valid, ?_⟩
  obtain woven | ⟨fault, failed, -⟩ :=
    @decorate_of_valid (.ofModule module) {} guarded kind (.ofParts Token.typeDef 2) _ { imports := rows } rfl valid
  · exact woven
  · rw [failed] at done
    cases done

end Sample

end AspectWeaving

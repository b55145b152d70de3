import AspectWeaving.Proofs.BodyChanges
import AspectWeaving.Proofs.CompactSteps
import AspectWeaving.Proofs.Following

/-!
Steps that follow one another. Where two frames have the same values along a map of heaps (`Frame.Mapped`), an
instruction does the same in both: it has the same effect along the map, or fails with the same fault
(`follows_step`).
-/
namespace AspectWeaving

open Running (compute fail allocate modifyObject Follows Echoes Computed)

/-! ### Reading heaps -/

section Heaps

variable {σ : HeapMap} {h h' : Heap} {a b : HeapRef} {v w : Value}

theorem Heap.Mapped.get_eq_ok (mapped : h.Mapped σ h') (takes : σ.Takes a b) :
    ∃ o o', h.get a = .ok o ∧ h'.get b = .ok o' ∧ o.Mapped σ o' := by
  obtain ⟨o, o', here, there, same⟩ := mapped.object takes
  exact ⟨o, o', by rw [Heap.get, here], by rw [Heap.get, there], same⟩

theorem computed_get (mapped : h.Mapped σ h') (takes : σ.Takes a b) :
    Computed (HeapObject.Mapped σ) (h.get a) (h'.get b) := by
  obtain ⟨o, o', here, there, same⟩ := mapped.get_eq_ok takes
  rw [here, there]
  exact .ok same

theorem computed_object (mapped : h.Mapped σ h') (value : v.Mapped σ w) :
    Computed (HeapObject.Mapped σ) (h.object v) (h'.object w) := by
  cases value with
  | ref takes => exact computed_get mapped takes
  | plain none => cases v <;> first | exact .error | cases none

theorem computed_array (mapped : h.Mapped σ h') (value : v.Mapped σ w) :
    Computed (fun xs ys => List.Forall₂ (Value.Mapped σ) xs.toList ys.toList) (h.array v) (h'.array w) := by
  refine (computed_object mapped value).bind fun o o' object => ?_
  cases object with
  | array elements => exact .ok elements
  | _ => exact .error

theorem computed_string (mapped : h.Mapped σ h') (value : v.Mapped σ w) : Computed Eq (h.string v) (h'.string w) := by
  refine (computed_object mapped value).bind fun o o' object => ?_
  cases object with
  | string value => exact .ok rfl
  | _ => exact .error

theorem computed_unboxValue (mapped : h.Mapped σ h') (value : v.Mapped σ w) :
    Computed (Value.Mapped σ) (unboxValue h v) (unboxValue h' w) := by
  refine (computed_object mapped value).bind fun o o' object => ?_
  cases object with
  | boxed inner => exact .ok inner
  | _ => exact .ok value

theorem computed_element {xs ys : Array Value} (elements : List.Forall₂ (Value.Mapped σ) xs.toList ys.toList) (index : Int32) :
    Computed (Value.Mapped σ) (Heap.element xs index) (Heap.element ys index) := by
  have size : ys.size = xs.size := by simpa using elements.length_eq.symm
  unfold Heap.element
  rw [size]
  refine Computed.bind (P := Eq) (.self rfl fun _ _ => rfl) fun place _ same => same ▸ .ok ?_
  have here := forall₂_iff_getElem?.mp elements place
  simp only [Array.getElem?_toList] at here
  simp only [Array.getD_eq_getD_getElem?]
  generalize xs[place]? = x, ys[place]? = y at here
  cases here with
  | some both => exact both
  | none => exact Value.mapped_null

theorem isInstance_mapped {B : MethodDef → Body → Body → Prop} {m m' : Module} (modules : m.Alters B m')
    (mapped : h.Mapped σ h') (takes : σ.Takes a b) (type : Token) : isInstance m' h' b type = isInstance m h a type := by
  obtain ⟨o, o', here, there, same⟩ := mapped.get_eq_ok takes
  unfold isInstance
  rw [modules.naming_eq, here, there]
  simp only [Except.map, same.typeNames, modules.typeNames_eq]

theorem checkCast_mapped {B : MethodDef → Body → Body → Prop} {m m' : Module} (modules : m.Alters B m')
    (mapped : h.Mapped σ h') (takes : σ.Takes a b) (type : Token) : checkCast m' h' b type = checkCast m h a type := by
  have instances := isInstance_mapped modules mapped takes type
  obtain ⟨o, o', here, there, same⟩ := mapped.get_eq_ok takes
  unfold checkCast
  rw [here, there, instances]
  simp only [bind, Except.bind, same.isChecked, same.typeNames, modules.tokenName?_eq, modules.typeNames_eq]

theorem dispatch_mapped {B : MethodDef → Body → Body → Prop} {m m' : Module} (modules : m.Alters B m')
    (mapped : h.Mapped σ h') {v? w? : Option Value} (this : Option.Rel (Value.Mapped σ) v? w?) (target : Token) :
    dispatch m' h' target w? = dispatch m h target v? := by
  rw [modules.dispatch_eq]
  cases this with
  | none => rfl
  | some value =>
    cases value with
    | plain none => rename_i v; cases v <;> first | rfl | cases none
    | ref takes =>
      obtain ⟨o, o', here, there, same⟩ := mapped.get_eq_ok takes
      unfold dispatch
      dsimp only
      rw [here, there]
      cases same <;> rfl

end Heaps

/-! ### Frames -/

/-- Catch clauses under way with the same exception along a map. -/
structure ActiveClause.Mapped (σ : HeapMap) (c d : ActiveClause) : Prop where
  index : d.index = c.index
  exception : σ.Takes c.exception d.exception

/-- Frames that have the same values along a map. The second one may have further slots, and values in slots that
    the first one has not set. -/
structure Frame.Mapped (σ : HeapMap) (f g : Frame) : Prop where
  returnsValue : g.activation.returnsValue = f.activation.returnsValue
  arguments : List.Forall₂ (Value.Mapped σ) f.activation.arguments.toList g.activation.arguments.toList
  slots : ∀ {n : Nat} {o}, f.slots[n]? = some o → ∃ o', g.slots[n]? = some o' ∧ ∀ v ∈ o, ∃ w ∈ o', v.Mapped σ w
  stack : List.Forall₂ (Value.Mapped σ) f.stack g.stack
  active : List.Forall₂ (ActiveClause.Mapped σ) f.active g.active

/-- Effects of instructions that are the same along a map. -/
inductive Effect.Mapped (σ : HeapMap) : Effect → Effect → Prop
  | next : Mapped σ .next .next
  | store (slot : Nat) {v w : Value} (value : v.Mapped σ w) : Mapped σ (.store slot v) (.store slot w)
  | jump (target : Handle) : Mapped σ (.jump target) (.jump target)
  | leave (target : Handle) : Mapped σ (.leave target) (.leave target)
  | exit {v w : Value} (value : v.Mapped σ w) : Mapped σ (.exit v) (.exit w)
  | throw {a b : HeapRef} (takes : σ.Takes a b) : Mapped σ (.throw a) (.throw b)
  | call (target : Token) {vs ws : List Value} (arguments : List.Forall₂ (Value.Mapped σ) vs ws) (dynamic : Bool) :
    Mapped σ (.call target vs dynamic) (.call target ws dynamic)
  | construct (target : Token) {vs ws : List Value} (arguments : List.Forall₂ (Value.Mapped σ) vs ws) :
    Mapped σ (.construct target vs) (.construct target ws)

/-- Stacks and effects that are the same along a map. -/
def SteppedAlike (σ : HeapMap) (r r' : List Value × Effect) : Prop :=
  List.Forall₂ (Value.Mapped σ) r.1 r'.1 ∧ r.2.Mapped σ r'.2

section Frames

variable {σ τ : HeapMap} {f g : Frame}

theorem ActiveClause.Mapped.mono {c d : ActiveClause} (mapped : c.Mapped σ d) (grows : σ <+: τ) : c.Mapped τ d :=
  ⟨mapped.index, mapped.exception.mono grows⟩

namespace Frame.Mapped

theorem mono (mapped : f.Mapped σ g) (grows : σ <+: τ) : f.Mapped τ g where
  returnsValue := mapped.returnsValue
  arguments := Value.mapped_all_mono mapped.arguments grows
  slots here := by
    obtain ⟨o', there, values⟩ := mapped.slots here
    refine ⟨o', there, fun v own => ?_⟩
    obtain ⟨w, other, same⟩ := values v own
    exact ⟨w, other, same.mono grows⟩
  stack := Value.mapped_all_mono mapped.stack grows
  active := mapped.active.imp fun _ _ clause => clause.mono grows

theorem computed_slot (mapped : f.Mapped σ g) (index : Nat) :
    Computed (Value.Mapped σ) (f.slot index) (g.slot index) := by
  unfold Frame.slot
  cases here : f.slots[index]? with
  | none => exact .fatal rfl
  | some o =>
    obtain ⟨o', there, values⟩ := mapped.slots here
    rw [there]
    cases o with
    | none => exact .fatal rfl
    | some v =>
      obtain ⟨w, rfl, same⟩ := values v rfl
      exact .ok same

theorem computed_checkSlot (mapped : f.Mapped σ g) (index : Nat) :
    Computed (fun _ _ => True) (f.checkSlot index) (g.checkSlot index) := by
  unfold Frame.checkSlot
  by_cases inside : index < f.slots.size
  · obtain ⟨o', there, -⟩ := mapped.slots (Array.getElem?_eq_getElem inside)
    rw [if_pos inside, if_pos (Array.getElem?_eq_some_iff.mp there).1]
    exact .ok trivial
  · rw [if_neg inside]
    exact .fatal rfl

theorem computed_argument (mapped : f.Mapped σ g) (index : Nat) :
    Computed (Value.Mapped σ) (f.activation.argument index) (g.activation.argument index) := by
  have size : g.activation.arguments.size = f.activation.arguments.size := by simpa using mapped.arguments.length_eq.symm
  have here := forall₂_iff_getElem?.mp mapped.arguments index
  unfold Activation.argument
  rw [size]
  simp only [Array.getElem?_toList] at here
  generalize f.activation.arguments[index]? = x, g.activation.arguments[index]? = y at here
  cases here with
  | some both => exact .ok both
  | none => exact .error

theorem store (mapped : f.Mapped σ g) {v w : Value} (value : v.Mapped σ w) (index : Nat) :
    (f.store index v).Mapped σ (g.store index w) where
  returnsValue := mapped.returnsValue
  arguments := mapped.arguments
  slots {n o} here := by
    by_cases same : index = n
    · subst same
      have inside : index < f.slots.size := by
        have bound := (Array.getElem?_eq_some_iff.mp here).1
        simpa [Frame.store] using bound
      obtain ⟨o', there, -⟩ := mapped.slots (Array.getElem?_eq_getElem inside)
      rw [Frame.store, Array.getElem?_setIfInBounds_self_of_lt inside] at here
      cases here
      refine ⟨some w, Array.getElem?_setIfInBounds_self_of_lt (Array.getElem?_eq_some_iff.mp there).1, ?_⟩
      intro u own
      cases own
      exact ⟨w, rfl, value⟩
    · rw [Frame.store, Array.getElem?_setIfInBounds_ne same] at here
      obtain ⟨o', there, values⟩ := mapped.slots here
      exact ⟨o', by rw [Frame.store, Array.getElem?_setIfInBounds_ne same]; exact there, values⟩
  stack := mapped.stack
  active := mapped.active

theorem withStack (mapped : f.Mapped σ g) {vs ws : List Value} (stack : List.Forall₂ (Value.Mapped σ) vs ws) :
    ({ f with stack := vs } : Frame).Mapped σ { g with stack := ws } :=
  ⟨mapped.returnsValue, mapped.arguments, mapped.slots, stack, mapped.active⟩

theorem receive (mapped : f.Mapped σ g) {v w : Value} (value : v.Mapped σ w) : (f.receive v).Mapped σ (g.receive w) := by
  cases value with
  | ref takes => exact mapped.withStack (.cons (.ref takes) mapped.stack)
  | plain none => cases v <;> first | exact mapped | exact mapped.withStack (.cons (.plain none) mapped.stack)

end Frame.Mapped

end Frames

/-! ### Stacks -/

section Stacks

variable {σ : HeapMap} {vs ws : List Value} {v w : Value}

theorem echoes_pop (stack : List.Forall₂ (Value.Mapped σ) vs ws) :
    Echoes σ (fun r r' => r.1.Mapped σ r'.1 ∧ List.Forall₂ (Value.Mapped σ) r.2 r'.2) (pop vs) (pop ws) := by
  cases stack with
  | nil => exact .fail _
  | cons value rest => exact .pure ⟨value, rest⟩

theorem echoes_popPair (stack : List.Forall₂ (Value.Mapped σ) vs ws) :
    Echoes σ (fun r r' => r.1.Mapped σ r'.1 ∧ r.2.1.Mapped σ r'.2.1 ∧ List.Forall₂ (Value.Mapped σ) r.2.2 r'.2.2)
      (popPair vs) (popPair ws) := by
  unfold popPair
  refine (echoes_pop stack).bind fun _ _ first => ?_
  exact (echoes_pop first.2).bind fun _ _ second => .pure ⟨second.1, first.1, second.2⟩

theorem echoes_popMany (stack : List.Forall₂ (Value.Mapped σ) vs ws) (count : Nat) :
    Echoes σ (fun r r' => List.Forall₂ (Value.Mapped σ) r.1 r'.1 ∧ List.Forall₂ (Value.Mapped σ) r.2 r'.2)
      (popMany count vs) (popMany count ws) := by
  unfold popMany
  rw [stack.length_eq]
  split
  · exact .pure ⟨List.rel_reverse (List.forall₂_take count stack), List.forall₂_drop count stack⟩
  · exact .fail _

theorem echoes_require {α : Type} (operand : MissingOperand) {x y : Option α} (same : y = x) :
    Echoes σ Eq (Instruction.require operand x) (Instruction.require operand y) := by
  subst same
  cases y with
  | none => exact .throw _
  | some a => exact .pure rfl

theorem echoes_branchTarget {i j : Instruction} (alike : i.Alike j) : Echoes σ Eq i.branchTarget j.branchTarget := by
  unfold Instruction.branchTarget
  rw [← alike.target?]
  split
  · exact .pure rfl
  · exact .fail _

theorem echoes_requireToken {i j : Instruction} (alike : i.Alike j) : Echoes σ Eq i.requireToken j.requireToken := by
  unfold Instruction.requireToken
  rw [← alike.token?]
  split
  · exact .pure rfl
  · exact .fatal rfl _

theorem echoes_compute {α : Type} {e e' : Except ExecutionFault α} (same : e' = e) : Echoes σ Eq (compute e) (compute e') :=
  (Computed.self same fun _ _ => rfl).echoes

theorem computed_thrownException (value : v.Mapped σ w) : Computed σ.Takes (thrownException v) (thrownException w) := by
  cases value with
  | ref takes => exact .ok takes
  | plain none => cases v <;> first | exact .error | cases none

theorem arrayLength_mapped (value : v.Mapped σ w) : arrayLength w = arrayLength v := by
  unfold arrayLength
  rw [value.asInt32]

theorem follows_boxValue (value : v.Mapped σ w) :
    Follows σ (fun τ => Value.Mapped τ) (boxValue v) (boxValue w) := by
  cases value with
  | ref takes => exact .pure (.ref takes)
  | plain none =>
    cases v <;> first
      | exact .pure Value.mapped_null
      | exact (Running.follows_allocate (.boxed (.plain rfl))).bind fun _ _ _ _ takes => .pure (.ref takes)
      | cases none

theorem forall₂_setIfInBounds {xs ys : Array Value} (elements : List.Forall₂ (Value.Mapped σ) xs.toList ys.toList)
    (value : v.Mapped σ w) (place : Nat) :
    List.Forall₂ (Value.Mapped σ) (xs.setIfInBounds place v).toList (ys.setIfInBounds place w).toList := by
  refine forall₂_iff_getElem?.mpr fun n => ?_
  have here := forall₂_iff_getElem?.mp elements n
  have size : ys.size = xs.size := by simpa using elements.length_eq.symm
  simp only [Array.getElem?_toList] at here ⊢
  by_cases same : place = n
  · subst same
    by_cases inside : place < xs.size
    · rw [Array.getElem?_setIfInBounds_self_of_lt inside, Array.getElem?_setIfInBounds_self_of_lt (size ▸ inside)]
      exact .some value
    · rw [Array.getElem?_eq_none (by simpa using inside), Array.getElem?_eq_none (by simpa [size] using inside)]
      exact .none
  · rw [Array.getElem?_setIfInBounds_ne same, Array.getElem?_setIfInBounds_ne same]
    exact here

theorem follows_storeElement {target target' : Value} (array : target.Mapped σ target') (index : Int32) (value : v.Mapped σ w) :
    Follows σ (fun _ _ _ => True) (storeElement target index v) (storeElement target' index w) := by
  unfold storeElement
  cases array with
  | plain none =>
    simp only [none]
    exact .fail _
  | ref takes =>
    refine Echoes.heap.follows fun h h' mapped => (computed_get mapped takes).echoes.follows fun o o' object => ?_
    cases object with
    | array elements =>
      have size := elements.length_eq
      simp only [Array.length_toList] at size
      dsimp only
      rw [← size]
      refine (echoes_compute rfl).follows fun place _ same => ?_
      subst same
      refine Running.follows_modifyObject takes fun p p' both => ?_
      cases both with
      | array elements => exact .array (forall₂_setIfInBounds elements value place)
      | boxed value => exact .boxed value
      | string value => exact .string value
      | method token => exact .method token
      | type token => exact .type token
      | «instance» type => exact .instance type
      | exception typeName message => exact .exception typeName message
    | _ => exact .fail _

end Stacks

/-! ### Instructions -/

section Instructions

variable {B : MethodDef → Body → Body → Prop} {σ : HeapMap} {m m' : Module} {f g : Frame} {i j : Instruction}

/-- An instruction does in a frame what it does in another one with the same values. -/
theorem follows_step (modules : m.Alters B m') (frames : f.Mapped σ g) (alike : i.Alike j) :
    Follows σ SteppedAlike (step m f i) (step m' g j) := by
  have next : ∀ {τ : HeapMap} {v w : Value} {vs ws : List Value}, v.Mapped τ w → List.Forall₂ (Value.Mapped τ) vs ws →
      Follows τ SteppedAlike (pure (v :: vs, .next)) (pure (w :: ws, .next)) :=
    fun value stack => .pure ⟨.cons value stack, .next⟩
  have stack := frames.stack
  cases action : i.opcode.action with
  | nothing =>
    simp only [step, ← alike.action, action]
    exact .pure ⟨stack, .next⟩
  | loadArgument fixed =>
    simp only [step, ← alike.action, action]
    refine (echoes_require _ alike.argument?.symm).follows fun index _ same => same ▸ ?_
    exact (frames.computed_argument _).echoes.follows fun _ _ value => next value stack
  | loadLocal fixed =>
    simp only [step, ← alike.action, action]
    refine (echoes_require _ alike.slot?.symm).follows fun index _ same => same ▸ ?_
    exact (frames.computed_slot _).echoes.follows fun _ _ value => next value stack
  | storeLocal fixed =>
    simp only [step, ← alike.action, action]
    refine (echoes_require _ alike.slot?.symm).follows fun index _ same => same ▸ ?_
    refine (echoes_pop stack).follows fun _ _ popped => ?_
    exact (frames.computed_checkSlot _).echoes.follows fun _ _ _ => .pure ⟨popped.2, .store _ popped.1⟩
  | pushNull =>
    simp only [step, ← alike.action, action]
    exact next Value.mapped_null stack
  | pushConstant value =>
    simp only [step, ← alike.action, action]
    exact next (.plain rfl) stack
  | pushInt32 =>
    simp only [step, ← alike.action, action]
    refine (echoes_require _ ?_).follows fun _ _ same => same ▸ next (.plain rfl) stack
    simp only [Instruction.int32?, alike.operand]
  | pushInt64 =>
    simp only [step, ← alike.action, action]
    refine (echoes_require _ ?_).follows fun _ _ same => same ▸ next (.plain rfl) stack
    simp only [Instruction.int64?, alike.operand]
  | pushReal =>
    simp only [step, ← alike.action, action]
    refine (echoes_require _ ?_).follows fun _ _ same => same ▸ next (.plain rfl) stack
    simp only [Instruction.real?, alike.operand]
  | pushText =>
    simp only [step, ← alike.action, action]
    refine (echoes_require _ ?_).follows fun value _ same => same ▸ ?_
    · simp only [Instruction.string?, alike.operand]
    · exact (Running.follows_allocate (.string value)).bind fun _ _ _ grows takes =>
        next (.ref takes) (Value.mapped_all_mono stack grows)
  | duplicate =>
    simp only [step, ← alike.action, action]
    exact (echoes_pop stack).follows fun _ _ popped => next popped.1 (.cons popped.1 popped.2)
  | discard =>
    simp only [step, ← alike.action, action]
    exact (echoes_pop stack).follows fun _ _ popped => .pure ⟨popped.2, .next⟩
  | arithmetic operation =>
    simp only [step, ← alike.action, action]
    refine (echoes_popPair stack).follows fun _ _ popped => ?_
    refine (Computed.self (P := Value.Mapped σ) (popped.1.onValues popped.2.1 operation) fun _ done =>
      .plain (Value.ref?_of_onValues done)).echoes.follows fun _ _ value => next value popped.2.2
  | negate =>
    simp only [step, ← alike.action, action]
    refine (echoes_pop stack).follows fun _ _ popped => ?_
    refine (Computed.self (P := Value.Mapped σ) popped.1.negateValue fun _ done =>
      .plain (Value.ref?_of_negateValue done)).echoes.follows fun _ _ value => next value popped.2
  | compare relation =>
    simp only [step, ← alike.action, action]
    intro s t mapped
    refine Echoes.follows (echoes_popPair stack) (fun _ _ popped => ?_) s t mapped
    refine (echoes_compute (popped.1.compareValues mapped.nodup popped.2.1)).follows fun order _ same => ?_
    exact same ▸ next (.plain rfl) popped.2.2
  | jump =>
    simp only [step, ← alike.action, action]
    exact (echoes_branchTarget alike).follows fun target _ same => same ▸ .pure ⟨stack, .jump target⟩
  | jumpWhen truth =>
    simp only [step, ← alike.action, action]
    refine (echoes_pop stack).follows fun _ _ popped => ?_
    refine (echoes_compute popped.1.isTrue).follows fun holds _ same => same ▸ ?_
    split
    · exact (echoes_branchTarget alike).follows fun target _ same => same ▸ .pure ⟨popped.2, .jump target⟩
    · exact .pure ⟨popped.2, .next⟩
  | jumpIf relation =>
    simp only [step, ← alike.action, action]
    intro s t mapped
    refine Echoes.follows (echoes_popPair stack) (fun _ _ popped => ?_) s t mapped
    refine (echoes_compute (popped.1.compareValues mapped.nodup popped.2.1)).follows fun order _ same => same ▸ ?_
    split
    · exact (echoes_branchTarget alike).follows fun target _ same => same ▸ .pure ⟨popped.2.2, .jump target⟩
    · exact .pure ⟨popped.2.2, .next⟩
  | leave =>
    simp only [step, ← alike.action, action]
    exact (echoes_branchTarget alike).follows fun target _ same => same ▸ .pure ⟨stack, .leave target⟩
  | exit =>
    simp only [step, ← alike.action, action, frames.returnsValue]
    split
    · exact (echoes_pop stack).follows fun _ _ popped => .pure ⟨popped.2, .exit popped.1⟩
    · exact .pure ⟨stack, .exit Value.mapped_void⟩
  | throw =>
    simp only [step, ← alike.action, action]
    refine (echoes_pop stack).follows fun _ _ popped => ?_
    exact (computed_thrownException popped.1).echoes.follows fun _ _ takes => .pure ⟨popped.2, .throw takes⟩
  | rethrow =>
    simp only [step, ← alike.action, action]
    have active := frames.active
    generalize f.active = fs, g.active = gs at active
    cases active with
    | nil => exact .fail _
    | cons clause rest => exact .pure ⟨stack, .throw clause.exception⟩
  | call dynamic =>
    simp only [step, ← alike.action, action, modules.callShape_eq]
    refine (echoes_requireToken alike).follows fun target _ same => same ▸ ?_
    refine (echoes_compute rfl).follows fun shape _ same => same ▸ ?_
    refine (echoes_popMany stack _).follows fun r r' popped => ?_
    have null : (r'.1.head?.map (·.isNull)) = (r.1.head?.map (·.isNull)) := by
      obtain ⟨arguments, -⟩ := popped
      generalize r.1 = vs, r'.1 = ws at arguments
      cases arguments with
      | nil => rfl
      | cons value rest => simp [value.isNull]
    rw [null]
    split
    · exact .fail _
    · exact .pure ⟨popped.2, .call target popped.1 dynamic⟩
  | construct =>
    simp only [step, ← alike.action, action, modules.callShape_eq]
    refine (echoes_requireToken alike).follows fun target _ same => same ▸ ?_
    refine (echoes_compute rfl).follows fun shape _ same => same ▸ ?_
    exact (echoes_popMany stack _).follows fun r r' popped => .pure ⟨popped.2, .construct target popped.1⟩
  | newArray =>
    simp only [step, ← alike.action, action]
    refine (echoes_pop stack).follows fun _ _ popped => ?_
    refine (echoes_compute (arrayLength_mapped popped.1)).follows fun length _ same => same ▸ ?_
    refine (Running.follows_allocate (.array ?_)).bind fun _ _ _ grows takes =>
      next (.ref takes) (Value.mapped_all_mono popped.2 grows)
    rw [Array.toList_replicate]
    exact List.forall₂_same.mpr fun v among => List.eq_of_mem_replicate among ▸ Value.mapped_null
  | arrayLength =>
    simp only [step, ← alike.action, action]
    refine (echoes_pop stack).follows fun _ _ popped => ?_
    refine Echoes.heap.follows fun _ _ mapped => (computed_array mapped popped.1).echoes.follows fun xs ys elements => ?_
    have size := elements.length_eq
    simp only [Array.length_toList] at size
    rw [← size]
    refine (Computed.self (P := Value.Mapped σ) rfl fun _ done => ?_).echoes.follows fun _ _ value => next value popped.2
    unfold lengthValue at done
    split at done <;> cases done
    exact .plain rfl
  | loadElement =>
    simp only [step, ← alike.action, action]
    refine (echoes_pop stack).follows fun _ _ first => ?_
    refine (echoes_compute first.1.asInt32).follows fun index _ same => same ▸ ?_
    refine (echoes_pop first.2).follows fun _ _ second => ?_
    refine Echoes.heap.follows fun _ _ mapped => (computed_array mapped second.1).echoes.follows fun xs ys elements => ?_
    exact (computed_element elements index).echoes.follows fun _ _ value => next value second.2
  | storeElement =>
    simp only [step, ← alike.action, action]
    refine (echoes_pop stack).follows fun _ _ first => ?_
    refine (echoes_pop first.2).follows fun _ _ second => ?_
    refine (echoes_compute second.1.asInt32).follows fun index _ same => same ▸ ?_
    refine (echoes_pop second.2).follows fun _ _ third => ?_
    exact (follows_storeElement third.1 index first.1).bind fun _ _ _ grows _ =>
      .pure ⟨Value.mapped_all_mono third.2 grows, .next⟩
  | box =>
    simp only [step, ← alike.action, action]
    refine (echoes_pop stack).follows fun _ _ popped => ?_
    exact (follows_boxValue popped.1).bind fun _ _ _ grows value => next value (Value.mapped_all_mono popped.2 grows)
  | unbox =>
    simp only [step, ← alike.action, action]
    refine (echoes_pop stack).follows fun _ _ popped => ?_
    refine Echoes.heap.follows fun _ _ mapped => ?_
    exact (computed_unboxValue mapped popped.1).echoes.follows fun _ _ value => next value popped.2
  | cast =>
    simp only [step, ← alike.action, action]
    refine (echoes_pop stack).follows fun r r' popped => ?_
    obtain ⟨value, rest⟩ := popped
    generalize r.1 = v, r'.1 = w at value
    cases value with
    | ref takes =>
      refine Echoes.heap.follows fun _ _ mapped => ?_
      refine (echoes_requireToken alike).follows fun type _ same => same ▸ ?_
      refine (echoes_compute (checkCast_mapped modules mapped takes type)).follows fun _ _ _ => ?_
      exact next (.ref takes) rest
    | plain none => cases v <;> first | exact next (.plain none) rest | cases none
  | loadToken =>
    simp only [step, ← alike.action, action]
    unfold Instruction.handleValue?
    rw [← alike.operand]
    cases i.operand with
    | method token => exact next (.plain rfl) stack
    | type token => exact next (.plain rfl) stack
    | _ => exact .throw _
  | unsupported =>
    simp only [step, ← alike.action, action]
    exact .fatal rfl _

end Instructions

end AspectWeaving

import AspectWeaving.Proofs.FollowingSteps
import AspectWeaving.Proofs.Stepping

/-!
Calls that follow one another. Two programs are twins if their modules differ in bodies only and the host stands in for
the same methods, quietly (`Program.Twins`). What a call comes to in one of them it comes to in the other one along a
map: both are over with the same outcome, or enter bodies of the same method (`follows_call`, `follows_construct`,
`follows_complete`).
-/
namespace AspectWeaving

open Running (compute fail allocate modifyObject note callHost Follows Echoes Computed)

/-- A host method does nothing. -/
def HostMethod.Quiet (method : HostMethod) : Prop := ∀ arguments heap, method arguments heap = .ok (.returned .void) heap

/-- Programs whose modules differ in bodies, with the same host methods, which do nothing. -/
structure Program.Twins (B : MethodDef → Body → Body → Prop) (p q : Program) : Prop where
  modules : p.module.Alters B q.module
  starts : ∀ {d b b'}, B d b b' → b.code.first?.isSome → b'.code.first?.isSome
  hosts : q.hostMethods = p.hostMethods
  quiet : ∀ host ∈ p.hostMethods, HostMethod.Quiet host.2

/-! ### Outcomes -/

/-- Outcomes that are the same along a map. -/
inductive Outcome.Mapped (σ : HeapMap) : Outcome → Outcome → Prop
  | returned {v w : Value} (value : v.Mapped σ w) : Mapped σ (.returned v) (.returned w)
  | threw {a b : HeapRef} (takes : σ.Takes a b) : Mapped σ (.threw a) (.threw b)

/-- What is still to be done with an outcome, the same along a map. -/
inductive Pending.Mapped (σ : HeapMap) : Pending → Pending → Prop
  | construct {a b : HeapRef} (takes : σ.Takes a b) : Mapped σ (.construct a) (.construct b)
  | collect {xs ys : Array Value} (objects : List.Forall₂ (Value.Mapped σ) xs.toList ys.toList) (attributes : List Attribute) :
    Mapped σ (.collect xs attributes) (.collect ys attributes)

/-- Frames at the start of the bodies of a method, on the same arguments along a map. -/
inductive Frame.Enters (B : MethodDef → Body → Body → Prop) (σ : HeapMap) : Frame → Frame → Prop
  | intro {d d' : MethodDef} {b b' : Body} {vs ws : List Value} {rest rest' : List Pending} {first first' : Handle}
      (method : d.Alters B d') (body : B d b b') (arguments : List.Forall₂ (Value.Mapped σ) vs ws)
      (fits : vs.length = d.signature.argumentCount) (starts : b.code.first? = some first)
      (starts' : b'.code.first? = some first') (pending : List.Forall₂ (Pending.Mapped σ) rest rest') :
    Enters B σ (.start (.ofMethod d b vs) rest first) (.start (.ofMethod d' b' ws) rest' first')

/-- What a call comes to, along a map. A body is only entered where there is room for it. -/
inductive Progress.Mapped (B : MethodDef → Body → Body → Prop) (room : Prop) (σ : HeapMap) : Progress → Progress → Prop
  | done {o o' : Outcome} (outcome : o.Mapped σ o') : Mapped B room σ (.done o) (.done o')
  | enter {f g : Frame} (enters : f.Enters B σ g) (fits : room) : Mapped B room σ (.enter f) (.enter g)

section Mono

variable {B : MethodDef → Body → Body → Prop} {σ τ : HeapMap}

theorem Pending.Mapped.mono {a b : Pending} (mapped : a.Mapped σ b) (grows : σ <+: τ) : a.Mapped τ b := by
  cases mapped with
  | construct takes => exact .construct (takes.mono grows)
  | collect objects attributes => exact .collect (Value.mapped_all_mono objects grows) attributes

theorem Pending.Mapped.of_construct {a : HeapRef} {q : Pending} (mapped : (Pending.construct a).Mapped σ q) :
    ∃ b, q = .construct b ∧ σ.Takes a b := by
  cases mapped with
  | construct takes => exact ⟨_, rfl, takes⟩

theorem Pending.mapped_all_mono {ps qs : List Pending} (mapped : List.Forall₂ (Pending.Mapped σ) ps qs) (grows : σ <+: τ) :
    List.Forall₂ (Pending.Mapped τ) ps qs :=
  mapped.imp fun _ _ here => here.mono grows

/-- More is to be done with the outcome of the bodies. -/
theorem Frame.Enters.behind {f g : Frame} (enters : f.Enters B σ g) {ps qs : List Pending}
    (more : List.Forall₂ (Pending.Mapped σ) ps qs) :
    ({ f with pending := f.pending ++ ps } : Frame).Enters B σ { g with pending := g.pending ++ qs } := by
  obtain ⟨method, body, arguments, fits, starts, starts', pending⟩ := enters
  exact .intro method body arguments fits starts starts' (List.rel_append pending more)

end Mono

/-! ### Methods of the module -/

section Calls

variable {B : MethodDef → Body → Body → Prop} {p q : Program} {depth depth' : Nat} {σ : HeapMap}

/-- What calls come to at a depth. -/
abbrev Program.Progresses (p : Program) (B : MethodDef → Body → Body → Prop) (depth : Nat) (σ : HeapMap) :
    Progress → Progress → Prop :=
  Progress.Mapped B (depth < p.limits.callDepth) σ

theorem follows_callHost {host : Token × HostMethod} (quiet : HostMethod.Quiet host.2) {vs ws : List Value}
    (arguments : List.Forall₂ (Value.Mapped σ) vs ws) :
    Follows σ (fun τ => Outcome.Mapped τ) (callHost host vs) (callHost host ws) := by
  intro s t mapped
  unfold callHost
  rw [quiet, quiet]
  exact .ok ⟨⟨List.prefix_refl σ, mapped, fun outside found => ⟨outside, found⟩⟩, [⟨host.1, vs⟩], [⟨host.1, ws⟩], by simp,
    by simp, .cons ⟨rfl, arguments⟩ .nil⟩ (.returned Value.mapped_void)

theorem follows_andThen {room : Prop} {P P' : Progress} (progress : P.Mapped B room σ P') {next next' : Pending}
    (pending : next.Mapped σ next') {finish finish' : Value → Running Progress}
    (each : ∀ {v w}, v.Mapped σ w → Follows σ (Progress.Mapped B room) (finish v) (finish' w)) :
    Follows σ (Progress.Mapped B room) (P.andThen next finish) (P'.andThen next' finish') := by
  cases progress with
  | enter enters fits => exact .pure (.enter (enters.behind (.cons pending .nil)) fits)
  | done outcome =>
    cases outcome with
    | returned value => exact each value
    | threw takes => exact .pure (.done (.threw takes))

theorem follows_enterBody (twins : p.Twins B q) (deep : depth < p.limits.callDepth → depth' < q.limits.callDepth)
    {d d' : MethodDef} {b b' : Body} (method : d.Alters B d') (body : B d b b') {vs ws : List Value}
    (arguments : List.Forall₂ (Value.Mapped σ) vs ws) :
    Follows σ (p.Progresses B depth) (enterBody p depth d b vs) (enterBody q depth' d' b' ws) := by
  unfold enterBody
  dsimp only
  rw [method.signature, arguments.length_eq]
  split
  · rename_i fits
    split
    · rename_i room
      rw [if_pos (deep room)]
      refine (Running.follows_note _ _).bind fun τ _ _ grows _ => ?_
      cases first : b.code.first? with
      | none => exact .unseen rfl _
      | some place =>
        obtain ⟨place', first'⟩ := Option.isSome_iff_exists.mp (twins.starts body (by rw [first]; rfl))
        rw [first']
        exact .pure (.enter (.intro method body (Value.mapped_all_mono arguments grows) (arguments.length_eq.trans fits)
          first first' .nil) room)
    · exact .unseen rfl _
  · exact .fail _

theorem Program.Twins.hostMethod?_eq (twins : p.Twins B q) (token : Token) : q.hostMethod? token = p.hostMethod? token := by
  unfold Program.hostMethod?
  rw [twins.hosts]

theorem follows_callDefinition (twins : p.Twins B q) (deep : depth < p.limits.callDepth → depth' < q.limits.callDepth)
    (token : Token) {vs ws : List Value} (arguments : List.Forall₂ (Value.Mapped σ) vs ws) :
    Follows σ (p.Progresses B depth) (callDefinition p depth token vs) (callDefinition q depth' token ws) := by
  unfold callDefinition
  rw [twins.hostMethod?_eq]
  cases found : p.hostMethod? token with
  | some host =>
    exact (follows_callHost (twins.quiet host (List.mem_of_find?_eq_some found)) arguments).bind fun _ _ _ _ outcome =>
      .pure (.done outcome)
  | none =>
    have methods := twins.modules.method? token
    simp only
    generalize p.module.method? token = x, q.module.method? token = y at methods
    cases methods with
    | none => exact .fail _
    | @some x y both =>
      obtain ⟨t, d⟩ := x
      obtain ⟨t', d'⟩ := y
      obtain ⟨-, method⟩ := both
      have bodies := method.body
      simp only
      generalize d.body = b, d'.body = b' at bodies
      cases bodies with
      | none => exact .fail _
      | some body => exact follows_enterBody twins deep method body arguments

theorem follows_constructDefinition (twins : p.Twins B q) (deep : depth < p.limits.callDepth → depth' < q.limits.callDepth)
    (token : Token) {vs ws : List Value} (arguments : List.Forall₂ (Value.Mapped σ) vs ws) :
    Follows σ (p.Progresses B depth) (constructDefinition p depth token vs) (constructDefinition q depth' token ws) := by
  unfold constructDefinition
  have methods := twins.modules.method? token
  generalize p.module.method? token = x, q.module.method? token = y at methods
  cases methods with
  | none => exact .fail _
  | @some x y both =>
    obtain ⟨t, d⟩ := x
    obtain ⟨t', d'⟩ := y
    simp only
    rw [show t'.token = t.token from both.1.token]
    refine (Running.follows_allocate (.instance t.token)).bind fun τ object object' grows takes => ?_
    have own := List.Forall₂.cons (Value.Mapped.ref takes) (Value.mapped_all_mono arguments grows)
    refine (follows_callDefinition twins deep token own).bind fun υ _ _ more call => ?_
    refine follows_andThen call (.construct (takes.mono more)) fun _ => ?_
    exact .pure (.done (.returned (.ref (takes.mono more))))

/-! ### Attributes -/

theorem follows_toValue (argument : AttributeArgument) : Follows σ (fun τ => Value.Mapped τ) argument.toValue argument.toValue := by
  cases argument with
  | string value => exact (Running.follows_allocate (.string value)).bind fun _ _ _ _ takes => .pure (.ref takes)
  | _ => exact .pure (.plain rfl)

theorem follows_mapM_toValue (arguments : List AttributeArgument) :
    Follows σ (fun τ => List.Forall₂ (Value.Mapped τ)) (arguments.mapM (·.toValue)) (arguments.mapM (·.toValue)) := by
  induction arguments generalizing σ with
  | nil => exact .pure .nil
  | cons argument arguments ih =>
    rw [List.mapM_cons]
    refine (follows_toValue argument).bind fun τ _ _ _ value => ih.bind fun υ _ _ grows rest => ?_
    exact .pure (.cons (value.mono grows) rest)

theorem follows_instantiate (twins : p.Twins B q) (deep : depth < p.limits.callDepth → depth' < q.limits.callDepth)
    (a : Attribute) : Follows σ (p.Progresses B depth) (instantiate p depth a) (instantiate q depth' a) := by
  unfold instantiate
  refine (follows_mapM_toValue a.arguments).bind fun τ vs ws _ arguments => ?_
  have constructors := twins.modules.constructor_rel a.type ws.length
  have empty : ws.isEmpty = vs.isEmpty := by cases arguments <;> rfl
  simp only [twins.modules.naming_eq, empty]
  rw [arguments.length_eq]
  revert constructors
  generalize List.find? _ _ = x
  generalize List.find? _ _ = y
  intro constructors
  cases constructors with
  | some method =>
    simp only [method.token]
    exact follows_constructDefinition twins deep _ arguments
  | none =>
    simp only
    split
    · exact (Running.follows_allocate (.instance a.type)).bind fun _ _ _ _ takes => .pure (.done (.returned (.ref takes)))
    · exact (echoes_compute rfl).follows fun _ _ same => same ▸ .throw _

theorem follows_collect (twins : p.Twins B q) (deep : depth < p.limits.callDepth → depth' < q.limits.callDepth)
    {xs ys : Array Value} (objects : List.Forall₂ (Value.Mapped σ) xs.toList ys.toList) (attributes : List Attribute) :
    Follows σ (p.Progresses B depth) (collect p depth xs attributes) (collect q depth' ys attributes) := by
  induction attributes generalizing σ xs ys with
  | nil => exact (Running.follows_allocate (.array objects)).bind fun _ _ _ _ takes => .pure (.done (.returned (.ref takes)))
  | cons a rest ih =>
    refine (follows_instantiate twins deep a).bind fun τ _ _ grows call => ?_
    have objects := Value.mapped_all_mono objects grows
    refine follows_andThen call (.collect objects rest) fun {v w} object => ih ?_
    simpa using List.rel_append objects (.cons object .nil)

/-! ### Library methods -/

theorem rel_head? {vs ws : List Value} (arguments : List.Forall₂ (Value.Mapped σ) vs ws) :
    Option.Rel (Value.Mapped σ) vs.head? ws.head? := by
  cases arguments with
  | nil => exact .none
  | cons value rest => exact .some value

theorem computed_thisArgument {vs ws : List Value} (arguments : List.Forall₂ (Value.Mapped σ) vs ws) :
    Computed (Value.Mapped σ) (thisArgument vs) (thisArgument ws) := by
  cases arguments with
  | nil => exact .error
  | cons value rest => exact .ok value

theorem computed_thisObject {h h' : Heap} (mapped : h.Mapped σ h') {vs ws : List Value}
    (arguments : List.Forall₂ (Value.Mapped σ) vs ws) :
    Computed (HeapObject.Mapped σ) (thisObject h vs) (thisObject h' ws) :=
  (computed_thisArgument arguments).bind fun _ _ value => computed_object mapped value

theorem computed_describedMethod {o o' : HeapObject} (object : o.Mapped σ o') :
    Computed Eq (describedMethod o) (describedMethod o') := by
  cases object with
  | method token => exact .ok rfl
  | _ => exact .error

theorem computed_describedType {h h' : Heap} (mapped : h.Mapped σ h') {v? w? : Option Value}
    (argument : Option.Rel (Value.Mapped σ) v? w?) : Computed Eq (describedType h v?) (describedType h' w?) := by
  cases argument with
  | none => exact .ok rfl
  | @some v w value =>
    have object := computed_object mapped value
    unfold describedType
    cases value with
    | ref takes =>
      refine object.bind fun o o' same => ?_
      cases same with
      | type token => exact .ok rfl
      | _ => exact .error
    | plain none =>
      cases v with
      | null => exact .ok rfl
      | _ =>
        refine object.bind fun o o' same => ?_
        cases same with
        | type token => exact .ok rfl
        | _ => exact .error

theorem computed_memberName (modules : p.module.Alters B q.module) {o o' : HeapObject} (object : o.Mapped σ o') :
    Computed Eq (memberName p.module o) (memberName q.module o') := by
  rw [modules.memberName_eq]
  cases object <;> exact .self rfl fun _ _ => rfl

theorem computed_exceptionMessage {o o' : HeapObject} (object : o.Mapped σ o') :
    Computed Eq (exceptionMessage o) (exceptionMessage o') := by
  cases object with
  | exception typeName message => exact .ok rfl
  | _ => exact .error

theorem computed_messageArgument {h h' : Heap} (mapped : h.Mapped σ h') {v? w? : Option Value}
    (argument : Option.Rel (Value.Mapped σ) v? w?) : Computed Eq (messageArgument h v?) (messageArgument h' w?) := by
  cases argument with
  | none => exact .ok rfl
  | @some v w value =>
    have read : Computed Eq (some <$> h.string v) (some <$> h'.string w) :=
      (computed_string mapped value).map fun _ _ same => congrArg some same
    cases value with
    | ref takes => exact read
    | plain none => cases v <;> first | exact read | exact .ok rfl

theorem follows_initializeLibrary {room : Prop} {vs ws : List Value} (arguments : List.Forall₂ (Value.Mapped σ) vs ws) :
    Follows σ (Progress.Mapped B room) (initializeLibrary vs) (initializeLibrary ws) := by
  unfold initializeLibrary
  refine (computed_thisArgument arguments).echoes.follows fun this this' value => ?_
  refine Echoes.heap.follows fun h h' mapped => ?_
  refine (computed_messageArgument mapped (forall₂_iff_getElem?.mp arguments 1)).echoes.follows fun message _ same => same ▸ ?_
  cases value with
  | plain none =>
    simp only [none]
    exact .fail _
  | ref takes =>
    refine Echoes.heap.follows fun h h' mapped => (computed_get mapped takes).echoes.follows fun _ _ _ => ?_
    exact (Running.follows_modifyObject takes fun _ _ object => object.withMessage message).bind fun _ _ _ _ _ =>
      .pure (.done (.returned Value.mapped_void))

theorem follows_callLibrary (twins : p.Twins B q) (deep : depth < p.limits.callDepth → depth' < q.limits.callDepth)
    (token : Token) {vs ws : List Value} (arguments : List.Forall₂ (Value.Mapped σ) vs ws) :
    Follows σ (p.Progresses B depth) (callLibrary p depth token vs) (callLibrary q depth' token ws) := by
  have made : ∀ {τ : HeapMap} {o : HeapObject}, o.Mapped τ o →
      Follows τ (p.Progresses B depth) (do return Progress.result (.ref (← allocate o)))
        (do return Progress.result (.ref (← allocate o))) :=
    fun object => (Running.follows_allocate object).bind fun _ _ _ _ takes => .pure (.done (.returned (.ref takes)))
  have top := rel_head? arguments
  unfold callLibrary
  simp only [twins.modules.imports, twins.modules.selectAttributes_eq]
  split
  · split
    · -- `GetMethodFromHandle`
      generalize vs.head? = x, ws.head? = y at top
      cases top with
      | none => exact .unseen rfl _
      | some value =>
        cases value with
        | ref takes => exact .unseen rfl _
        | plain none =>
          rename_i v
          cases v <;> first
            | exact made (.method _)
            | exact .unseen rfl _
    · -- `GetTypeFromHandle`
      generalize vs.head? = x, ws.head? = y at top
      cases top with
      | none => exact .unseen rfl _
      | some value =>
        cases value with
        | ref takes => exact .unseen rfl _
        | plain none =>
          rename_i v
          cases v <;> first
            | exact made (.type _)
            | exact .unseen rfl _
    · -- `GetCustomAttributes`
      refine Echoes.heap.follows fun h h' mapped => (computed_thisObject mapped arguments).echoes.follows fun o o' object => ?_
      refine (computed_describedMethod object).echoes.follows fun method _ same => same ▸ ?_
      refine Echoes.heap.follows fun h h' mapped => ?_
      refine (computed_describedType mapped (forall₂_iff_getElem?.mp arguments 1)).echoes.follows fun type _ same => same ▸ ?_
      exact (echoes_compute rfl).follows fun attributes _ same => same ▸ follows_collect twins deep .nil attributes
    · -- `get_Name`
      refine Echoes.heap.follows fun h h' mapped => (computed_thisObject mapped arguments).echoes.follows fun o o' object => ?_
      refine (computed_memberName twins.modules object).echoes.follows fun name _ same => same ▸ ?_
      exact made (.string name)
    · -- `get_Message`
      refine Echoes.heap.follows fun h h' mapped => (computed_thisObject mapped arguments).echoes.follows fun o o' object => ?_
      refine (computed_exceptionMessage object).echoes.follows fun message _ same => same ▸ ?_
      cases message with
      | some message => exact made (.string message)
      | none => exact .pure (.done (.returned Value.mapped_null))
    · exact follows_initializeLibrary arguments
    · exact .fail _
  · exact .fail _

/-! ### Calls -/

theorem follows_call (twins : p.Twins B q) (deep : depth < p.limits.callDepth → depth' < q.limits.callDepth)
    (target : Token) {vs ws : List Value} (arguments : List.Forall₂ (Value.Mapped σ) vs ws) (dynamic : Bool) :
    Follows σ (p.Progresses B depth) (call p depth target vs dynamic) (call q depth' target ws dynamic) := by
  unfold call
  extract_lets onward onward'
  have resolves : ∀ resolved, Follows σ (p.Progresses B depth) (onward resolved) (onward' resolved) := by
    intro resolved
    dsimp only [onward, onward']
    rw [twins.hostMethod?_eq, twins.hostMethod?_eq]
    cases found : p.hostMethod? resolved <|> p.hostMethod? target with
    | some host =>
      exact (follows_callHost (twins.quiet host (p.mem_of_hostMethod?_or found)) arguments).bind fun _ _ _ _ outcome =>
        .pure (.done outcome)
    | none =>
      dsimp only
      split
      · exact follows_callDefinition twins deep resolved arguments
      · split
        · exact follows_callLibrary twins deep resolved arguments
        · exact .fail _
  cases dynamic with
  | false => exact resolves target
  | true =>
    refine Echoes.heap.follows fun h h' mapped => ?_
    rw [dispatch_mapped twins.modules mapped (rel_head? arguments)]
    exact (echoes_compute rfl).follows fun resolved _ same => same ▸ resolves resolved

theorem follows_constructException (twins : p.Twins B q) (deep : depth < p.limits.callDepth → depth' < q.limits.callDepth)
    (token : Token) {vs ws : List Value} (arguments : List.Forall₂ (Value.Mapped σ) vs ws) :
    Follows σ (p.Progresses B depth) (constructException p depth token vs) (constructException q depth' token ws) := by
  unfold constructException
  simp only [twins.modules.imports, twins.modules.naming_eq, twins.modules.library]
  split
  · exact .fail _
  · refine (echoes_compute rfl).follows fun typeName? _ same => same ▸ ?_
    cases typeName? with
    | none => exact .fail _
    | some typeName =>
    dsimp only
    split
    · refine (Running.follows_allocate (.exception typeName none)).bind fun τ object object' grows takes => ?_
      have own := List.Forall₂.cons (Value.Mapped.ref takes) (Value.mapped_all_mono arguments grows)
      refine (follows_call twins deep token own false).bind fun υ _ _ more call => ?_
      refine follows_andThen call (.construct (takes.mono more)) fun _ => ?_
      exact .pure (.done (.returned (.ref (takes.mono more))))
    · exact .throw _

theorem follows_construct (twins : p.Twins B q) (deep : depth < p.limits.callDepth → depth' < q.limits.callDepth)
    (token : Token) {vs ws : List Value} (arguments : List.Forall₂ (Value.Mapped σ) vs ws) :
    Follows σ (p.Progresses B depth) (construct p depth token vs) (construct q depth' token ws) := by
  unfold construct
  split
  · exact follows_constructDefinition twins deep token arguments
  · split
    · exact follows_constructException twins deep token arguments
    · exact .fail _

theorem follows_complete (twins : p.Twins B q) (deep : depth < p.limits.callDepth → depth' < q.limits.callDepth)
    {ps qs : List Pending} (pending : List.Forall₂ (Pending.Mapped σ) ps qs) {o o' : Outcome} (outcome : o.Mapped σ o') :
    Follows σ (p.Progresses B depth) (complete p depth ps o) (complete q depth' qs o') := by
  induction ps generalizing σ qs o o' with
  | nil =>
    cases pending
    exact .pure (.done outcome)
  | cons _ _ ih =>
    obtain - | ⟨next, rest⟩ := pending
    cases outcome with
    | threw takes => cases next <;> exact .pure (.done (.threw takes))
    | returned value =>
      cases next with
      | construct takes => exact ih rest (.returned (.ref takes))
      | collect objects attributes =>
        have objects := List.rel_append objects (.cons value .nil)
        refine (follows_collect twins deep (by simpa using objects) attributes).bind fun τ _ _ grows both => ?_
        have rest := Pending.mapped_all_mono rest grows
        cases both with
        | done outcome => exact ih rest outcome
        | enter enters fits => exact .pure (.enter (enters.behind rest) fits)

end Calls

end AspectWeaving

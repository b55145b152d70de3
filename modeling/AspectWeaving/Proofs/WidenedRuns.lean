import AspectWeaving.Proofs.BodyChanges
import AspectWeaving.Proofs.BranchLayout
import AspectWeaving.Proofs.CompactSteps

/-!
Runs of widened bodies. A body and one with a wider layout of its code run in step (`Running.InStep`): frames of them
stand at the same places with the same values (`Frame.Wider`), and one instruction does the same to both and to the
machine (`inStep_advance`). A short branch and its long form only differ in their opcodes, which nothing tells of a
branch: its step either succeeds or ends the run (`fatal_step_of_short`), so it is never noted down. So programs whose
modules differ in the layout of bodies call everything alike (`invoke_widenMethod`).
-/
namespace AspectWeaving

/-! ### Computations in step -/

namespace Running

variable {α β γ δ : Type} {R : α → β → Prop} {S : γ → δ → Prop}

/-- Results that go together with the same machine, or the same failure of both. -/
inductive Paired (R : α → β → Prop) : EStateM.Result Fault Machine α → EStateM.Result Fault Machine β → Prop
  | ok {a b s} (both : R a b) : Paired R (.ok a s) (.ok b s)
  | error {fault s} : Paired R (.error fault s) (.error fault s)

/-- Two computations do the same to every machine, and their results go together. -/
def InStep (R : α → β → Prop) (x : Running α) (y : Running β) : Prop := ∀ s, Paired R (x s) (y s)

namespace InStep

theorem pure {a : α} {b : β} (both : R a b) : InStep R (pure a) (pure b) := fun _ => .ok both

theorem throw (fault : Fault) : InStep R (throw fault) (throw fault) := fun _ => .error

theorem self (x : Running α) : InStep Eq x x := fun s => by
  cases x s with
  | ok a t => exact .ok rfl
  | error fault t => exact .error

theorem bind {x : Running α} {y : Running β} {f : α → Running γ} {g : β → Running δ} (first : InStep R x y)
    (second : ∀ a b, R a b → InStep S (f a) (g b)) : InStep S (x >>= f) (y >>= g) := fun s => by
  have start := first s
  change Paired S (EStateM.bind x f s) (EStateM.bind y g s)
  unfold EStateM.bind
  generalize x s = r, y s = r' at start
  cases start with
  | ok both => exact second _ _ both _
  | error => exact .error

theorem behind (x : Running α) {f : α → Running γ} {g : α → Running δ} (rest : ∀ a, InStep S (f a) (g a)) :
    InStep S (x >>= f) (x >>= g) :=
  (self x).bind fun a _ same => same ▸ rest a

theorem attempt {x : Running α} {y : Running β} (both : InStep R x y) :
    InStep (Agree R) (attempt x) (attempt y) := fun s => by
  have start := both s
  unfold Running.attempt
  generalize x s = r, y s = r' at start
  cases start with
  | ok both => exact .ok (.ok both)
  | error => exact .ok .error

theorem eq {x y : Running α} (both : InStep Eq x y) : x = y := by
  funext s
  have start := both s
  generalize x s = r, y s = r' at start
  cases start with
  | ok same => exact same ▸ rfl
  | error => rfl

end InStep

end Running

open Running (compute fail allocate note attempt callHost InStep Fatal fatal_pure fatal_throw fatal_compute)

/-! ### Steps of branches -/

namespace Instruction

variable {i : Instruction}

theorem action_of_short {o : Opcode} (short : o.isShortBranch = true) :
    o.action = .jump ∨ (∃ truth, o.action = .jumpWhen truth) ∨ (∃ relation, o.action = .jumpIf relation) ∨
      o.action = .leave := by
  cases o <;> simp [Opcode.action] <;> cases short

/-- A branch does the same in its long form. -/
theorem step_widened (m : Module) (f : Frame) (i : Instruction) : step m f i.widened = step m f i := by
  cases short : i.opcode.isShortBranch with
  | false => rw [widened_of_long short]
  | true =>
    have alike := i.alike_widened
    have target : i.widened.branchTarget = i.branchTarget := by
      unfold branchTarget
      rw [alike.target?]
    have action := alike.action
    rcases action_of_short short with own | ⟨truth, own⟩ | ⟨relation, own⟩ | own <;>
      simp only [step, ← action, own, target]

private theorem fatal_isTrue (value : Value) : Fatal (compute value.isTrue) := by
  refine fatal_compute fun cause failed => ?_
  cases value <;> cases failed <;> rfl

private theorem fatal_compareValues (a b : Value) : Fatal (compute (compareValues a b)) := by
  refine fatal_compute fun cause failed => ?_
  unfold compareValues at failed
  split at failed <;> cases failed
  rfl

private theorem fatal_popPair (stack : List Value) : Fatal (popPair stack) :=
  (fatal_pop _).bind fun _ => (fatal_pop _).bind fun _ => fatal_pure _

/-- A branch raises no exception. -/
theorem fatal_step_of_short (short : i.opcode.isShortBranch = true) (m : Module) (f : Frame) : Fatal (step m f i) := by
  have jumps : ∀ stack : List Value, Fatal (do return (stack, Effect.jump (← i.branchTarget))) := fun stack =>
    (fatal_branchTarget i).bind fun _ => fatal_pure _
  rcases action_of_short short with own | ⟨truth, own⟩ | ⟨relation, own⟩ | own
  · simp only [step, own]
    exact jumps _
  · simp only [step, own]
    refine (fatal_pop _).bind fun _ => (fatal_isTrue _).bind fun _ => ?_
    split
    · exact jumps _
    · exact fatal_pure _
  · simp only [step, own]
    refine (fatal_popPair _).bind fun _ => (fatal_compareValues _ _).bind fun _ => ?_
    split
    · exact jumps _
    · exact fatal_pure _
  · exact fatal_leave own

end Instruction

/-! ### Wider bodies -/

/-- A body and one with a wider layout of its code. -/
structure Body.Wider (b b' : Body) : Prop where
  code : b.code.Wider b'.code
  rest : b' = { b with code := b'.code }

theorem Body.wider_widen (b : Body) : b.Wider b.widen.1 where
  code := (Code.settles_iff.mpr rfl : b.code.Settles b.code.widen.1 b.code.widen.2).wider
  rest := rfl

/-- The executions of a body and of a wider one. -/
structure Activation.Wider (a b : Activation) : Prop where
  method : b.method = a.method
  body : a.body.Wider b.body
  returnsValue : b.returnsValue = a.returnsValue
  arguments : b.arguments = a.arguments

namespace Activation.Wider

variable {a b : Activation}

theorem positions (wider : a.Wider b) : b.positions = a.positions := by
  rw [b.positions_eq, a.positions_eq]
  unfold Code.positions
  rw [wider.body.code.order, wider.body.code.size_eq]

theorem handlers (wider : a.Wider b) : b.body.handlers = a.body.handlers :=
  (congrArg Body.handlers wider.body.rest :)

theorem slots (wider : a.Wider b) : b.slots = a.slots := by
  have slots : b.body.slots = a.body.slots := (congrArg Body.slots wider.body.rest :)
  have initSlots : b.body.initSlots = a.body.initSlots := (congrArg Body.initSlots wider.body.rest :)
  unfold Activation.slots
  rw [slots, initSlots]

theorem argument (wider : a.Wider b) (index : Nat) : b.argument index = a.argument index := by
  unfold Activation.argument
  rw [wider.arguments]

theorem position (wider : a.Wider b) (h : Handle) : b.position h = a.position h := by
  unfold Activation.position
  rw [wider.positions]

theorem next (wider : a.Wider b) (h : Handle) : b.next h = a.next h := by
  unfold Activation.next
  rw [wider.positions, wider.body.code.order, wider.method]

theorem regionHolds (wider : a.Wider b) (r : Region) (position : Nat) :
    b.regionHolds r position = a.regionHolds r position := by
  simp only [Activation.regionHolds, stopPosition, wider.position, wider.body.code.size_eq]

theorem stillActive (wider : a.Wider b) (position : Nat) (clauses : List ActiveClause) :
    Frame.stillActive b position clauses = Frame.stillActive a position clauses := by
  induction clauses with
  | nil => rfl
  | cons c rest ih => simp only [Frame.stillActive, handlesAt, wider.handlers, wider.regionHolds, ih]

theorem fetch (wider : a.Wider b) {h : Handle} {i : Instruction} (found : a.body.code.get? h = some i) :
    b.body.code.get? h = some i ∨ b.body.code.get? h = some i.widened :=
  wider.body.code.instruction found

theorem missing (wider : a.Wider b) {h : Handle} (missing : a.body.code.get? h = none) : b.body.code.get? h = none := by
  rw [← Option.not_isSome_iff_eq_none, Code.get?_isSome_iff] at missing ⊢
  rwa [wider.body.code.size_eq]

end Activation.Wider

/-! ### Frames at the same place -/

/-- A frame of a body and the same frame of a wider one. -/
inductive Frame.Wider (f : Frame) : Frame → Prop
  | within {b : Activation} (activation : f.activation.Wider b) : f.Wider { f with activation := b }

/-- Frames that wait for a call at the same instruction. -/
structure Frame.Waits (f g : Frame) : Prop where
  wider : f.Wider g
  instruction : g.activation.body.code.get? g.place = f.activation.body.code.get? f.place

/-- What a call comes to, at a body or at a wider one. -/
inductive Progress.Wider : Progress → Progress → Prop
  | done (outcome : Outcome) : Wider (.done outcome) (.done outcome)
  | enter {f g : Frame} (wider : f.Wider g) : Wider (.enter f) (.enter g)

/-- What executions in step have come to. -/
inductive Execution.Wider : Execution → Execution → Prop
  | finished (outcome : Outcome) : Wider (.finished outcome) (.finished outcome)
  | running {f g : Frame} {cs ds : List Frame} (top : f.Wider g) (callers : List.Forall₂ Frame.Waits cs ds) :
    Wider (.running f cs) (.running g ds)

section Modules

variable {m m' : Module} {f g : Frame} {cs ds : List Frame}

/-- Modules with the same methods, of which some have wider bodies. -/
abbrev Module.Wider (m m' : Module) : Prop := m.Alters (fun _ => Body.Wider) m'

theorem step_eq (modules : m.Wider m') (wider : f.Wider g) (i : Instruction) : step m' g i = step m f i := by
  obtain ⟨activation⟩ := wider
  cases action : i.opcode.action <;>
    simp only [step, action, activation.argument, activation.returnsValue, modules.callShape_eq, modules.checkCast_eq] <;> rfl

/-! ### Exceptions -/

theorem catch?_agree (modules : m.Wider m') (wider : f.Wider g) (h : Heap) (x : HeapRef) :
    Agree (Option.Rel Frame.Wider) (f.catch? m h x) (g.catch? m' h x) := by
  obtain @⟨b, activation⟩ := wider
  have catches : ∀ position clause, Frame.catches m' h b position x clause = Frame.catches m h f.activation position x clause :=
    fun position clause => by
      unfold Frame.catches
      simp only [activation.regionHolds, modules.isInstance_eq]
  have clauses : ∀ position clauses index,
      Frame.findClause m' h b position x index clauses = Frame.findClause m h f.activation position x index clauses := by
    intro position clauses
    induction clauses with
    | nil => exact fun _ => rfl
    | cons clause rest ih =>
      intro index
      simp only [Frame.findClause, catches, ih]
  have same : ∀ {α : Type} (e : Except Fault α), Agree Eq e e := fun e => by
    cases e with
    | ok a => exact .ok rfl
    | error fault => exact .error
  unfold Frame.catch?
  simp only [activation.position, activation.stillActive, activation.handlers, clauses]
  refine (same _).bind fun position _ eq => eq ▸ (same _).bind fun active _ eq => eq ▸ (same _).bind fun found _ eq => eq ▸ .ok ?_
  cases found with
  | none => exact .none
  | some found => exact .some ⟨activation⟩

theorem inStep_catch? (modules : m.Wider m') (wider : f.Wider g) (h : Heap) (x : HeapRef) :
    InStep (Option.Rel Frame.Wider) (ofExcept (f.catch? m h x)) (ofExcept (g.catch? m' h x)) := by
  have agree := catch?_agree modules wider h x
  generalize f.catch? m h x = r, g.catch? m' h x = r' at agree
  cases agree with
  | ok both => exact .pure both
  | error => exact .throw _

theorem inStep_unwind_cons (modules : m.Wider m') (x : HeapRef) (top : f.Wider g) (callers : List.Forall₂ Frame.Waits cs ds)
    (rest : InStep Execution.Wider (unwind m x cs) (unwind m' x ds)) :
    InStep Execution.Wider (unwind m x (f :: cs)) (unwind m' x (g :: ds)) := by
  unfold unwind
  refine .behind _ fun h => (inStep_catch? modules top h x).bind fun found found' both => ?_
  cases both with
  | some handling => exact .pure (.running handling callers)
  | none => exact rest

theorem inStep_unwind (modules : m.Wider m') (x : HeapRef) (callers : List.Forall₂ Frame.Waits cs ds) :
    InStep Execution.Wider (unwind m x cs) (unwind m' x ds) := by
  induction callers with
  | nil => exact .pure (.finished _)
  | cons waits callers ih => exact inStep_unwind_cons modules x waits.wider callers ih

theorem inStep_raise (modules : m.Wider m') (fault : Fault) (frames : List.Forall₂ Frame.Waits cs ds) :
    InStep Execution.Wider (raise m fault cs) (raise m' fault ds) := by
  cases frames with
  | nil => exact .throw fault
  | @cons f g cs ds waits callers =>
    simp only [raise, waits.instruction]
    split
    · exact .behind _ fun _ => .behind _ fun x => inStep_unwind modules x (.cons waits callers)
    · exact .throw fault

theorem raise_of_unseen {fault : Fault} (unseen : fault.exceptionName? = none) (m : Module) (frames : List Frame) :
    raise m fault frames = throw fault := by
  cases frames with
  | nil => rfl
  | cons f cs =>
    unfold raise
    rw [unseen]

/-! ### Results of calls -/

theorem inStep_goAhead (top : f.Wider g) (callers : List.Forall₂ Frame.Waits cs ds) :
    InStep Execution.Wider (goAhead f cs) (goAhead g ds) := by
  obtain ⟨activation⟩ := top
  unfold goAhead Frame.ahead
  rw [activation.next]
  cases f.activation.next f.place with
  | ok h => exact .pure (.running ⟨activation⟩ callers)
  | error cause => exact .throw _

theorem Activation.Wider.start {a b : Activation} (wider : a.Wider b) (first : Handle) :
    (Frame.start a [] first).Wider (.start b [] first) := by
  have same : Frame.start b [] first = { Frame.start a [] first with activation := b } := by
    unfold Frame.start
    rw [wider.slots]
  rw [same]
  exact ⟨wider⟩

theorem Frame.Wider.receive (wider : f.Wider g) (value : Value) : (f.receive value).Wider (g.receive value) := by
  obtain ⟨activation⟩ := wider
  cases value <;> exact ⟨activation⟩

theorem inStep_settle (modules : m.Wider m') (frames : List.Forall₂ Frame.Waits cs ds) {P P' : Progress} (both : P.Wider P') :
    InStep Execution.Wider (settle m cs P) (settle m' ds P') := by
  cases both with
  | enter callee => exact .pure (.running callee frames)
  | done outcome =>
    cases outcome with
    | threw x => exact inStep_unwind modules x frames
    | returned value =>
      cases frames with
      | nil => exact .pure (.finished _)
      | cons waits callers => exact inStep_goAhead (waits.wider.receive value) callers

theorem inStep_settleAttempt (modules : m.Wider m') (frames : List.Forall₂ Frame.Waits cs ds) {x y : Running Progress}
    (both : InStep Progress.Wider x y) :
    InStep Execution.Wider (settleAttempt m cs x) (settleAttempt m' ds y) := by
  unfold settleAttempt
  refine both.attempt.bind fun r r' agree => ?_
  cases agree with
  | ok progress => exact inStep_settle modules frames progress
  | error => exact inStep_raise modules _ frames

end Modules

/-! ### Calls -/

section Calls

variable {p : Program} {m' : Module} {depth : Nat}

theorem inStep_enterBody {d d' : MethodDef} {b b' : Body} (method : d.Alters (fun _ => Body.Wider) d') (body : b.Wider b')
    (arguments : List Value) :
    InStep Progress.Wider (enterBody p depth d b arguments) (enterBody { p with module := m' } depth d' b' arguments) := by
  have activation : (Activation.ofMethod d b arguments).Wider (.ofMethod d' b' arguments) :=
    ⟨method.token, body, congrArg (fun s : Signature => !s.result.isVoid) method.signature, rfl⟩
  have first : b'.code.first? = b.code.first? := congrArg (·[0]?) body.code.order
  unfold enterBody
  dsimp only
  rw [method.signature, method.token, first]
  split
  · split
    · refine .behind _ fun _ => ?_
      cases b.code.first? with
      | none => exact .throw _
      | some place => exact .pure (.enter (activation.start place))
    · exact .throw _
  · exact .throw _

theorem inStep_callDefinition (modules : p.module.Wider m') (token : Token) (arguments : List Value) :
    InStep Progress.Wider (callDefinition p depth token arguments)
      (callDefinition { p with module := m' } depth token arguments) := by
  have hosts : Program.hostMethod? { p with module := m' } token = p.hostMethod? token := rfl
  unfold callDefinition
  rw [hosts]
  cases p.hostMethod? token with
  | some host => exact .behind _ fun outcome => .pure (.done outcome)
  | none =>
    have found := modules.method? token
    simp only
    generalize p.module.method? token = x, m'.method? token = y at found
    cases found with
    | none => exact .throw _
    | @some x y both =>
      obtain ⟨t, d⟩ := x
      obtain ⟨t', d'⟩ := y
      obtain ⟨-, method⟩ := both
      have bodies := method.body
      simp only
      generalize d.body = b, d'.body = b' at bodies
      cases bodies with
      | none => exact .throw _
      | some body => exact inStep_enterBody method body arguments

theorem inStep_andThen {P P' : Progress} {next : Pending} {finish finish' : Value → Running Progress} (both : P.Wider P')
    (each : ∀ value, InStep Progress.Wider (finish value) (finish' value)) :
    InStep Progress.Wider (P.andThen next finish) (P'.andThen next finish') := by
  cases both with
  | enter wider =>
    obtain ⟨activation⟩ := wider
    exact .pure (.enter ⟨activation⟩)
  | done outcome =>
    cases outcome with
    | returned value => exact each value
    | threw x => exact .pure (.done _)

theorem inStep_constructDefinition (modules : p.module.Wider m') (token : Token) (arguments : List Value) :
    InStep Progress.Wider (constructDefinition p depth token arguments)
      (constructDefinition { p with module := m' } depth token arguments) := by
  unfold constructDefinition
  have found := modules.method? token
  simp only
  generalize p.module.method? token = x, m'.method? token = y at found
  cases found with
  | none => exact .throw _
  | @some x y both =>
    obtain ⟨t, d⟩ := x
    obtain ⟨t', d'⟩ := y
    have object : InStep Eq (allocate (.instance t.token)) (allocate (.instance t'.token)) := by
      rw [show t'.token = t.token from both.1.token]
      exact .self _
    exact object.bind fun _ _ same => same ▸ (inStep_callDefinition modules token _).bind fun _ _ call =>
      inStep_andThen call fun _ => .pure (.done _)

theorem inStep_instantiate (modules : p.module.Wider m') (a : Attribute) :
    InStep Progress.Wider (instantiate p depth a) (instantiate { p with module := m' } depth a) := by
  unfold instantiate
  refine .behind _ fun arguments => ?_
  have constructors : Option.Rel (MethodDef.Alters fun _ => Body.Wider)
      ((((p.module.typeDef? a.type).map (·.methods)).getD []).find? fun d =>
        d.isConstructor && d.parameters.length == arguments.length)
      ((((m'.typeDef? a.type).map (·.methods)).getD []).find? fun d =>
        d.isConstructor && d.parameters.length == arguments.length) := by
    have types := modules.typeDef? a.type
    generalize p.module.typeDef? a.type = x, m'.typeDef? a.type = y at types
    cases types with
    | none => exact .none
    | some type =>
      exact rel_find? (fun _ _ method => by rw [method.isConstructor, method.parameters]) type.methods
  simp only [modules.naming_eq]
  revert constructors
  generalize List.find? _ _ = x
  generalize List.find? _ _ = y
  intro constructors
  cases constructors with
  | some method =>
    simp only [method.token]
    exact inStep_constructDefinition modules _ _
  | none =>
    simp only
    split
    · exact .behind _ fun _ => .pure (.done _)
    · exact .behind _ fun _ => .throw _

theorem inStep_collect (modules : p.module.Wider m') (objects : Array Value) (attributes : List Attribute) :
    InStep Progress.Wider (collect p depth objects attributes)
      (collect { p with module := m' } depth objects attributes) := by
  induction attributes generalizing objects with
  | nil => exact .behind _ fun _ => .pure (.done _)
  | cons a rest ih => exact (inStep_instantiate modules a).bind fun _ _ call => inStep_andThen call fun object => ih _

theorem inStep_initializeLibrary (arguments : List Value) :
    InStep Progress.Wider (initializeLibrary arguments) (initializeLibrary arguments) := by
  refine .behind _ fun this => .behind _ fun heap => .behind _ fun message => ?_
  split
  · exact .behind _ fun heap => .behind _ fun _ => .behind _ fun _ => .pure (.done _)
  · exact .throw _

theorem inStep_callLibrary (modules : p.module.Wider m') (token : Token) (arguments : List Value) :
    InStep Progress.Wider (callLibrary p depth token arguments)
      (callLibrary { p with module := m' } depth token arguments) := by
  unfold callLibrary
  simp only [modules.imports, modules.selectAttributes_eq, modules.memberName_eq]
  split
  · split
    all_goals repeat' first
      | exact .pure (.done _)
      | exact .throw _
      | exact inStep_initializeLibrary arguments
      | exact inStep_collect modules _ _
      | refine .behind _ fun _ => ?_
      | split
  · exact .throw _

theorem inStep_call (modules : p.module.Wider m') (target : Token) (arguments : List Value) (dynamic : Bool) :
    InStep Progress.Wider (call p depth target arguments dynamic)
      (call { p with module := m' } depth target arguments dynamic) := by
  have hosts : ∀ token, Program.hostMethod? { p with module := m' } token = p.hostMethod? token := fun _ => rfl
  unfold call
  extract_lets onward onward'
  have resolves : ∀ resolved, InStep Progress.Wider (onward resolved) (onward' resolved) := by
    intro resolved
    dsimp only [onward, onward']
    rw [hosts, hosts]
    cases p.hostMethod? resolved <|> p.hostMethod? target with
    | some host => exact .behind _ fun outcome => .pure (.done outcome)
    | none =>
      dsimp only
      split
      · exact inStep_callDefinition modules resolved arguments
      · split
        · exact inStep_callLibrary modules resolved arguments
        · exact .throw _
  cases dynamic with
  | false => exact resolves target
  | true =>
    simp only [modules.dispatch_eq]
    exact .behind _ fun heap => .behind _ fun resolved => resolves resolved

theorem inStep_constructException (modules : p.module.Wider m') (token : Token) (arguments : List Value) :
    InStep Progress.Wider (constructException p depth token arguments)
      (constructException { p with module := m' } depth token arguments) := by
  unfold constructException
  simp only [modules.imports, modules.naming_eq, modules.library]
  split
  · exact .throw _
  · refine .behind _ fun typeName => ?_
    split
    · split
      · exact .behind _ fun object => (inStep_call modules token _ false).bind fun _ _ call =>
          inStep_andThen call fun _ => .pure (.done _)
      · exact .throw _
    · exact .throw _

theorem inStep_construct (modules : p.module.Wider m') (token : Token) (arguments : List Value) :
    InStep Progress.Wider (construct p depth token arguments)
      (construct { p with module := m' } depth token arguments) := by
  unfold construct
  split
  · exact inStep_constructDefinition modules token arguments
  · split
    · exact inStep_constructException modules token arguments
    · exact .throw _

theorem inStep_complete (modules : p.module.Wider m') (pending : List Pending) (outcome : Outcome) :
    InStep Progress.Wider (complete p depth pending outcome)
      (complete { p with module := m' } depth pending outcome) := by
  induction pending generalizing outcome with
  | nil => exact .pure (.done _)
  | cons next rest ih =>
    cases outcome with
    | threw x => cases next <;> exact .pure (.done _)
    | returned value =>
      cases next with
      | construct object => exact ih _
      | collect objects attributes =>
        refine (inStep_collect modules _ attributes).bind fun P P' both => ?_
        cases both with
        | done outcome => exact ih outcome
        | enter wider =>
          obtain ⟨activation⟩ := wider
          exact .pure (.enter ⟨activation⟩)

end Calls

/-! ### Instructions -/

section Instructions

variable {p : Program} {m' : Module} {f g : Frame} {cs ds : List Frame}

theorem inStep_leave (wider : f.Wider g) (target : Handle) :
    InStep Frame.Wider (compute (f.leave target)) (compute (g.leave target)) := by
  obtain ⟨activation⟩ := wider
  unfold Frame.leave
  simp only [activation.position, activation.stillActive]
  cases f.activation.position target with
  | error cause => exact .throw _
  | ok position =>
    change InStep _ (compute (Frame.stillActive f.activation position f.active >>= _))
      (compute (Frame.stillActive f.activation position f.active >>= _))
    cases Frame.stillActive f.activation position f.active with
    | error cause => exact .throw _
    | ok active => exact .pure ⟨activation⟩

/-- An effect is a call. -/
def Effect.isCall : Effect → Prop
  | .call _ _ _ | .construct _ _ => True
  | _ => False

theorem inStep_perform (modules : p.module.Wider m') (top : f.Wider g) (callers : List.Forall₂ Frame.Waits cs ds)
    (effect : Effect)
    (waits : effect.isCall → g.activation.body.code.get? g.place = f.activation.body.code.get? f.place) :
    InStep Execution.Wider (perform p f cs effect) (perform { p with module := m' } g ds effect) := by
  cases effect with
  | next => exact inStep_goAhead top callers
  | store slot value =>
    obtain ⟨activation⟩ := top
    exact inStep_goAhead ⟨activation⟩ callers
  | jump target =>
    obtain ⟨activation⟩ := top
    exact .pure (.running ⟨activation⟩ callers)
  | leave target => exact (inStep_leave top target).bind fun _ _ left => .pure (.running left callers)
  | exit value =>
    obtain ⟨activation⟩ := top
    unfold perform
    rw [callers.length_eq]
    exact inStep_settleAttempt modules callers (inStep_complete modules _ _)
  | throw x => exact inStep_unwind_cons modules x top callers (inStep_unwind modules x callers)
  | call target arguments dynamic =>
    unfold perform
    rw [callers.length_eq]
    exact inStep_settleAttempt modules (.cons ⟨top, waits trivial⟩ callers) (inStep_call modules _ _ _)
  | construct target arguments =>
    unfold perform
    rw [callers.length_eq]
    exact inStep_settleAttempt modules (.cons ⟨top, waits trivial⟩ callers) (inStep_construct modules _ _)

/-- No branch is a call. -/
theorem Instruction.not_isCall {i : Instruction} {effect : Effect} (short : i.opcode.isShortBranch = true)
    (makes : i.Makes effect) : ¬ effect.isCall := by
  intro calls
  have branch := action_of_short short
  cases effect with
  | call target arguments dynamic =>
    have action : i.opcode.action = .call dynamic := makes
    simp [action] at branch
  | construct target arguments =>
    have action : i.opcode.action = .construct := makes
    simp [action] at branch
  | _ => exact calls

theorem inStep_advance (modules : p.module.Wider m') (top : f.Wider g) (callers : List.Forall₂ Frame.Waits cs ds) :
    InStep Execution.Wider (advance p f cs) (advance { p with module := m' } g ds) := by
  intro s
  cases found : f.activation.body.code.get? f.place with
  | none =>
    obtain ⟨activation⟩ := top
    rw [advance_of_missing found, advance_of_missing (activation.missing found)]
    exact .error
  | some i =>
    -- The instructions are the same unless they are a short branch and its long form.
    obtain ⟨j, there, same, stepped⟩ : ∃ j, g.activation.body.code.get? g.place = some j ∧
        (i.opcode.isShortBranch = true ∨ j = i) ∧ step m' g j = step p.module f i := by
      obtain ⟨activation⟩ := top
      have equal := step_eq modules (.within activation) (f := f) i
      rcases activation.fetch found with same | long
      · exact ⟨i, same, .inr rfl, equal⟩
      · refine ⟨i.widened, long, ?_, (Instruction.step_widened _ _ i).trans equal⟩
        cases short : i.opcode.isShortBranch with
        | false => exact .inr (Instruction.widened_of_long short)
        | true => exact .inl rfl
    rw [advance_eq found, advance_eq there, stepped]
    cases ended : step p.module f i s with
    | ok result t =>
      obtain ⟨stack, effect⟩ := result
      have makes := ensures_step p.module f i _ _ _ ended
      refine inStep_perform modules (f := { f with stack }) ?_ callers effect (fun calls => ?_) t
      · obtain ⟨activation⟩ := top
        exact ⟨activation⟩
      · obtain rfl := same.resolve_left fun short => Instruction.not_isCall short makes calls
        exact there.trans found.symm
    | error fault t =>
      rcases same with short | rfl
      · have unseen := Instruction.fatal_step_of_short short p.module f _ _ _ ended
        simp only [raise_of_unseen unseen]
        exact .error
      · exact inStep_raise modules fault (.cons ⟨top, there.trans found.symm⟩ callers) t

theorem inStep_run (modules : p.module.Wider m') (budget : Nat) {e e' : Execution} (both : e.Wider e') :
    InStep Eq (run p budget e) (run { p with module := m' } budget e') := by
  induction budget generalizing e e' with
  | zero =>
    cases both with
    | finished outcome => exact .self _
    | running top callers => exact .self _
  | succ budget ih =>
    cases both with
    | finished outcome => exact .self _
    | running top callers => exact .behind _ fun _ => (inStep_advance modules top callers).bind fun _ _ => ih

theorem inStep_execute (modules : p.module.Wider m') {x y : Running Progress} (calls : InStep Progress.Wider x y) :
    InStep Eq (p.execute x) (Program.execute { p with module := m' } y) := by
  unfold Program.execute
  refine calls.bind fun _ _ call => (inStep_settle modules .nil call).bind fun _ _ start => ?_
  exact .behind _ fun s => inStep_run modules _ start

end Instructions

/-! ### Widening a method -/

/-- The method with its body widened. -/
def MethodDef.widen (d : MethodDef) : MethodDef := { d with body := d.body.map (·.widen.1) }

/-- The module with the body of one method widened, by its place among the methods of a type. -/
def Module.widenMethod (m : Module) (type method : Nat) : Module :=
  { m with types := m.types.modify type fun t => { t with methods := t.methods.modify method MethodDef.widen } }

private theorem forall₂_modify {α : Type} {R : α → α → Prop} {f : α → α} (refl : ∀ a, R a a) (change : ∀ a, R a (f a))
    (l : List α) (n : Nat) : List.Forall₂ R l (l.modify n f) := by
  induction l generalizing n with
  | nil => cases n <;> exact .nil
  | cons a l ih =>
    cases n with
    | zero => exact .cons (change a) (List.forall₂_same.mpr fun b _ => refl b)
    | succ n => exact .cons (refl a) (ih n)

/-- A body is one of its own layouts, and so is the widened one. -/
theorem MethodDef.alters_self (d : MethodDef) : d.Alters (fun _ => Body.Wider) d where
  body := rel_self fun b _ => ⟨.refl b.code, rfl⟩
  rest := rfl

theorem MethodDef.alters_widen (d : MethodDef) : d.Alters (fun _ => Body.Wider) d.widen where
  body := by
    unfold widen
    cases d.body with
    | none => exact .none
    | some b => exact .some b.wider_widen
  rest := rfl

theorem Module.wider_widenMethod (m : Module) (type method : Nat) : m.Wider (m.widenMethod type method) where
  types := by
    refine forall₂_modify (fun t => ⟨?_, rfl⟩) (fun t => ⟨?_, rfl⟩) m.types type
    · exact List.forall₂_same.mpr fun d _ => d.alters_self
    · exact forall₂_modify MethodDef.alters_self MethodDef.alters_widen t.methods method
  rest := rfl

/-- Widening the body of a method changes no call and no construction: neither how it ends, nor the heap, the calls of
    the host, the instructions counted and the notes that it leaves behind. -/
theorem invoke_widenMethod (p : Program) (type method : Nat) (target : Token) (arguments : List Value) (s : Machine) :
    let widened := { p with module := p.module.widenMethod type method }
    widened.invoke target arguments s = p.invoke target arguments s ∧
      widened.construct target arguments s = p.construct target arguments s := by
  have modules := p.module.wider_widenMethod type method
  have invokes : p.invoke target arguments = _ := (inStep_execute modules (inStep_call modules target arguments false)).eq
  have constructs : p.construct target arguments = _ := (inStep_execute modules (inStep_construct modules target arguments)).eq
  exact ⟨(congrFun invokes s).symm, (congrFun constructs s).symm⟩

end AspectWeaving

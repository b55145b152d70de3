import AspectWeaving.Proofs.HookDiscipline
import AspectWeaving.Proofs.SoundSteps

/-!
Runs of valid code. Every frame of a run stands at an instruction of a valid body with all its slots
(`Frame.Placed`), and behind the instruction of a frame that waits for a call there is another one
(`Frame.Awaits`). One instruction keeps it that way (`secures_advance`), so no run fails for a structural
fault (`verified_serves_soundly`).
-/
namespace AspectWeaving

open Running (compute fail allocate note attempt callHost Secures secures_heap secures_allocate secures_modifyObject)

/-! ### Frames -/

/-- A frame stands at an instruction of a valid body and has all its slots. -/
structure Frame.Placed (f : Frame) : Prop where
  valid : f.activation.body.Valid
  slots : f.slots.size = f.activation.body.slots.size
  place : f.place.index < f.activation.body.code.size

/-- A frame can go on behind its instruction. -/
structure Frame.Awaits (f : Frame) : Prop extends Placed f where
  falls : ∃ i, f.activation.body.code.get? f.place = some i ∧ i.opcode.fallsThrough = true

/-- A frame with those below it, which wait for it. -/
def Stacked : List Frame → Prop
  | [] => True
  | f :: callers => f.Placed ∧ ∀ g ∈ callers, g.Awaits

theorem stacked_of_awaits {frames : List Frame} (await : ∀ f ∈ frames, f.Awaits) : Stacked frames := by
  cases frames with
  | nil => trivial
  | cons f callers => exact ⟨(await f List.mem_cons_self).toPlaced, fun g below => await g (List.mem_cons_of_mem _ below)⟩

/-- What an execution has come to. -/
def Execution.Sound : Execution → Prop
  | .finished _ => True
  | .running top callers => Stacked (top :: callers)

namespace Frame

variable {f g : Frame} {m : Module} {h : Heap} {x : HeapRef}

theorem Awaits.ahead (awaits : f.Awaits) : ∃ g, f.ahead = .ok g ∧ g.Placed := by
  obtain ⟨i, found, falls⟩ := awaits.falls
  obtain ⟨n, stands⟩ := Code.exists_position awaits.place
  -- The instruction is not the last one, since control does not go on behind that.
  have more : n + 1 < f.activation.body.code.order.size := by
    by_contra none
    obtain ⟨last, j, ends, there, stops⟩ := awaits.valid.last
    have bound := (Array.getElem?_eq_some_iff.mp stands).1
    have same : f.activation.body.code.order.size - 1 = n := by omega
    rw [Code.last?, Array.back?_eq_getElem?, same, stands] at ends
    cases ends
    rw [found] at there
    cases there
    rw [falls] at stops
    cases stops
  have behind := Array.getElem?_eq_getElem more
  have goes : f.ahead = .ok { f with place := f.activation.body.code.order[n + 1] } := by
    rw [Frame.ahead, Activation.next_eq stands behind]
    rfl
  refine ⟨_, goes, awaits.valid, awaits.slots, ?_⟩
  exact (f.activation.body.code.mem_order_iff _).mp (Array.mem_of_getElem? behind)

theorem Placed.leave {target : Handle} (placed : f.Placed) (inside : target.index < f.activation.body.code.size) :
    ∃ g, f.leave target = .ok g ∧ g.Placed := by
  obtain ⟨n, stands⟩ := Code.exists_position inside
  obtain ⟨active, still⟩ := stillActive_isOk placed.valid.live n f.active
  refine ⟨{ f with place := target, stack := [], active }, ?_, placed.valid, placed.slots, inside⟩
  rw [Frame.leave, Activation.position_eq stands]
  simp only [bind, Except.bind, still]
  rfl

theorem catches_error {a : Activation} {position : Nat} {c : Handler} {fault : Fault} (live : a.body.Live)
    (member : c ∈ a.body.handlers) (failed : catches m h a position x c = .error fault) :
    fault.isStructural = false := by
  obtain ⟨guarded, -, span, -⟩ := live member
  unfold catches at failed
  rw [Activation.regionHolds_eq span] at failed
  cases holds : guarded.contains position with
  | false =>
    rw [holds] at failed
    cases failed
  | true =>
    rw [holds] at failed
    simp only at failed
    split at failed
    · cases failed
      rfl
    · split at failed
      · cases failed
      · rename_i type _
        cases decided : isInstance m h x type with
        | ok holds =>
          rw [decided] at failed
          cases failed
        | error cause =>
          rw [decided] at failed
          cases failed
          exact sturdy_isInstance m h x type cause decided

theorem findClause_error {a : Activation} {position index : Nat} {clauses : List Handler} {fault : Fault}
    (live : a.body.Live) (among : clauses ⊆ a.body.handlers)
    (failed : findClause m h a position x index clauses = .error fault) : fault.isStructural = false := by
  induction clauses generalizing index with
  | nil => cases failed
  | cons c clauses ih =>
    rw [findClause] at failed
    cases taken : catches m h a position x c with
    | error cause =>
      rw [taken] at failed
      cases failed
      exact catches_error live (among List.mem_cons_self) taken
    | ok takes =>
      rw [taken] at failed
      cases takes with
      | true => cases failed
      | false => exact ih (fun d later => among (List.mem_cons_of_mem _ later)) failed

theorem Placed.catch?_error {fault : Fault} (placed : f.Placed) (failed : f.catch? m h x = .error fault) :
    fault.isStructural = false := by
  obtain ⟨n, stands⟩ := Code.exists_position placed.place
  obtain ⟨active, caught⟩ := catch?_eq m h x placed.valid.live stands
  rw [caught] at failed
  cases looked : findClause m h f.activation n x 0 f.activation.body.handlers with
  | ok found =>
    rw [looked] at failed
    cases failed
  | error cause =>
    rw [looked] at failed
    cases failed
    exact findClause_error placed.valid.live (List.Subset.refl _) looked

theorem Placed.catch?_some (placed : f.Placed) (caught : f.catch? m h x = .ok (some g)) : g.Placed := by
  obtain ⟨c, index, active, member, rfl⟩ := catch?_eq_some caught
  obtain ⟨-, handling, -, span⟩ := placed.valid.live member
  have start := (Body.span?_eq_some_iff.mp span).1
  exact ⟨placed.valid, placed.slots, (f.activation.body.code.mem_order_iff _).mp (Array.mem_of_getElem? start)⟩

end Frame

/-! ### Calls -/

/-- What a call comes to. -/
def Progress.Sound : Progress → Prop
  | .done _ => True
  | .enter f => f.Placed

/-- All bodies of a module are valid. -/
def Module.Verified (m : Module) : Prop := ∀ t ∈ m.types, ∀ d ∈ t.methods, ∀ body, d.body = some body → body.validate = .ok ()

instance (m : Module) : Decidable m.Verified :=
  decidable_of_iff (m.types.all fun t => t.methods.all fun d => d.body.all fun b => b.validate.isOk) <| by
    simp only [Module.Verified, List.all_eq_true, Option.all_eq_true, isOk_eq_true_iff]

/-- A host method does not fail for a structural fault of its own. -/
def HostMethod.Sound (method : HostMethod) : Prop :=
  ∀ arguments heap fault heap', method arguments heap = .error fault heap' → fault.isStructural = false

/-- Valid bodies, and host methods without structural faults. -/
structure Program.Sound (p : Program) : Prop where
  verified : p.module.Verified
  hosts : ∀ host ∈ p.hostMethods, HostMethod.Sound host.2

theorem Module.Verified.valid {m : Module} {token : Token} {type : TypeDef} {d : MethodDef} {body : Body}
    (verified : m.Verified) (found : m.method? token = some (type, d)) (has : d.body = some body) : body.Valid := by
  obtain ⟨t, declared, here⟩ := List.exists_of_findSome?_eq_some found
  obtain ⟨d', among, same⟩ := Option.map_eq_some_iff.mp here
  cases same
  exact Body.validate_eq_ok_iff.mp (verified type declared d (List.mem_of_find?_eq_some among) body has)

section Calls

variable {p : Program} {depth : Nat}

theorem Program.Sound.host {token : Token} {host : Token × HostMethod} (sound : p.Sound)
    (found : p.hostMethod? token = some host) : HostMethod.Sound host.2 :=
  sound.hosts host (List.mem_of_find?_eq_some found)

theorem secures_callHost {host : Token × HostMethod} (sound : HostMethod.Sound host.2) (arguments : List Value) :
    Secures (callHost host arguments) fun _ => True := by
  refine ⟨Running.Ensures.always, fun {s fault t} failed => ?_⟩
  unfold callHost at failed
  cases answered : host.2 arguments s.heap with
  | ok outcome heap =>
    rw [answered] at failed
    cases failed
  | error cause heap =>
    rw [answered] at failed
    cases failed
    exact sound _ _ _ _ answered

theorem secures_andThen {progress : Progress} {next : Pending} {finish : Value → Running Progress}
    (sound : progress.Sound) (finished : ∀ value, Secures (finish value) Progress.Sound) :
    Secures (progress.andThen next finish) Progress.Sound := by
  cases progress with
  | enter f => exact Secures.pure ⟨sound.valid, sound.slots, sound.place⟩
  | done outcome =>
    cases outcome with
    | returned value => exact finished value
    | threw x => exact Secures.pure trivial

theorem secures_note (event : TraceEvent) : Secures (note event) fun _ => True :=
  .total fun s => ⟨(), { s with trace := s.trace.push event }, rfl⟩

theorem secures_enterBody (d : MethodDef) {body : Body} (valid : body.Valid) (arguments : List Value) :
    Secures (enterBody p depth d body arguments) Progress.Sound := by
  obtain ⟨last, i, ends, -, -⟩ := valid.last
  obtain ⟨bound, -⟩ := Array.getElem?_eq_some_iff.mp (Array.back?_eq_getElem?.symm.trans ends)
  have starts : body.code.first? = some body.code.order[0] := Array.getElem?_eq_getElem (by omega)
  have inside := (body.code.mem_order_iff _).mp (Array.mem_of_getElem? starts)
  unfold enterBody
  dsimp only
  split
  · split
    · refine (secures_note _).bind fun _ _ => ?_
      rw [starts]
      exact Secures.pure ⟨valid, by simp [Frame.start, Activation.slots], inside⟩
    · exact Secures.fail rfl
  · exact Secures.fail rfl

theorem secures_callDefinition (sound : p.Sound) (token : Token) (arguments : List Value) :
    Secures (callDefinition p depth token arguments) Progress.Sound := by
  unfold callDefinition
  split
  · rename_i host found
    exact (secures_callHost (sound.host found) arguments).bind fun _ _ => Secures.pure trivial
  · split
    · exact Secures.fail rfl
    · rename_i type d found
      split
      · exact Secures.fail rfl
      · rename_i body has
        exact secures_enterBody d (sound.verified.valid found has) arguments

theorem secures_constructDefinition (sound : p.Sound) (token : Token) (arguments : List Value) :
    Secures (constructDefinition p depth token arguments) Progress.Sound := by
  unfold constructDefinition
  split
  · exact Secures.fail rfl
  · refine (secures_allocate _).bind fun object _ => (secures_callDefinition sound token _).bind fun call entered => ?_
    exact secures_andThen entered fun _ => Secures.pure trivial

theorem secures_toValue (argument : AttributeArgument) : Secures argument.toValue fun _ => True := by
  cases argument <;> first
    | exact Secures.pure trivial
    | exact (secures_allocate _).bind fun _ _ => Secures.pure trivial

theorem secures_mapM_toValue (arguments : List AttributeArgument) :
    Secures (arguments.mapM (·.toValue)) fun _ => True := by
  induction arguments with
  | nil => exact Secures.pure trivial
  | cons argument arguments ih =>
    rw [List.mapM_cons]
    exact (secures_toValue argument).bind fun _ _ => ih.bind fun _ _ => Secures.pure trivial

theorem secures_instantiate (sound : p.Sound) (a : Attribute) :
    Secures (instantiate p depth a) Progress.Sound := by
  refine (secures_mapM_toValue a.arguments).bind fun arguments _ => ?_
  dsimp only
  split
  · exact secures_constructDefinition sound _ _
  · split
    · exact (secures_allocate _).bind fun _ _ => Secures.pure trivial
    · exact (Secures.compute (by simp)).bind fun _ _ => Secures.throw rfl

theorem secures_collect (sound : p.Sound) (objects : Array Value) (attributes : List Attribute) :
    Secures (collect p depth objects attributes) Progress.Sound := by
  induction attributes generalizing objects with
  | nil => exact (secures_allocate _).bind fun _ _ => Secures.pure trivial
  | cons a rest ih =>
    exact (secures_instantiate sound a).bind fun call entered => secures_andThen entered fun object => ih _

@[simp] theorem sturdy_thisArgument (arguments : List Value) : Sturdy (thisArgument arguments) := by
  cases arguments <;> simp [thisArgument, ExecutionFault.isStructural]

@[simp] theorem sturdy_thisObject (h : Heap) (arguments : List Value) : Sturdy (thisObject h arguments) :=
  (sturdy_thisArgument arguments).bind fun _ => sturdy_object h _

@[simp] theorem sturdy_memberName (m : Module) (object : HeapObject) : Sturdy (memberName m object) := by
  cases object <;> simp [memberName, Sturdy.map, Heap.mismatch, ExecutionFault.isStructural]

@[simp] theorem sturdy_exceptionMessage (object : HeapObject) : Sturdy (exceptionMessage object) := by
  cases object <;> simp [exceptionMessage, Heap.mismatch, ExecutionFault.isStructural]

@[simp] theorem sturdy_describedMethod (object : HeapObject) : Sturdy (describedMethod object) := by
  cases object <;> simp [describedMethod, Heap.mismatch, ExecutionFault.isStructural]

@[simp] theorem sturdy_describedType (h : Heap) (value? : Option Value) : Sturdy (describedType h value?) := by
  unfold describedType
  split
  · exact Sturdy.ok
  · exact Sturdy.ok
  · refine (sturdy_object h _).bind fun object => ?_
    split <;> simp [throw, throwThe, MonadExceptOf.throw, Heap.mismatch, ExecutionFault.isStructural]

@[simp] theorem sturdy_selectAttributes (m : Module) (method : Token) (type : Option Token) :
    Sturdy (selectAttributes m method type) := by
  unfold selectAttributes
  split
  · split
    · exact Sturdy.pure
    · exact (sturdy_naming m _).bind fun _ => Sturdy.pure
  · exact Sturdy.pure

@[simp] theorem sturdy_messageArgument (h : Heap) (value? : Option Value) : Sturdy (messageArgument h value?) := by
  unfold messageArgument
  split
  · exact Sturdy.ok
  · exact Sturdy.ok
  · exact (sturdy_string h _).map

@[simp] theorem sturdy_dispatch (m : Module) (h : Heap) (target : Token) (this? : Option Value) :
    Sturdy (dispatch m h target this?) := by
  unfold dispatch
  split
  · refine (sturdy_get h _).bind fun object => ?_
    split
    · exact (sturdy_callShape m target).bind fun _ => Sturdy.pure
    · exact Sturdy.pure
  · exact Sturdy.pure

theorem secures_initializeLibrary (arguments : List Value) :
    Secures (initializeLibrary arguments) Progress.Sound := by
  refine (Secures.compute (by simp)).bind fun this _ => secures_heap.bind fun heap _ => ?_
  refine (Secures.compute (by simp)).bind fun message _ => ?_
  split
  · refine secures_heap.bind fun heap _ => (Secures.compute (by simp)).bind fun _ _ => ?_
    exact (secures_modifyObject _ _).bind fun _ _ => Secures.pure trivial
  · exact Secures.fail rfl

theorem secures_callLibrary (sound : p.Sound) (token : Token) (arguments : List Value) :
    Secures (callLibrary p depth token arguments) Progress.Sound := by
  unfold callLibrary
  split
  · split
    all_goals repeat' first
      | exact Secures.pure trivial
      | exact Secures.fail rfl
      | exact secures_initializeLibrary arguments
      | exact secures_collect sound _ _
      | refine secures_heap.bind fun _ _ => ?_
      | refine (secures_allocate _).bind fun _ _ => ?_
      | refine (Secures.compute (by simp)).bind fun _ _ => ?_
      | split
  · exact Secures.fail rfl

theorem secures_call (sound : p.Sound) (target : Token) (arguments : List Value) (dynamic : Bool) :
    Secures (call p depth target arguments dynamic) Progress.Sound := by
  unfold call
  extract_lets onward
  have resolves : ∀ resolved, Secures (onward resolved) Progress.Sound := by
    intro resolved
    dsimp only [onward]
    split
    · rename_i host found
      exact (secures_callHost (sound.hosts host (p.mem_of_hostMethod?_or found)) arguments).bind
        fun _ _ => Secures.pure trivial
    · split
      · exact secures_callDefinition sound resolved arguments
      · split
        · exact secures_callLibrary sound resolved arguments
        · exact Secures.fail rfl
  cases dynamic with
  | false => exact resolves target
  | true =>
    exact secures_heap.bind fun heap _ => (Secures.compute (by simp)).bind fun resolved _ => resolves resolved

theorem secures_constructException (sound : p.Sound) (token : Token) (arguments : List Value) :
    Secures (constructException p depth token arguments) Progress.Sound := by
  unfold constructException
  split
  · exact Secures.fail rfl
  · refine (Secures.compute (by simp)).bind fun typeName _ => ?_
    split
    · split
      · refine (secures_allocate _).bind fun object _ => (secures_call sound token _ false).bind fun call entered => ?_
        exact secures_andThen entered fun _ => Secures.pure trivial
      · exact Secures.throw rfl
    · exact Secures.fail rfl

theorem secures_construct (sound : p.Sound) (token : Token) (arguments : List Value) :
    Secures (construct p depth token arguments) Progress.Sound := by
  unfold construct
  split
  · exact secures_constructDefinition sound token arguments
  · split
    · exact secures_constructException sound token arguments
    · exact Secures.fail rfl

theorem secures_complete (sound : p.Sound) (pending : List Pending) (outcome : Outcome) :
    Secures (complete p depth pending outcome) Progress.Sound := by
  induction pending generalizing outcome with
  | nil => exact Secures.pure trivial
  | cons next rest ih =>
    cases outcome with
    | threw x => exact Secures.pure trivial
    | returned value =>
      cases next with
      | construct object => exact ih _
      | collect objects attributes =>
        refine (secures_collect sound _ attributes).bind fun progress entered => ?_
        cases progress with
        | done outcome => exact ih outcome
        | enter f => exact Secures.pure ⟨entered.valid, entered.slots, entered.place⟩

end Calls

/-! ### One instruction -/

section Advance

variable {p : Program} {m : Module} {f : Frame} {frames callers : List Frame} {i : Instruction}

/-- An instruction that neither leaves its place for another one nor fails has a next one. -/
theorem Opcode.fallsThrough_of_action {o : Opcode} {action : Action} (is : o.action = action)
    (goes : action ∉ [Action.jump, .leave, .exit, .throw, .rethrow, .unsupported]) : o.fallsThrough = true := by
  subst is
  cases o <;> first
    | rfl
    | exact absurd (by decide) goes

theorem secures_unwind (m : Module) (x : HeapRef) (stacked : Stacked frames) :
    Secures (unwind m x frames) Execution.Sound := by
  induction frames with
  | nil => exact Secures.pure trivial
  | cons f callers ih =>
    obtain ⟨placed, await⟩ := stacked
    have rest := ih (stacked_of_awaits await)
    constructor
    · intro s e t done
      rw [unwind_cons] at done
      split at done
      · rename_i handling caught
        cases done
        exact ⟨placed.catch?_some caught, await⟩
      · exact rest.ensures s e t done
      · cases done
    · intro s fault t failed
      rw [unwind_cons] at failed
      split at failed
      · cases failed
      · exact rest.sound failed
      · rename_i cause caught
        cases failed
        exact placed.catch?_error caught

theorem secures_raise (m : Module) {fault : Fault} (sound : fault.isStructural = false) (stacked : Stacked frames) :
    Secures (raise m fault frames) Execution.Sound := by
  unfold raise
  split
  · exact Secures.throw sound
  · split
    · exact (secures_note _).bind fun _ _ => (secures_allocate _).bind fun x _ => secures_unwind m x stacked
    · exact Secures.throw sound

theorem secures_goAhead (awaits : f.Awaits) (await : ∀ g ∈ callers, g.Awaits) :
    Secures (goAhead f callers) Execution.Sound := by
  obtain ⟨g, goes, placed⟩ := awaits.ahead
  unfold goAhead
  rw [goes]
  exact Secures.pure ⟨placed, await⟩

theorem Frame.Awaits.receive (awaits : f.Awaits) (value : Value) : (f.receive value).Awaits := by
  cases value <;> exact ⟨⟨awaits.valid, awaits.slots, awaits.place⟩, awaits.falls⟩

theorem secures_settle (m : Module) {progress : Progress} (sound : progress.Sound) (await : ∀ g ∈ frames, g.Awaits) :
    Secures (settle m frames progress) Execution.Sound := by
  cases progress with
  | enter callee => exact Secures.pure ⟨sound, await⟩
  | done outcome =>
    cases outcome with
    | threw x => exact secures_unwind m x (stacked_of_awaits await)
    | returned value =>
      cases frames with
      | nil => exact Secures.pure trivial
      | cons f callers =>
        exact secures_goAhead ((await f List.mem_cons_self).receive value)
          fun g below => await g (List.mem_cons_of_mem _ below)

theorem secures_settleAttempt (m : Module) {call : Running Progress} (sound : Secures call Progress.Sound)
    (await : ∀ g ∈ frames, g.Awaits) : Secures (settleAttempt m frames call) Execution.Sound := by
  refine sound.attempt.bind fun result tried => ?_
  cases result with
  | ok progress => exact secures_settle m (tried.1 progress rfl) await
  | error fault => exact secures_raise m (tried.2 fault rfl) (stacked_of_awaits await)

/-- What an instruction has to happen does so without a structural fault. -/
theorem secures_perform {effect : Effect} (sound : p.Sound) (placed : f.Placed) (await : ∀ g ∈ callers, g.Awaits)
    (found : f.activation.body.code.get? f.place = some i) (makes : i.Makes effect)
    (supported : i.opcode.action ≠ .unsupported) : Secures (perform p f callers effect) Execution.Sound := by
  have awaits : ∀ {action}, i.opcode.action = action →
      action ∉ [Action.jump, .leave, .exit, .throw, .rethrow, .unsupported] → f.Awaits :=
    fun is goes => ⟨placed, i, found, Opcode.fallsThrough_of_action is goes⟩
  have below : ∀ {action}, i.opcode.action = action →
      action ∉ [Action.jump, .leave, .exit, .throw, .rethrow, .unsupported] → ∀ g ∈ f :: callers, g.Awaits :=
    fun is goes => List.forall_mem_cons.mpr ⟨awaits is goes, await⟩
  cases effect with
  | next =>
    obtain ⟨jump, leave, exit, throw, rethrow, -, -⟩ := makes
    exact secures_goAhead (awaits rfl (by simp [jump, leave, exit, throw, rethrow, supported])) await
  | store slot value =>
    obtain ⟨fixed, stores⟩ := makes
    have stored := awaits stores (by simp)
    exact secures_goAhead (f := f.store slot value)
      ⟨⟨stored.valid, by simpa [Frame.store] using stored.slots, stored.place⟩, stored.falls⟩ await
  | jump target => exact Secures.pure ⟨⟨placed.valid, placed.slots, (placed.valid.instruction found).target makes.1⟩, await⟩
  | leave target =>
    obtain ⟨g, left, there⟩ := placed.leave ((placed.valid.instruction found).target makes.1)
    simp only [perform, left]
    exact Secures.pure ⟨there, await⟩
  | exit value => exact secures_settleAttempt _ (secures_complete sound _ _) await
  | throw x => exact secures_unwind _ x ⟨placed, await⟩
  | call target arguments dynamic =>
    exact secures_settleAttempt _ (secures_call sound ..) (below makes (by simp))
  | construct target arguments =>
    exact secures_settleAttempt _ (secures_construct sound ..) (below makes (by simp))

/-- One instruction has no structural fault, and it leaves frames that have none. -/
theorem secures_advance (sound : p.Sound) (placed : f.Placed) (await : ∀ g ∈ callers, g.Awaits) :
    Secures (advance p f callers) Execution.Sound := by
  obtain ⟨i, found⟩ := Option.isSome_iff_exists.mp (Code.get?_isSome_iff.mpr placed.place)
  have inside : ∀ slot, i.slot? = some slot → slot.toNat < f.slots.size := by
    intro slot used
    rw [placed.slots]
    exact (placed.valid.instruction found).slot used
  have fetched : f.activation.fetch f.place = .ok i := by
    unfold Activation.fetch
    rw [found]
  unfold advance
  rw [fetched]
  refine (secures_step p.module (placed.valid.instruction found |>.operand) inside).attempt.bind fun result tried => ?_
  cases result with
  | error fault => exact secures_raise _ (tried.2 fault rfl) ⟨placed, await⟩
  | ok e =>
    obtain ⟨makes, supported⟩ := tried.1 e rfl
    exact secures_perform sound ⟨placed.valid, placed.slots, placed.place⟩ await found makes supported

end Advance

/-! ### Runs -/

theorem secures_count : Secures Running.count fun _ => True :=
  .total fun s => ⟨(), { s with executed := s.executed + 1 }, rfl⟩

/-- A run has no structural fault. The induction is on the budget, and every instruction leaves a stack of
    placed frames for the next one. -/
theorem secures_run {p : Program} (sound : p.Sound) (budget : Nat) {e : Execution} (start : e.Sound) :
    Secures (run p budget e) fun _ => True := by
  induction budget generalizing e with
  | zero =>
    cases e with
    | finished outcome => exact Secures.pure trivial
    | running top callers => exact secures_count.bind fun _ _ => Secures.fail rfl
  | succ budget ih =>
    cases e with
    | finished outcome => exact Secures.pure trivial
    | running top callers =>
      exact secures_count.bind fun _ _ => (secures_advance sound start.1 start.2).bind fun next holds => ih holds

theorem secures_execute {p : Program} (sound : p.Sound) {call : Running Progress}
    (calls : Secures call Progress.Sound) : Secures (p.execute call) fun _ => True := by
  refine calls.bind fun progress entered => (secures_settle _ entered (by simp)).bind fun start holds => ?_
  exact (Secures.total fun s => ⟨s, s, rfl⟩).bind fun _ _ => secures_run sound _ holds

/-! ### What a host asks for -/

/-- A call that the host makes. -/
inductive HostRequest where
  | invoke (target : Token) (arguments : List Value)
  | construct (target : Token) (arguments : List Value)

def HostRequest.run (p : Program) : HostRequest → Running Outcome
  | .invoke target arguments => p.invoke target arguments
  | .construct target arguments => p.construct target arguments

/-- What a host does with a machine. -/
inductive HostAction where
  | request (request : HostRequest)
  /-- Stands in for a method. -/
  | register (token : Token) (method : HostMethod)
  /-- Works on the objects that exist. -/
  | edit (change : Heap → Heap)

/-- What the host gets for its requests, one after another on one machine. -/
def Program.serve (p : Program) : List HostAction → Machine → List (Except Fault Outcome)
  | [], _ => []
  | .register token method :: rest, s => (p.register token method).serve rest s
  | .edit change :: rest, s => p.serve rest { s with heap := change s.heap }
  | .request request :: rest, s =>
    match request.run p s with
    | .ok outcome t => .ok outcome :: p.serve rest t
    | .error fault t => .error fault :: p.serve rest t

theorem secures_request {p : Program} (sound : p.Sound) (request : HostRequest) :
    Secures (request.run p) fun _ => True := by
  cases request with
  | invoke target arguments => exact secures_execute sound (secures_call sound target arguments false)
  | construct target arguments => exact secures_execute sound (secures_construct sound target arguments)

/-- Where all bodies are valid, whatever the host does and whatever state the machine is in, no request
    fails for a branch that leads nowhere, for control that runs off the end, for a slot that is not there
    or for malformed code. -/
theorem verified_code_runs_soundly {p : Program} {actions : List HostAction} {s : Machine}
    (verified : p.module.Verified) (hosts : ∀ host ∈ p.hostMethods, HostMethod.Sound host.2)
    (registered : ∀ token method, .register token method ∈ actions → HostMethod.Sound method) :
    ∀ fault, .error fault ∈ p.serve actions s → fault.isStructural = false := by
  induction actions generalizing p s with
  | nil => exact nofun
  | cons action rest ih =>
    have later : ∀ token method, .register token method ∈ rest → HostMethod.Sound method :=
      fun token method among => registered token method (List.mem_cons_of_mem _ among)
    cases action with
    | register token method =>
      have first := registered token method List.mem_cons_self
      exact ih (p := p.register token method) verified (List.forall_mem_cons.mpr ⟨first, hosts⟩) later
    | edit change => exact ih verified hosts later
    | request request =>
      have requested := secures_request ⟨verified, hosts⟩ request
      intro fault failed
      unfold Program.serve at failed
      split at failed
      · rcases List.mem_cons.mp failed with here | behind
        · cases here
        · exact ih verified hosts later fault behind
      · rename_i cause t answered
        rcases List.mem_cons.mp failed with here | behind
        · cases here
          exact requested.sound answered
        · exact ih verified hosts later fault behind

namespace Sample

/-- A hook that does nothing. -/
def silent : HostMethod := fun _ heap => .ok (.returned .void) heap

/-- A host that has a hook of its own, and calls the method with its argument and without. -/
def visits : List HostAction :=
  [.register kind.onEntry silent, .request (.invoke echo.token [.int32 7]), .request (.invoke echo.token [])]

/-- The second call is refused, for another fault. -/
theorem visits_soundly :
    module.Verified ∧ HostMethod.Sound silent ∧
      ∃ fault, .error fault ∈ (program rows).serve visits {} ∧ fault.isStructural = false := by
  have verified : module.Verified := by decide +kernel
  have sound : HostMethod.Sound silent := nofun
  have refused : ((program rows).serve visits {})[1]?.map Except.isOk = some false := by decide +kernel
  obtain ⟨answer, second, failed⟩ := Option.map_eq_some_iff.mp refused
  cases answer with
  | ok outcome => cases failed
  | error fault =>
    have among := List.mem_of_getElem? second
    refine ⟨verified, sound, fault, among, ?_⟩
    refine verified_code_runs_soundly verified (by simp [program]) (fun token method registered => ?_) fault among
    obtain ⟨-, rfl⟩ : token = kind.onEntry ∧ method = silent := by simpa [visits] using registered
    exact sound

end Sample

end AspectWeaving

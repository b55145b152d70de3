import AspectWeaving.Proofs.Decorating
import AspectWeaving.Proofs.HookOutcomes
import AspectWeaving.Proofs.NamedTypes
import AspectWeaving.StandardLibrary

/-!
The discipline of the hook calls. However the hooks behave and wherever a run is cut, an activation of a
method with a decorator calls each hook at most once and in order (`Program.Disciplined.order`), and
what a hook does decides what becomes of the activation (`Program.Disciplined.outcomes`). This holds for
all activations in all runs (`hook_calls_disciplined`).
-/
namespace AspectWeaving

/-- The object of a reference derives from the type of all exceptions. -/
def Heap.IsException (m : Module) (h : Heap) (x : HeapRef) : Prop :=
  ∃ o, h.get? x = some o ∧ WellKnown.exception.fullName ∈ o.typeNames m

/-- The instructions that a weave adds, part after part. -/
def Weave.added (w : Weave) : List Instruction := w.prologue ++ w.epilogue ++ w.handler ++ w.returnBlock

/-- Added code calls the hooks of a decorator at three places, and nothing else virtually but the method
    that finds the attribute. -/
structure Weave.CallsHooks (w : Weave) (kind : DecoratorKind) (new : Body) : Prop where
  calls : w.added.filter (·.opcode == .callvirt) =
    [⟨.callvirt, .method w.plan.getCustomAttributes⟩, ⟨.callvirt, .method kind.onEntry⟩,
      ⟨.callvirt, .method kind.onExit⟩, ⟨.callvirt, .method kind.onException⟩]
  onEntry : new.code.get? w.entryCall = some ⟨.callvirt, .method kind.onEntry⟩
  onExit : new.code.get? w.exitCall = some ⟨.callvirt, .method kind.onExit⟩
  onException : new.code.get? w.exceptionCall = some ⟨.callvirt, .method kind.onException⟩

/-- An activation at its first instruction, with what is to become of its outcome and the frames below. -/
def Stage.entering (a : Activation) (pending : List Pending) (first : Handle) (cs : List Frame) (s : Machine) : Stage :=
  .ok (.running (.start a pending first) cs) s

/-- The new code starts with the prologue. -/
theorem Weave.Yields.first {w : Weave} {new : Body} (yields : w.Yields new) :
    new.code.first? = some ⟨w.old.code.size⟩ :=
  (yields.prologue 0 _ (List.getElem?_eq_getElem w.prologue_pos)).1

/-- How an activation with some frames below goes on in a run, from its start to a stage. -/
structure Program.Disciplined (p : Program) (w : Weave) (a : Activation) (cs : List Frame) (start : Stage)
    (visits : List Visit) (r : Stage) : Prop where
  /-- The calls so far are the beginning of a list of two calls, or the hook for failures has been called
      once, with an exception that has come out of the old code or of the hook behind it. -/
  order : w.hookCalls cs.length visits <+: [.onEntry, .onExit] ∨
    (∃ x, w.hookCalls cs.length visits = [.onEntry, .onException (.ref x)] ∧
      p.Escapes w a cs start visits (·.index < w.old.code.size) x) ∨
    ∃ x, w.hookCalls cs.length visits = [.onEntry, .onExit, .onException (.ref x)] ∧
      p.Escapes w a cs start visits (· = w.exitCall) x
  /-- While the activation is under way, its calls decide how it goes on. -/
  outcomes : ∀ {top callers between f s}, r = .ok (.running top callers) s → top :: callers = between ++ f :: cs →
    (∀ v ∈ visits, v.ends cs.length = false) → f.activation = a ∧ w.Outcomes p cs (w.hookCalls cs.length visits) f

section Added

variable {w : Weave} {new : Body} {kind : DecoratorKind} {m : Module} {token : Token} {name : TypeName}

theorem Module.tokenName?_of_namesType (names : m.imports.NamesType token name)
    (room : m.imports.typeRefs.size ≤ ImportTable.maxRows) : m.tokenName? token = some name.fullName := by
  have own : token.table ≠ Token.typeDef := by rw [names.table]; decide
  unfold tokenName? tokenNameWithin
  rw [if_neg own, if_pos names.table, names.getTypeRef? room]
  rfl

/-- An imported type is asked for by its name. -/
theorem isInstance_eq_true_iff (names : m.imports.NamesType token name)
    (room : m.imports.typeRefs.size ≤ ImportTable.maxRows) (h : Heap) (x : HeapRef) :
    isInstance m h x token = .ok true ↔ ∃ o, h.get? x = some o ∧ name.fullName ∈ o.typeNames m := by
  unfold isInstance Heap.get
  rw [m.naming_of_tokenName? (m.tokenName?_of_namesType names room)]
  cases h.get? x <;> simp [bind, Except.bind, Except.map]

/-- An instruction of another operation is no virtual call. -/
private theorem not_callvirt {i : Instruction} (other : i.opcode.action ≠ .call true) : (i.opcode == .callvirt) = false := by
  rw [beq_eq_false_iff_ne]
  rintro same
  exact other (by rw [same]; rfl)

private theorem loadSlot_not_callvirt (index : UInt16) : ((Instruction.loadSlot index).opcode == .callvirt) = false := by
  obtain ⟨⟨fixed, action⟩, -⟩ := Instruction.loadSlot_spec index
  exact not_callvirt (by rw [action]; nofun)

private theorem storeSlot_not_callvirt (index : UInt16) :
    ((Instruction.storeSlot index).opcode == .callvirt) = false := by
  obtain ⟨⟨fixed, action⟩, -⟩ := Instruction.storeSlot_spec index
  exact not_callvirt (by rw [action]; nofun)

private theorem loadArgument_not_callvirt (index : UInt16) :
    ((Instruction.loadArgument index).opcode == .callvirt) = false := by
  obtain ⟨⟨fixed, action⟩, -⟩ := Instruction.loadArgument_spec index
  exact not_callvirt (by rw [action]; nofun)

private theorem pushInt32_not_callvirt (value : Int32) : ((Instruction.pushInt32 value).opcode == .callvirt) = false := by
  unfold Instruction.pushInt32
  split <;> first | rfl | (split <;> rfl)

/-- Storing the arguments calls nothing. -/
private theorem storeArguments_filter {plan : WeavePlan} {s : WovenSlots}
    (fetch : ∀ l ∈ plan.parameters, l.Fetches) :
    ((plan.parameters.zipIdx.flatMap fun e => WeavePlan.storeArgument s e.1 e.2).filter (·.opcode == .callvirt)) = [] := by
  rw [List.filter_eq_nil_iff]
  intro i member
  obtain ⟨⟨l, position⟩, listed, here⟩ := List.mem_flatMap.mp member
  have parameter : l ∈ plan.parameters := List.mem_of_getElem? (List.mem_zipIdx_iff_getElem?.mp listed)
  simp only [WeavePlan.storeArgument, List.mem_append, List.mem_cons, List.not_mem_nil, or_false,
    Option.mem_toList, Option.map_eq_some_iff] at here
  rcases here with (((rfl | rfl | rfl) | fetched) | ⟨type, -, rfl⟩) | rfl
  · simp [loadSlot_not_callvirt]
  · simp [pushInt32_not_callvirt]
  · simp [loadArgument_not_callvirt]
  · rcases fetch l parameter i fetched with rfl | ⟨type, rfl⟩ <;> simp
  · simp
  · simp

theorem Weave.added_filter (fetch : ∀ l ∈ w.plan.parameters, l.Fetches) :
    w.added.filter (·.opcode == .callvirt) =
      [⟨.callvirt, .method w.plan.getCustomAttributes⟩, ⟨.callvirt, .method w.plan.onEntry⟩,
        ⟨.callvirt, .method w.plan.onExit⟩, ⟨.callvirt, .method w.plan.onException⟩] := by
  have stored := storeArguments_filter (s := w.slots) fetch
  have prologue : w.prologue.filter (·.opcode == .callvirt) =
      [⟨.callvirt, .method w.plan.getCustomAttributes⟩, ⟨.callvirt, .method w.plan.onEntry⟩] := by
    simp only [Weave.prologue, WeavePlan.prologue, List.filter_append, stored]
    simp [loadSlot_not_callvirt, storeSlot_not_callvirt, pushInt32_not_callvirt]
  have epilogue : w.epilogue.filter (·.opcode == .callvirt) = [⟨.callvirt, .method w.plan.onExit⟩] := by
    simp only [Weave.epilogue, WeavePlan.epilogue, List.filter_append]
    cases w.plan.storesResult <;> cases w.plan.resultBox <;>
      simp [loadSlot_not_callvirt, storeSlot_not_callvirt]
  have handler : w.handler.filter (·.opcode == .callvirt) = [⟨.callvirt, .method w.plan.onException⟩] := by
    simp [Weave.handler, WeavePlan.handler, loadSlot_not_callvirt, storeSlot_not_callvirt]
  have returnBlock : w.returnBlock.filter (·.opcode == .callvirt) = [] := by
    unfold Weave.returnBlock WeavePlan.returnBlock
    split <;> simp [loadSlot_not_callvirt]
  rw [Weave.added, List.filter_append, List.filter_append, List.filter_append, prologue, epilogue, handler, returnBlock]
  rfl

theorem Code.Alike.callvirt {c c' : Code} {h : Handle} {t : Token} (alike : c.Alike c')
    (found : c.get? h = some ⟨.callvirt, .method t⟩) : c'.get? h = some ⟨.callvirt, .method t⟩ := by
  obtain ⟨⟨opcode, operand⟩, there, action, same⟩ := alike.instruction found
  have virtual : opcode = .callvirt := Opcode.action_eq_call_iff.mp action.symm
  rw [there, virtual, ← show _ = operand from same]

/-- The calls of the hooks in the code of a method with a decorator. -/
theorem Decorates.callsHooks {r : Resolver} {d woven : MethodDef} {rows : ImportTable}
    (decorates : Decorates r d kind w rows woven new) : w.CallsHooks kind new := by
  obtain ⟨-, -, -, planned, place, spliced, splices, rfl⟩ := decorates
  have widened : spliced.code.Alike spliced.widen.1.code := Code.alike_widen spliced.code
  obtain ⟨front, parts, -⟩ := w.prologue_eq planned.fetchesStraight
  obtain ⟨before, epilogue, -⟩ := w.epilogue_eq
  refine
    { calls := ?_
      onEntry := ?_
      onExit := ?_
      onException := ?_ }
  · rw [← planned.onEntry, ← planned.onExit, ← planned.onException]
    exact w.added_filter planned.fetches
  · have last : w.prologue[w.prologue.length - 1]? = some ⟨.callvirt, .method w.plan.onEntry⟩ := by
      rw [parts]
      simp
    exact planned.onEntry ▸ widened.callvirt (splices.prologue _ _ last).2
  · have last : w.epilogue[w.epilogue.length - 2]? = some ⟨.callvirt, .method w.plan.onExit⟩ := by
      rw [epilogue]
      simp
    have inside := (List.getElem?_eq_some_iff.mp last).1
    refine planned.onExit ▸ widened.callvirt (splices.tail (w.epilogue.length - 2) _ ?_).2
    rw [Weave.tail, List.append_assoc, List.getElem?_append_left inside]
    exact last
  · have listed : w.tail[w.epilogue.length + 5]? = some ⟨.callvirt, .method w.plan.onException⟩ := by
      rw [Weave.tail, List.append_assoc, List.getElem?_append_right (Nat.le_add_right _ _), Nat.add_sub_cancel_left]
      rfl
    rw [Weave.exceptionCall, w.places_handler, Nat.add_assoc]
    exact planned.onException ▸ widened.callvirt (splices.tail _ _ listed).2

end Added

/-! ### All activations -/

section Activations

variable {p : Program} {w : Weave} {new : Body} {a : Activation} {cs : List Frame} {f : Frame} {visits : List Visit}
  {start r : Stage} {calls : List HookCall}

theorem Under.ordered (state : Under p w a cs (p.Source w a cs start visits) visits r) :
    Ordered (p.Source w a cs start visits) (w.hookCalls cs.length visits) := by
  cases state with
  | top going activation filled rest => exact rest.ordered fun _ _ source => source.early
  | waiting going activation filled pause => exact pause.ordered
  | finished order closed => exact order

/-- The exception that a frame at the call of the hook for failures has been entered with. -/
theorem Resting.exception {source : List HookCall → HeapRef → Prop} (rest : Resting w source calls f)
    (place : f.place = w.exceptionCall) :
    ∃ x index others, f.active = ⟨index, x⟩ :: others ∧ w.hookCall? f = some (.onException (.ref x)) := by
  have prologue := w.prologue_pos
  have epilogue := w.two_le_length_epilogue
  have handler := w.index_handler
  have exits := w.index_epilogue
  have behind : w.places.returnBlock.index = w.places.handler.index + 7 := by
    rw [w.places_returnBlock, w.length_handler]
  have here : f.place.index = w.places.handler.index + 5 := by
    rw [place]
    rfl
  cases rest with
  | handling at_ inside origin stack active =>
    rename_i n x
    obtain ⟨index, others, entered⟩ := active
    obtain rfl : n = 5 := by
      rw [at_] at here
      simpa using here
    have third : f.stack.getD 2 .null = .ref x := by
      rw [List.getD_eq_getElem?_getD, show f.stack[2]? = some (.ref x) from stack]
      rfl
    refine ⟨x, index, others, entered, ?_⟩
    rw [w.hookCall?_eq, if_neg (by omega), if_neg (by omega), if_pos (by omega), third]
  | old at_ => omega
  | entering at_ inside | exiting at_ inside | leaving at_ | returning at_ inside | rethrowing at_ =>
    rw [at_] at here
    simp only at here
    omega

theorem Pausing.exception {source : List HookCall → HeapRef → Prop} (pause : Pausing w source calls f)
    (place : f.place = w.exceptionCall) :
    ∃ x index others, f.active = ⟨index, x⟩ :: others ∧ calls.getLast? = some (.onException (.ref x)) := by
  have prologue := w.prologue_pos
  have epilogue := w.two_le_length_epilogue
  have handler := w.index_handler
  have exits := w.index_epilogue
  have here : f.place.index = w.places.handler.index + 5 := by
    rw [place]
    rfl
  cases pause with
  | handling at_ origin active =>
    obtain ⟨index, others, entered⟩ := active
    exact ⟨_, index, others, entered, by simp⟩
  | old at_ => omega
  | entering at_ inside | exiting at_ =>
    rw [at_] at here
    simp only [Weave.exitCall] at here
    omega

/-- A run keeps an activation of a woven body to the discipline. -/
theorem WovenActivation.disciplined {pending : List Pending} {s : Machine} (act : WovenActivation w new a)
    (leads : p.Leads (.entering a pending ⟨w.old.code.size⟩ cs s) visits r) :
    p.Disciplined w a cs (.entering a pending ⟨w.old.code.size⟩ cs s) visits r := by
  have begins := act.yields.first
  have begun : Under p w a cs (p.Source w a cs (.entering a pending ⟨w.old.code.size⟩ cs s) []) []
      (.entering a pending ⟨w.old.code.size⟩ cs s) := .first act pending begins _
  have state := Under.run act (.stay _) begun leads
  rw [List.nil_append] at state
  refine ⟨?_, fun {top callers between f s} running own going => ?_⟩
  · rcases state.ordered with first | ⟨made, x, ⟨rfl, escape⟩ | ⟨rfl, escape⟩, same⟩
    · exact .inl first
    · exact .inr (.inl ⟨x, same, escape⟩)
    · exact .inr (.inr ⟨x, same, escape⟩)
  · subst running
    cases state with
    | top _ activation filled rest =>
      obtain ⟨rfl, rfl⟩ : [] = between ∧ top = f := by
        cases between with
        | nil => exact ⟨rfl, (List.cons.inj own).1⟩
        | cons g others =>
          have lengths := congrArg List.length own
          simp only [List.length_cons, List.length_append] at lengths
          omega
      exact ⟨activation, act.outcomes activation filled fun place => by
        obtain ⟨x, index, others, active, called⟩ := rest.exception place
        exact ⟨x, index, others, active, .inr called⟩⟩
    | @waiting _ above g _ _ activation filled pause =>
      obtain rfl : g = f := by
        have whole : (top :: above) ++ g :: cs = between ++ f :: cs := by simpa using own
        have same := List.append_inj_right' whole (by simp)
        exact (List.cons.inj same).1
      exact ⟨activation, act.outcomes activation filled fun place => by
        obtain ⟨x, index, others, active, called⟩ := pause.exception place
        exact ⟨x, index, others, active, .inl called⟩⟩
    | finished _ closed =>
      rcases closed with ⟨v, member, ended⟩ | below
      · rw [going v member] at ended
        cases ended
      · have lower := below top callers s rfl
        have lengths := congrArg List.length own
        simp at lengths
        omega

end Activations

/-- However the hooks behave and wherever the run is cut, every activation of a method with a decorator keeps
    to the discipline. -/
theorem hook_calls_disciplined {r : Resolver} {policy : Policy} {d woven : MethodDef} {kind : DecoratorKind}
    {declaringType : Token} {before behind : Workspace} {old : Body} {p : Program}
    (plain : d.isConstructor = false) (body : d.body = some old) (valid : old.validate = .ok ())
    (done : decorate r policy d kind declaringType before = (.ok woven, behind))
    (rows : behind.imports.Grows p.module.imports) (room : p.module.imports.typeRefs.size ≤ ImportTable.maxRows) :
    ∃ w new, w.old = old ∧ woven = { d with body := some new } ∧ w.CallsHooks kind new ∧
      (∀ h x, isInstance p.module h x w.plan.exception = .ok true ↔ h.IsException p.module x) ∧
      new.code.first? = some ⟨w.old.code.size⟩ ∧
      ∀ arguments pending cs s visits r,
        p.Leads (.entering (.ofMethod woven new arguments) pending ⟨w.old.code.size⟩ cs s) visits r →
          p.Disciplined w (.ofMethod woven new arguments) cs
            (.entering (.ofMethod woven new arguments) pending ⟨w.old.code.size⟩ cs s) visits r := by
  obtain ⟨-, w, new, decorates, -, -⟩ := decorate_eq_ok done
  obtain rfl : old = w.old := Option.some.inj (body.symm.trans decorates.old)
  refine ⟨w, new, rfl, decorates.woven, decorates.callsHooks,
    isInstance_eq_true_iff (decorates.planned.exception.mono rows) room, (decorates.yields plain).first,
    fun arguments pending cs s visits r leads => ?_⟩
  have act : WovenActivation w new (.ofMethod woven new arguments) :=
    { yields := decorates.yields plain
      live := Body.live_of_validate valid
      targets := Body.targetsLive_of_validate valid
      fetches := decorates.planned.fetchesStraight
      body := rfl
      returnsValue := by
        rw [decorates.woven, decorates.planned.result]
        rfl }
  exact act.disciplined leads

/-! ### A small module -/

namespace Sample

/-- What hooks are told of a method: its description, and its arguments. -/
def description : List Parameter := [⟨"method", .classType (.ofParts Token.typeRef 1)⟩, ⟨"arguments", .array .object⟩]

/-- A decorator with hooks of its own. -/
def logger : TypeDecl where
  name := ⟨"Sample", "LogAttribute"⟩
  base := some (.external WellKnown.decoratorAttribute)
  methods :=
    [{ name := "OnEntry", parameters := description },
     { name := "OnExit", parameters := ⟨"result", .object⟩ :: description },
     { name := "OnException", parameters := ⟨"exception", .classType (.ofParts Token.typeRef 2)⟩ :: description }]

/-- A method that gives its argument back. -/
def echo : MethodDef where
  name := "Echo"
  modifiers := { isStatic := true }
  parameters := [⟨"value", .int32⟩]
  result := .int32
  body := some { code := .ofList [⟨.ldarg0, .none⟩, ⟨.ret, .none⟩] }
  attributes := [{ type := .ofParts Token.typeDef 1 }]
  token := .ofParts Token.methodDef 4

/-- The rows that the hooks mention. -/
def rows : ImportTable := { typeRefs := #[WellKnown.methodBase, WellKnown.exception] }

/-- The module of the decorator and of the type with the method. -/
def module : Module :=
  let start : Module := { name := "Sample", library := .standard, imports := rows }
  ((start.addType logger).1.addType { name := ⟨"Sample", "Host"⟩, methods := [echo.toMethod] }).1

/-- The decorator as it is discovered. -/
def kind : DecoratorKind where
  attributeType := .ofParts Token.typeDef 1
  name := "Sample.LogAttribute"
  onEntry := .ofParts Token.methodDef 1
  onExit := .ofParts Token.methodDef 2
  onException := .ofParts Token.methodDef 3

/-- The method with the decorator around it, and the rows there are then. -/
def decorated : Except Fault MethodDef × Workspace :=
  decorate (.ofModule module) {} echo kind (.ofParts Token.typeDef 2) { imports := rows }

/-- The module with some imported rows, under execution. -/
def program (rows : ImportTable) : Program := { module := { module with imports := rows } }

theorem exists_ok {α : Type} {e : Except Fault α} (succeeds : e.isOk = true) : ∃ a, e = .ok a := by
  cases e with
  | ok a => exact ⟨a, rfl⟩
  | error fault => cases succeeds

theorem exists_ok_fst {α β : Type} {e : Except Fault α × β} (succeeds : e.1.isOk = true) :
    ∃ a, e = (.ok a, e.2) := by
  obtain ⟨a, same⟩ := exists_ok succeeds
  exact ⟨a, by rw [← same]⟩

/-- The module under execution, where the host stands in for the hooks: the one behind the code throws an exception. -/
def throwingHook (rows : ImportTable) : Program :=
  { program rows with
    hostMethods :=
      [(kind.onEntry, fun _ => pure (.returned .void)),
       (kind.onExit, fun _ h => .ok (.threw h.nextRef) (h.push (.exception WellKnown.exception.fullName none))),
       (kind.onException, fun _ => pure (.returned .void))] }

/-- The host methods that are called when the method with the decorator is executed. -/
def calledIn (woven : MethodDef) (new : Body) : List Token :=
  ((throwingHook decorated.2.imports).trail 100 (.entering (.ofMethod woven new [.int32 7]) [] ⟨2⟩ [] {})).1.flatMap fun v =>
    v.calls.map (·.method)

set_option maxRecDepth 100000 in
/-- The hook behind the code of the method with the decorator throws an exception, and so the one for failures is called. -/
theorem echo_disciplined :
    ∃ woven w new visits r, decorated = (.ok woven, decorated.2) ∧
      (throwingHook decorated.2.imports).Disciplined w (.ofMethod woven new [.int32 7]) []
        (.entering (.ofMethod woven new [.int32 7]) [] ⟨2⟩ [] {}) visits r ∧
      (visits.flatMap fun v => v.calls.map (·.method)) = [kind.onEntry, kind.onExit, kind.onException] := by
  obtain ⟨woven, done⟩ := exists_ok_fst (show decorated.1.isOk = true by decide +kernel)
  obtain ⟨_, valid⟩ := exists_ok (show (echo.body.get rfl).validate.isOk = true by decide +kernel)
  have plain : echo.isConstructor = false := by decide +kernel
  have room : decorated.2.imports.typeRefs.size ≤ ImportTable.maxRows := by decide +kernel
  have body : echo.body = some (echo.body.get rfl) := rfl
  have called : decorated.1.toOption.bind (fun woven => woven.body.map (calledIn woven)) =
      some [kind.onEntry, kind.onExit, kind.onException] := by decide +kernel
  obtain ⟨w, new, old, wovenBody, -, -, -, disciplined⟩ := hook_calls_disciplined
    (p := throwingHook decorated.2.imports) plain body valid done (.refl _) room
  have size : w.old.code.size = 2 := by
    rw [old]
    rfl
  have bodied : woven.body = some new := by rw [wovenBody]
  rw [done] at called
  simp only [Except.toOption, Option.bind_some, bodied, Option.map_some, Option.some.injEq] at called
  rw [size] at disciplined
  exact ⟨woven, w, new, _, _, done, disciplined _ _ _ _ _ _ (Program.leads_trail ..), called⟩

end Sample

end AspectWeaving

import AspectWeaving.Proofs.HookDiscipline
import AspectWeaving.Proofs.LayerAttributes
import AspectWeaving.Proofs.Surroundings

/-!
Objects that are thrown. Any object can be thrown, but a clause for all exceptions takes those only whose types lead to the
type of all exceptions: what the machine knows as an exception, and objects of types of the module that have it among their
bases (`HeapObject.DerivesException`). Where the bases of a type leave the module at a type that the library lacks, nothing
is known of it, and its objects pass by the clause and by the hook for failures (`thrown_taken_iff`).
-/
namespace AspectWeaving

open AspectWeaving.Frame (Declines catches findClause)

/-- The types of an object lead to the type of all exceptions. -/
def HeapObject.DerivesException (m : Module) : HeapObject → Prop
  | .exception _ _ => True
  | .instance token =>
    (∃ t ∈ m.definitionChain token, t.fullName = WellKnown.exception.fullName) ∨
      ∃ base, m.outerBase? token = some base ∧ m.library.derivesFrom (.parse base.fullName) WellKnown.exception = true
  | _ => False

/-! ### Names of types -/

namespace Library

theorem mem_types_of_baseChain {l : Library} {name : TypeName} : ∀ t ∈ l.baseChain name, t ∈ l.types := by
  have found : ∀ {name : TypeName} {t}, l.get? name = some t → t ∈ l.types := fun found => List.mem_of_find?_eq_some found
  refine forall_mem_chain (fun t base _ next => ?_) _ _ fun t start => found start
  obtain ⟨name, -, next⟩ := Option.bind_eq_some_iff.mp next
  exact found next

/-- Only one type of the standard library has the name of the type of all exceptions. -/
theorem standard_exception : ∀ t ∈ standard.types,
    t.name.fullName = WellKnown.exception.fullName → t.name = WellKnown.exception := by
  decide +kernel

/-- A type of the standard library has the type of all exceptions among its names, if it derives from that. -/
theorem mem_typeNames_standard {name : String} :
    WellKnown.exception.fullName ∈ standard.typeNames name ↔
      standard.derivesFrom (.parse name) WellKnown.exception = true := by
  have known : standard.baseChain (.parse WellKnown.exception.fullName) ≠ [] := by decide +kernel
  unfold typeNames derivesFrom
  split
  · rename_i unknown
    rw [unknown]
    have other : WellKnown.exception.fullName ≠ WellKnown.object.fullName := by decide
    simp only [List.mem_cons, List.not_mem_nil, or_false, other, List.any_nil, Bool.false_eq_true, iff_false]
    rintro rfl
    exact known unknown
  · simp only [List.mem_map, List.any_eq_true, beq_iff_eq]
    constructor
    · rintro ⟨t, member, same⟩
      exact ⟨t, member, standard_exception t (mem_types_of_baseChain t member) same⟩
    · rintro ⟨t, member, same⟩
      exact ⟨t, member, by rw [same]⟩

end Library

theorem mem_withException (names : List String) : WellKnown.exception.fullName ∈ withException names := by
  unfold withException
  split
  · rename_i among
    simpa using among
  · simp

/-- Against the standard library, the names of the types of an object tell whether they lead to that of all exceptions. -/
theorem HeapObject.mem_typeNames_iff {m : Module} (standard : m.library = .standard) (o : HeapObject) :
    WellKnown.exception.fullName ∈ o.typeNames m ↔ o.DerivesException m := by
  cases o with
  | exception typeName message => exact ⟨fun _ => trivial, fun _ => mem_withException _⟩
  | «instance» token =>
    change _ ∈ m.typeNames token ↔ _
    unfold Module.typeNames DerivesException
    rw [List.mem_append, List.mem_map, standard]
    refine or_congr Iff.rfl ?_
    cases outer : m.outerBase? token with
    | none => simp
    | some base => simpa using Library.mem_typeNames_standard
  | _ => exact iff_of_false (by simp only [typeNames]; decide) not_false

/-! ### Clauses for all exceptions -/

/-- A clause for all exceptions holds the place of a frame, and the clauses before it decline an object. -/
structure Frame.Asks (m : Module) (h : Heap) (f : Frame) (x : HeapRef) (front : List Handler) (c : Handler) : Prop where
  listed : ∃ rest, f.activation.body.handlers = front ++ c :: rest
  catching : c.flags.isOtherClause = false
  type : ∃ type, c.catchType = some type ∧ m.tokenName? type = some WellKnown.exception.fullName
  holds : ∃ position span, f.activation.body.code.order[position]? = some f.place ∧
    f.activation.body.span? c.guarded = some span ∧ span.contains position = true ∧
      ∀ d ∈ front, Declines m h f.activation position x d

section Clauses

variable {m : Module} {h : Heap} {f : Frame} {a : Activation} {x : HeapRef} {o : HeapObject} {front clauses : List Handler} {c : Handler}
  {position index n : Nat}

theorem isInstance_of_named {type : Token} {name : String} (found : h.get? x = some o) (named : m.tokenName? type = some name) :
    isInstance m h x type = .ok (decide (name ∈ o.typeNames m)) := by
  unfold isInstance Heap.get
  rw [m.naming_of_tokenName? named, found]
  simp [bind, Except.bind, Except.map]

theorem Frame.le_of_findClause (found : findClause m h a position x index clauses = .ok (some (n, c))) : index ≤ n := by
  induction clauses generalizing index with
  | nil => cases found
  | cons d clauses ih =>
    unfold findClause at found
    cases takes : catches m h a position x d with
    | error fault =>
      rw [takes] at found
      cases found
    | ok takes' =>
      rw [takes] at found
      cases takes' with
      | true =>
        cases found
        exact Nat.le_refl _
      | false => exact Nat.le_of_succ_le (ih found)

/-- A clause for all exceptions takes what derives from them, and nothing else. -/
theorem Frame.Asks.taken_iff (asks : f.Asks m h x front c) (live : f.activation.body.Live) (standard : m.library = .standard)
    (found : h.get? x = some o) :
    (∃ active, f.catch? m h x = .ok (some (f.entering c front.length x active))) ↔ o.DerivesException m := by
  obtain ⟨rest, handlers⟩ := asks.listed
  obtain ⟨type, typed, named⟩ := asks.type
  obtain ⟨position, span, stands, guarded, inside, declined⟩ := asks.holds
  obtain ⟨active, caught⟩ := Frame.catch?_eq m h x live stands
  have answer : catches m h f.activation position x c = .ok (decide (WellKnown.exception.fullName ∈ o.typeNames m)) := by
    unfold catches
    rw [Activation.regionHolds_eq guarded, inside]
    simp only [asks.catching, typed, isInstance_of_named found named]
    rfl
  rw [handlers, findClause_append 0 declined, Nat.zero_add] at caught
  rw [caught, ← HeapObject.mem_typeNames_iff standard]
  unfold findClause
  rw [answer]
  by_cases derives : WellKnown.exception.fullName ∈ o.typeNames m
  · simp only [derives, decide_true]
    exact iff_of_true ⟨active, rfl⟩ trivial
  · simp only [derives, decide_false, iff_false]
    rintro ⟨other, taken⟩
    -- A clause behind would be entered under a number of its own.
    cases later : findClause m h f.activation position x (front.length + 1) rest with
    | error fault =>
      simp only [bind, Except.bind, later] at taken
      cases taken
    | ok result =>
      simp only [bind, Except.bind, later] at taken
      cases result with
      | none => cases taken
      | some e =>
        have behind := Frame.le_of_findClause later
        have same := congrArg Frame.active (Option.some.inj (Except.ok.inj taken))
        have number : e.1 = front.length := congrArg ActiveClause.index (List.cons.inj same).1
        omega

/-- An instruction that throws takes its object through the frames. -/
theorem Program.after_throw (p : Program) (cs : List Frame) {i : Instruction} {stack : List Value}
    (found : f.activation.body.code.get? f.place = some i) (throws : i.opcode.action = .throw) (top : f.stack = .ref x :: stack)
    (s : Machine) : p.after f cs s = unwind p.module x ({ f with stack } :: cs) s.counted := by
  rw [p.after_eq cs found]
  simp only [step, throws, top]
  rfl

end Clauses

/-! ### Woven methods -/

section Woven

variable {p : Program} {w : Weave} {new : Body} {m : Module} {h : Heap} {f : Frame} {x : HeapRef} {o : HeapObject} {cs : List Frame}

/-- None of the old clauses takes an object at the place of a frame. -/
def Weave.LetsOut (w : Weave) (m : Module) (h : Heap) (f : Frame) (x : HeapRef) : Prop :=
  ∃ position, f.activation.body.code.order[position]? = some f.place ∧
    ∀ c ∈ w.old.handlers.map (·.closedAt w.places.epilogue), Declines m h f.activation position x c

/-- The clause of a weave is asked about what the old code lets out. -/
theorem Weave.Yields.catch?_let_out (yields : w.Yields new) (live : w.old.Live) (body : f.activation.body = new)
    (inside : f.place.index < w.old.code.size) (out : w.LetsOut m h f x) :
    ∃ active, f.catch? m h x = w.answer f x active (isInstance m h x w.plan.exception) := by
  obtain ⟨position, stands, declined⟩ := out
  obtain ⟨k, old⟩ := Code.exists_position inside
  have bound := (Array.getElem?_eq_some_iff.mp old).1
  rw [w.old.code.size_order] at bound
  obtain rfl := Code.order_inj stands (body ▸ yields.order old)
  have later := Weave.Yields.epilogue_lt_handler w
  unfold Weave.epiloguePosition at later
  obtain ⟨active, caught⟩ := Frame.catch?_eq m h x (body ▸ yields.live live) stands
  refine ⟨active, ?_⟩
  rw [caught, body, yields.handlers, Frame.findClause_append 0 declined,
    yields.findClause_clause body (Nat.le_add_right _ _) (by omega), List.length_map, Nat.zero_add]
  cases isInstance m h x w.plan.exception with
  | error cause => rfl
  | ok takes => cases takes <;> rfl

/-- What old code lets out comes to the hook for failures, if it derives from the type of all exceptions. All else leaves
    the activation at once. -/
theorem Weave.Outcomes.let_out {calls : List HookCall} (outcomes : w.Outcomes p cs calls f) (yields : w.Yields new) (live : w.old.Live)
    (standard : p.module.library = .standard) (named : p.module.tokenName? w.plan.exception = some WellKnown.exception.fullName)
    (body : f.activation.body = new) (inside : f.place.index < w.old.code.size) (stack : List Value) {t : Machine}
    (found : t.heap.get? x = some o) (out : w.LetsOut p.module t.heap f x) :
    (o.DerivesException p.module → w.Handles p cs x (unwind p.module x ({ f with stack } :: cs) t)) ∧
      (¬ o.DerivesException p.module → unwind p.module x ({ f with stack } :: cs) t = unwind p.module x cs t) := by
  obtain ⟨active, caught⟩ := yields.catch?_let_out (f := { f with stack }) live body inside out
  rw [isInstance_of_named found named] at caught
  have unwound := unwind_cons p.module x { f with stack } cs t
  rw [caught] at unwound
  constructor
  · intro derives
    have takes : WellKnown.exception.fullName ∈ o.typeNames p.module := (HeapObject.mem_typeNames_iff standard o).mpr derives
    simp only [takes, decide_true, Weave.answer] at unwound
    rcases outcomes.escapes inside stack x t (by rw [isInstance_of_named found named, decide_eq_true takes]) with
      ⟨fault, failed⟩ | ⟨g, caught, -, low⟩ | handles
    · rw [unwound] at failed
      cases failed
    · rw [unwound] at caught
      cases caught
      have behind : w.old.code.size ≤ w.places.handler.index := by
        rw [w.places_handler, w.places_epilogue]
        simp only
        omega
      exact absurd low (Nat.not_lt.mpr behind)
    · exact handles
  · intro other
    have passes : WellKnown.exception.fullName ∉ o.typeNames p.module :=
      fun member => other ((HeapObject.mem_typeNames_iff standard o).mp member)
    simpa only [passes, decide_false, Weave.answer] using unwound

end Woven

/-- Against the standard library, a clause for all exceptions that no clause before it forestalls takes an object that is
    thrown, exactly if the types of the object lead to the type of all exceptions. So of what the old code of a method with a
    decorator lets out, in any run, that and only that comes to the hook for failures. -/
theorem thrown_taken_iff {p : Program} (standard : p.module.library = .standard) :
    (∀ {f : Frame} {cs : List Frame} {s : Machine} {i : Instruction} {x : HeapRef} {stack : List Value} {o : HeapObject}
        {front : List Handler} {c : Handler}, f.activation.body.validate = .ok () →
      f.activation.body.code.get? f.place = some i → i.opcode = .throw → f.stack = .ref x :: stack →
      s.heap.get? x = some o → f.Asks p.module s.heap x front c →
        (o.DerivesException p.module ↔
          ∃ active t, p.after f cs s = .ok (.running (f.entering c front.length x active) cs) t)) ∧
    ∀ {r : Resolver} {policy : Policy} {d woven : MethodDef} {kind : DecoratorKind} {declaringType : Token}
        {before behind : Workspace} {old : Body}, d.isConstructor = false → d.body = some old → old.validate = .ok () →
      decorate r policy d kind declaringType before = (.ok woven, behind) → behind.imports.Grows p.module.imports →
      p.module.imports.typeRefs.size ≤ ImportTable.maxRows →
        ∃ (w : Weave) (new : Body), w.old = old ∧ woven = { d with body := some new } ∧ w.CallsHooks kind new ∧
          ∀ {arguments pending cs s visits top callers between f s' stack x o t},
            p.Leads (.entering (.ofMethod woven new arguments) pending ⟨old.code.size⟩ cs s) visits
              (.ok (.running top callers) s') → top :: callers = between ++ f :: cs →
            (∀ v ∈ visits, v.ends cs.length = false) → f.place.index < old.code.size →
            t.heap.get? x = some o → w.LetsOut p.module t.heap f x →
              (o.DerivesException p.module → w.Handles p cs x (unwind p.module x ({ f with stack } :: cs) t)) ∧
                (¬ o.DerivesException p.module → unwind p.module x ({ f with stack } :: cs) t = unwind p.module x cs t) := by
  refine ⟨?_, ?_⟩
  · intro f cs s i x stack o front c valid found throws top object asks
    have taken := asks.taken_iff (Body.live_of_validate valid) standard object
    have same : ({ f with stack } : Frame).catch? p.module s.counted.heap x = f.catch? p.module s.heap x := rfl
    rw [← taken, p.after_throw cs found (by rw [throws]; rfl) top, unwind_cons, same]
    constructor
    · rintro ⟨active, caught⟩
      rw [caught]
      exact ⟨active, _, rfl⟩
    · rintro ⟨active, t, entered⟩
      split at entered
      · rename_i handling caught
        cases entered
        exact ⟨active, caught⟩
      · -- Below the frame there are fewer frames.
        have lower := below_unwind p.module x cs s.counted _ _ _ entered
        exact absurd lower (Nat.lt_irrefl _)
      · cases entered
  · intro r policy d woven kind declaringType before behind old plain body valid done rows room
    obtain ⟨-, w, new, decorates, -, -⟩ := decorate_eq_ok done
    obtain rfl : old = w.old := Option.some.inj (body.symm.trans decorates.old)
    refine ⟨w, new, rfl, decorates.woven, decorates.callsHooks, ?_⟩
    intro arguments pending cs s visits top callers between f s' stack x o t leads own going inside found out
    have act : WovenActivation w new (.ofMethod woven new arguments) :=
      { yields := decorates.yields plain
        live := Body.live_of_validate valid
        targets := Body.targetsLive_of_validate valid
        fetches := decorates.planned.fetchesStraight
        body := rfl
        returnsValue := by
          rw [decorates.woven, decorates.planned.result]
          rfl }
    obtain ⟨activation, outcomes⟩ := (act.disciplined leads).outcomes rfl own going
    have named := p.module.tokenName?_of_namesType (decorates.planned.exception.mono rows) room
    exact outcomes.let_out act.yields act.live standard named (by rw [activation, act.body]) inside stack found out

/-! ### A type with a base that is nowhere -/

namespace Sample

/-- A type whose base the library lacks. -/
def stray : TypeDecl where
  name := ⟨"Sample", "Stray"⟩
  base := some (.external ⟨"Vendor", "BaseException"⟩)
  methods := [{ name := constructorName, body := some { code := .ofList [⟨.ret, .none⟩] } }]

/-- A method that throws an object of the type. -/
def raising : MethodDef where
  name := "Raise"
  modifiers := { isStatic := true }
  body := some { code := .ofList [⟨.newobj, .method (.ofParts Token.methodDef 4)⟩, ⟨.throw, .none⟩] }
  attributes := [{ type := .ofParts Token.typeDef 1 }]
  token := .ofParts Token.methodDef 5

/-- The module of the decorator, of the type and of the method. -/
def strays : Module :=
  let start : Module := { name := "Sample", library := .standard, imports := rows }
  (((start.addType logger).1.addType stray).1.addType { name := ⟨"Sample", "Host"⟩, methods := [raising.toMethod] }).1

/-- The method with the decorator around it. -/
def raisingWoven : Except Fault MethodDef × Workspace :=
  decorate (.ofModule strays) {} raising kind (.ofParts Token.typeDef 3) { imports := rows }

/-- The woven module under execution, with hooks that return at once. -/
def straysProgram : Program where
  module := (weaveModule strays {}).1
  hostMethods := [kind.onEntry, kind.onExit, kind.onException].map fun token => (token, fun _ => pure (.returned .void))

theorem module_straysProgram : straysProgram.module = (weaveModule strays {}).1 := by
  rw [straysProgram, Program.module_mk]

/-- A heap that holds one exception. -/
def failure : Heap := ({} : Heap).push (.exception WellKnown.exception.fullName none)

/-- A call of the woven method, without one of its caller. -/
def raisingStart : Stage :=
  match raisingWoven.1 with
  | .ok woven => .entering (.ofMethod woven (woven.body.getD default) []) [] ⟨2⟩ [] {}
  | .error fault => .error fault {}

/-- The place of the only frame of a stage, whether its body has it, and the type of the object on top of its stack. -/
def thrownAt : Stage → Option (Handle × Bool × Option Token)
  | .ok (.running f []) s =>
    f.stack.head?.map fun top => (f.place, (f.activation.body.code.position? f.place).isSome, typeOf? s.heap top)
  | _ => none

set_option maxRecDepth 100000 in
/-- What is computed of the module: how it is woven, that nothing is known of the base of the type, and that the call comes to the
    instruction that throws and does not leave its frame before. -/
theorem strays_evaluated :
    ((weaveModule strays {}).1.library = .standard ∧ (weaveModule strays {}).1.imports = raisingWoven.2.imports) ∧
      ((raising.body.get rfl).validate.isOk = true ∧ raising.isConstructor = false ∧ raisingWoven.1.isOk = true ∧
        raisingWoven.2.imports.typeRefs.size ≤ ImportTable.maxRows) ∧
      WellKnown.exception.fullName ∉ (HeapObject.instance (.ofParts Token.typeDef 2)).typeNames (weaveModule strays {}).1 ∧
      thrownAt (straysProgram.trail 22 raisingStart).2 = some (⟨1⟩, true, some (.ofParts Token.typeDef 2)) ∧
      (straysProgram.trail 22 raisingStart).1.all (fun v => !v.ends 0) = true := by
  decide +kernel

theorem exists_of_thrownAt {r : Stage} {place : Handle} {type : Token} (throws : thrownAt r = some (place, true, some type)) :
    ∃ (f : Frame) (s : Machine) (x : HeapRef) (stack : List Value) (position : Nat), r = .ok (.running f []) s ∧
      f.place = place ∧ f.activation.body.code.order[position]? = some f.place ∧ f.stack = .ref x :: stack ∧
        s.heap.get? x = some (.instance type) := by
  unfold thrownAt at throws
  split at throws
  · rename_i f s
    obtain ⟨top, first, same⟩ := Option.map_eq_some_iff.mp throws
    obtain ⟨rfl, stands, typed⟩ : f.place = place ∧ (f.activation.body.code.position? f.place).isSome = true ∧
      typeOf? s.heap top = some type := by simpa using same
    obtain ⟨position, stands⟩ := Option.isSome_iff_exists.mp stands
    obtain ⟨stack, shape⟩ := List.head?_eq_some_iff.mp first
    have object : top.ref?.bind s.heap.get? = some (.instance type) := by
      unfold typeOf? at typed
      split at typed
      · rename_i found
        rw [found, Option.some.inj typed]
      · cases typed
    obtain ⟨x, ref, found⟩ := Option.bind_eq_some_iff.mp object
    cases top <;> cases ref
    exact ⟨f, s, x, stack, position, rfl, rfl, Code.position?_eq_some_iff.mp stands, shape, found⟩
  · cases throws

/-- The throw, in the woven body and in the old one. -/
theorem raising_kept {r : Resolver} {w : Weave} {t : ImportTable} {woven : MethodDef} {new : Body}
    (decorates : Decorates r raising kind w t woven new) :
    new.code.get? ⟨1⟩ = some ⟨.throw, .none⟩ ∧ w.old.code.order[1]? = some ⟨1⟩ ∧ w.old.code.size = 2 ∧ w.old.handlers = [] := by
  have old : w.old = raising.body.get rfl := Option.some.inj (decorates.old.symm.trans rfl)
  obtain ⟨place, spliced, splices, rfl⟩ := decorates.splices
  have throws : w.old.code.get? ⟨1⟩ = some ⟨.throw, .none⟩ := by rw [old]; rfl
  refine ⟨?_, by rw [old]; rfl, by rw [old]; rfl, by rw [old]; rfl⟩
  obtain ⟨j, there, becomes⟩ := splices.becomes throws
  cases becomes with
  | same => exact there
  | widened long => cases long
  | redirected ret => cases ret

/-- In a run of the woven method the object is thrown and leaves the method at once. An exception that is thrown in its place
    enters the clause of the decorator. -/
theorem stray_passes :
    ∃ (w : Weave) (new : Body), raisingWoven.1 = .ok { raising with body := some new } ∧ w.CallsHooks kind new ∧
      (∃ (visits : List Visit) (f : Frame) (s : Machine) (x : HeapRef) (stack : List Value),
        straysProgram.Leads (.entering (.ofMethod { raising with body := some new } new []) [] ⟨2⟩ [] {}) visits
          (.ok (.running f []) s) ∧ f.place = ⟨1⟩ ∧ f.stack = .ref x :: stack ∧
        s.heap.get? x = some (.instance (.ofParts Token.typeDef 2)) ∧
        unwind straysProgram.module x [{ f with stack }] s = .ok (.finished (.threw x)) s) ∧
      ∀ f : Frame, f.activation = .ofMethod { raising with body := some new } new [] → f.place = ⟨1⟩ → f.stack = [.ref ⟨1⟩] →
        ∃ active t, straysProgram.after f [] { heap := failure } = .ok (.running (f.entering w.clause 0 ⟨1⟩ active) []) t := by
  obtain ⟨⟨library, imports⟩, ⟨valid, plain, weaves, few⟩, underived, throws, inside⟩ := strays_evaluated
  obtain ⟨woven, done⟩ := exists_ok_fst weaves
  have standard : straysProgram.module.library = .standard := by rw [module_straysProgram, library]
  have rows : straysProgram.module.imports = raisingWoven.2.imports := by rw [module_straysProgram, imports]
  have room : straysProgram.module.imports.typeRefs.size ≤ ImportTable.maxRows := rows ▸ few
  have grows : raisingWoven.2.imports.Grows straysProgram.module.imports := rows ▸ .refl _
  have valid : (raising.body.get rfl).validate = .ok () := isOk_eq_true_iff.mp valid
  obtain ⟨taken, passes⟩ := thrown_taken_iff standard
  obtain ⟨u, new, old, rfl, -, runs⟩ := passes rfl rfl valid done grows room
  obtain ⟨body, bodied, fits⟩ := validate_of_decorate rfl done
  obtain rfl : new = body := Option.some.inj bodied
  obtain ⟨-, w, body, decorates, -, -⟩ := decorate_eq_ok done
  obtain rfl : new = body := Option.some.inj (congrArg (fun e : MethodDef => e.body) decorates.woven)
  have yields := decorates.yields plain
  obtain ⟨kept, stands, size, free⟩ := raising_kept decorates
  refine ⟨w, new, congrArg Prod.fst done, decorates.callsHooks, ?_, ?_⟩
  · have begun : raisingStart = .entering (.ofMethod { raising with body := some new } new []) [] ⟨2⟩ [] {} := by
      unfold raisingStart
      rw [congrArg Prod.fst done]
      rfl
    have leads := straysProgram.leads_trail 22 raisingStart
    generalize straysProgram.trail 22 raisingStart = way at leads throws inside
    obtain ⟨visits, r⟩ := way
    obtain ⟨f, s, x, stack, position, rfl, at_, stands, top, object⟩ := exists_of_thrownAt throws
    rw [begun] at leads
    have going : ∀ v ∈ visits, v.ends 0 = false := by simpa using inside
    have out : u.LetsOut straysProgram.module s.heap f x := by
      have free : u.old.handlers = [] := by
        rw [old]
        rfl
      refine ⟨position, stands, ?_⟩
      rw [free]
      exact List.forall_mem_nil _
    have gone := @runs [] [] [] {} visits f [] [] f s stack x _ s leads rfl going (by rw [at_]; decide) object out
    refine ⟨visits, f, s, x, stack, leads, at_, top, object, (gone.2 ?_).trans rfl⟩
    rw [← HeapObject.mem_typeNames_iff standard, module_straysProgram]
    exact underived
  · intro f activation at_ top
    have own : f.activation.body = new := by rw [activation]; rfl
    have named := straysProgram.module.tokenName?_of_namesType (decorates.planned.exception.mono grows) room
    have asks : f.Asks straysProgram.module failure ⟨1⟩ [] w.clause := by
      refine ⟨⟨[], ?_⟩, show HandlerFlags.catching.isOtherClause = false by decide, ⟨_, rfl, named⟩,
        ⟨w.prologue.length + 1, _, ?_, own ▸ yields.clause_guarded, ?_, nofun⟩⟩
      · rw [own, yields.handlers, free]
        rfl
      · rw [own, at_]
        exact yields.order stands
      · have := Weave.Yields.epilogue_lt_handler w
        simp only [Weave.epiloguePosition, size] at this
        simp only [Span.contains, Bool.and_eq_true, decide_eq_true_eq]
        omega
    exact (taken (s := { heap := failure }) (o := .exception WellKnown.exception.fullName none) (by rw [own]; exact fits)
      (by rw [own, at_]; exact kept) rfl top rfl asks).mp trivial

/-- The type of the object that a call of a method throws, and the methods of the host that it has called. -/
def thrownBy (p : Program) (method : Token) (arguments : List Value) : Option (Option Token × List Token) :=
  match p.invoke method arguments {} with
  | .ok (.threw x) s => some (typeOf? s.heap (.ref x), s.hostCalls.toList.map (·.method))
  | _ => none

set_option maxRecDepth 100000 in
/-- An object of the type leaves the woven method, and the hook for failures has not been called. -/
theorem stray_unhandled :
    strays.library = .standard ∧ (raising.body.get rfl).validate = .ok () ∧ raising.isConstructor = false ∧
      (weaveModule strays {}).2.woven = [raising.token] ∧
      thrownBy straysProgram raising.token [] = some (some (.ofParts Token.typeDef 2), [kind.onEntry]) := by
  have valid : (raising.body.get rfl).validate = .ok () := isOk_eq_true_iff.mp (by decide +kernel)
  refine ⟨rfl, valid, by decide +kernel, by decide +kernel, by decide +kernel⟩

end Sample

end AspectWeaving

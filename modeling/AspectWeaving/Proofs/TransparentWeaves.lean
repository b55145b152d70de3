import AspectWeaving.Proofs.AttributeTypes
import AspectWeaving.Proofs.LayerAttributes
import AspectWeaving.Proofs.Transparency

/-!
Transparent weaves. A method that is woven with a decorator, for whose hooks the host stands in, does what it has done
before: a call that has returned returns the same (`woven_returns`), and one that an exception has left is left by the same
exception (`woven_throws`), up to where objects are on the heap. The hooks are called once each, around the old code.
-/
namespace AspectWeaving

open Running (compute callHost)

/-! ### Modules with another method -/

section Replacing

variable {B : MethodDef → Body → Body → Prop} {m : Module} {d new : MethodDef}

/-- A module in which a method has another body. -/
theorem Module.alters_modifyLastMethod (refl : ∀ e b, B e b b) (known : m.lastMethod? d.token = some d) (alters : d.Alters B new) :
    m.Alters B (m.modifyLastMethod d.token fun _ => new) := by
  have own : ∀ e : MethodDef, e.Alters B e := fun e => ⟨by cases e.body with | none => exact .none | some b => exact .some (refl e b), rfl⟩
  refine ⟨?_, rfl⟩
  apply forall₂_modifyLast fun t => ⟨List.forall₂_same.mpr fun e _ => own e, rfl⟩
  intro t last
  refine ⟨?_, rfl⟩
  apply forall₂_modifyLast own
  intro e found
  have same : m.lastMethod? d.token = some e := Option.bind_eq_some_iff.mpr ⟨t, last, found⟩
  obtain rfl : d = e := Option.some.inj (known.symm.trans same)
  exact alters

/-- A program with another method in the place of one, within other limits. -/
def Program.replacing (p : Program) (new : MethodDef) (limits : Limits) : Program :=
  { p with module := p.module.modifyLastMethod new.token fun _ => new, limits }

variable {p : Program} {limits : Limits}

theorem Program.replacing_replacing (p : Program) (limits limits' : Limits) {new' : MethodDef} (same : new'.token = new.token) :
    (p.replacing new limits).replacing new' limits' = p.replacing new' limits' := by
  unfold replacing
  dsimp only
  rw [same, Module.modifyLastMethod_modifyLastMethod fun _ _ => rfl]
  rfl

theorem Program.replacing_eq_self (known : p.module.lastMethod? new.token = some new) : p.replacing new limits = { p with limits } := by
  unfold replacing
  rw [Module.modifyLastMethod_eq_self known rfl]

/-- The method that stands in the place of one is there. -/
theorem Program.lastMethod?_replacing {e : MethodDef} (known : p.module.lastMethod? new.token = some e) :
    (p.replacing new limits).module.lastMethod? new.token = some new := by
  unfold replacing
  rw [Module.lastMethod?_modifyLastMethod_self fun _ _ => rfl, known]
  rfl

end Replacing

/-! ### The setting -/

/-- Hooks for which the host stands in, without doing anything, and without getting in the way of what finds attributes. -/
structure Program.Watches (p : Program) (kind : DecoratorKind) (own : Attribute) (method : Token) : Prop where
  objects : kind.ActsOnObjects p.module
  hosted : ∀ hook, (p.hostMethod? (kind.hook hook)).isSome
  quiet : ∀ host ∈ p.hostMethods, HostMethod.Quiet host.2
  reflects : p.Reflects
  makes : p.MakesItself own.type
  free : p.hostMethod? method = none

section Setting

variable {p : Program} {m : Module} {kind : DecoratorKind} {own : Attribute} {method type : Token}

/-- A hook for which the host stands in does nothing, whichever method a call of it goes to. -/
theorem Program.quiets_of_hosted {count : Nat} {shape : CallShape} (shaped : p.module.callShape method = .ok shape)
    (counted : shape.argumentCount = count + 1) (hosted : (p.hostMethod? method).isSome)
    (quiet : ∀ host ∈ p.hostMethods, HostMethod.Quiet host.2) : p.Quiets type method count := by
  refine ⟨⟨shape, shaped, counted⟩, fun depth a rest s object => ?_⟩
  obtain ⟨resolved, goes⟩ : ∃ resolved, dispatch p.module s.heap method (some (.ref a)) = .ok resolved := by
    simp only [dispatch, Heap.get, object, shaped]
    exact ⟨_, rfl⟩
  obtain ⟨host, answers⟩ : ∃ host, (p.hostMethod? resolved <|> p.hostMethod? method) = some host := by
    cases first : p.hostMethod? resolved with
    | some host => exact ⟨host, rfl⟩
    | none => exact Option.isSome_iff_exists.mp hosted
  have member : host ∈ p.hostMethods := p.mem_of_hostMethod?_or answers
  refine ⟨host.1, ?_⟩
  have asked : compute (dispatch p.module s.heap method (Value.ref a :: rest).head?) s = .ok resolved s := by
    rw [List.head?_cons, goes]
    rfl
  have called : callHost host (.ref a :: rest) s =
      .ok (.returned .void) { s with hostCalls := s.hostCalls.push ⟨host.1, .ref a :: rest⟩ } := by
    unfold callHost
    rw [quiet host member]
  unfold call
  rw [if_pos rfl]
  refine (Running.bind_of_ok (x := Running.heap) rfl).trans ((Running.bind_of_ok asked).trans ?_)
  dsimp only
  rw [answers]
  exact (Running.bind_of_ok called).trans rfl

/-- A type derives from another one whatever the bodies are. -/
theorem Module.Alters.derives {B : MethodDef → Body → Body → Prop} {m' : Module} (alters : m.Alters B m') {attr : Token}
    (derives : ∃ u ∈ m.definitionChain attr, u.token = type) : ∃ u ∈ m'.definitionChain attr, u.token = type := by
  obtain ⟨u, above, same⟩ := derives
  obtain ⟨u', above', both⟩ := exists_paired_right (alters.definitionChain attr) u above
  exact ⟨u', above', both.token.trans same⟩

/-- An exception is one where it goes as well. -/
theorem Heap.IsException.mapped {h h' : Heap} {σ : HeapMap} {x y : HeapRef} (exception : h.IsException m x) (heap : h.Mapped σ h')
    (takes : σ.Takes x y) : h'.IsException m y := by
  obtain ⟨e, found, named⟩ := exception
  obtain ⟨o, o', here, there, same⟩ := heap.object takes
  obtain rfl : o = e := Option.some.inj (here.symm.trans found)
  exact ⟨o', there, same.typeNames m ▸ named⟩

/-- Hooks are watched in the same way in a module with other bodies. -/
theorem Program.Watches.of_alters {B : MethodDef → Body → Body → Prop} {q : Program} (watches : p.Watches kind own method)
    (modules : p.module.Alters B q.module) (hosts : q.hostMethods = p.hostMethods) : q.Watches kind own method := by
  have hosted : ∀ token, q.hostMethod? token = p.hostMethod? token := fun token => by
    unfold Program.hostMethod?
    rw [hosts]
  refine ⟨fun hook => ?_, fun hook => hosted _ ▸ watches.hosted hook, hosts ▸ watches.quiet, ?_, ?_, (hosted _).trans watches.free⟩
  · rw [modules.callShape_eq]
    exact watches.objects hook
  · unfold Program.Reflects
    rw [hosts, modules.imports]
    exact watches.reflects
  · intro d count found
    have constructors := modules.constructor_rel own.type count
    rw [show List.find? _ _ = some d from found] at constructors
    generalize before : List.find? _ _ = e at constructors
    cases constructors with
    | some same =>
      rw [hosted, same.token]
      exact watches.makes _ count before

/-- The decorator that a weave of a method makes. -/
def Weave.decor (w : Weave) (d : MethodDef) (new : Body) (own : Attribute) : Decor := ⟨w, new, d.signature, own.type⟩

section Decorates

variable {r : Resolver} {d woven : MethodDef} {w : Weave} {rows : ImportTable} {new : Body} {limits constructing : Limits}

/-- The decorator works where its hooks are watched. -/
theorem Decorates.works (decorates : Decorates r d kind w rows woven new) (plain : d.isConstructor = false) (valid : w.old.Valid)
    (watches : p.Watches kind own method) : (w.decor d new own).Works p := by
  have planned := decorates.planned
  have quiets : ∀ hook, p.Quiets own.type (kind.hook hook) hook.parameters := by
    intro hook
    obtain ⟨shape, shaped, count, this⟩ := watches.objects hook
    refine p.quiets_of_hosted shaped ?_ (watches.hosted hook) watches.quiet
    rw [CallShape.argumentCount, count, this]
    rfl
  refine ⟨decorates.yields plain, valid, planned.result, ?_, planned.exception.table, ?_, ?_, ?_⟩
  · rw [show (w.decor d new own).weave.plan = w.plan from rfl, planned.storesResult, planned.result]
    rfl
  · exact planned.onEntry ▸ quiets .onEntry
  · exact planned.onExit ▸ quiets .onExit
  · exact planned.onException ▸ quiets (.onException .null)

/-- The decorator finds its attribute, where there is just one of its type. -/
theorem Decorates.finds (decorates : Decorates r d kind w rows woven new) (direct : ∀ e ∈ d.parameters, e.sig.byRefElement? = none)
    (distinct : p.module.Distinct) (library : r.Reflective) (grows : rows.Grows p.module.imports)
    (room : p.module.imports.memberRefs.size ≤ ImportTable.maxRows) (watches : p.Watches kind own method)
    (one : attributesOf p.module d.token (some kind.attributeType) = [own]) (table : kind.attributeType.table = Token.typeDef)
    (derives : ∃ u ∈ p.module.definitionChain own.type, u.token = kind.attributeType) : (w.decor d new own).Finds p own := by
  have planned := decorates.planned
  exact
    { type := rfl
      getMethod := planned.getMethodFromHandle.answers grows room watches.reflects (by simp [MethodQuery.withTypes]) rfl library.getMethod
      getType := planned.getTypeFromHandle.answers grows room watches.reflects (by simp [MethodQuery.withTypes]) rfl library.getType
      getAttributes := planned.getCustomAttributes.answers grows room watches.reflects (by simp [MethodQuery.withTypes]) rfl
        library.getAttributes
      attributes := by
        change selectAttributes p.module w.method (some w.plan.attributeType) = _
        rw [decorates.method, planned.attributeType, ← one]
        exact selectAttributes_of_naming (p.module.naming_of_table (by rw [table]; decide))
      castable := fun object => by
        change checkCast _ _ _ w.plan.attributeType = _
        rw [planned.attributeType]
        exact checkCast_of_derives distinct table derives object
      loads := planned.parameters
      byValue := direct
      free := watches.makes }

/-- A method with a decorator, for whose hooks the host stands in, stands in the place of the old one. -/
theorem Decorates.stands (decorates : Decorates r d kind w rows woven new) (plain : d.isConstructor = false) (valid : w.old.Valid)
    (direct : ∀ e ∈ d.parameters, e.sig.byRefElement? = none) (known : p.module.lastMethod? d.token = some d)
    (distinct : p.module.Distinct) (library : r.Reflective) (grows : rows.Grows p.module.imports)
    (room : p.module.imports.memberRefs.size ≤ ImportTable.maxRows) (watches : p.Watches kind own d.token)
    (one : attributesOf p.module d.token (some kind.attributeType) = [own]) (table : kind.attributeType.table = Token.typeDef)
    (derives : ∃ u ∈ p.module.definitionChain own.type, u.token = kind.attributeType)
    (constructs : (p.replacing woven limits).Constructs own constructing)
    (deep : constructing.callDepth + p.limits.callDepth ≤ limits.callDepth) :
    (w.decor d new own).Stands own constructing p (p.replacing woven limits) := by
  have alters : d.Alters (Decor.Bodies (some (w.decor d new own))) woven := by
    rw [decorates.woven]
    refine ⟨?_, rfl⟩
    rw [decorates.old]
    exact .some (.inr ⟨_, rfl, decorates.method.symm, rfl, rfl, rfl⟩)
  have replaced : (p.replacing woven limits).module = p.module.modifyLastMethod d.token fun _ => woven := by
    unfold Program.replacing
    rw [alters.token]
  have modules : p.module.Alters (Decor.Bodies (some (w.decor d new own))) (p.replacing woven limits).module :=
    replaced ▸ p.module.alters_modifyLastMethod (fun _ _ => .inl rfl) known alters
  have unique : (p.replacing woven limits).module.Distinct := by
    rw [replaced]
    exact distinct.revised (Module.revised_modifyLastMethod (List.mem_singleton.mpr rfl) known alters.rest)
  have watched := watches.of_alters modules rfl
  refine ⟨modules, rfl, watches.quiet, decorates.works plain valid watched, ?_, constructs, unique, deep⟩
  refine decorates.finds direct unique library (modules.imports.symm ▸ grows) (modules.imports.symm ▸ room) watched
    (modules.attributesOf_eq _ _ ▸ one) table ?_
  exact modules.derives derives

/-- The added code takes an exception for one, where it is one for the library. -/
theorem Decorates.handles (decorates : Decorates r d kind w rows woven new) (grows : rows.Grows p.module.imports)
    (room : p.module.imports.typeRefs.size ≤ ImportTable.maxRows) {h : Heap} {x : HeapRef} (exception : h.IsException p.module x) :
    isInstance p.module h x w.plan.exception = .ok true :=
  (isInstance_eq_true_iff (decorates.planned.exception.mono grows) room h x).mpr exception

end Decorates

/-! ### Calls of woven methods -/

/-- A method to be woven with a decorator: it is no constructor, has a valid body and takes its arguments by value. It has
    one attribute that the decorator may look up. -/
structure Program.Decorable (p : Program) (kind : DecoratorKind) (own : Attribute) (d : MethodDef) (old : Body) : Prop where
  known : p.module.lastMethod? d.token = some d
  table : d.token.table = Token.methodDef
  plain : d.isConstructor = false
  direct : ∀ e ∈ d.parameters, e.sig.byRefElement? = none
  body : d.body = some old
  valid : old.validate = .ok ()
  one : attributesOf p.module d.token (some kind.attributeType) = [own]
  derives : ∃ u ∈ p.module.definitionChain own.type, u.token = kind.attributeType
  kind : kind.attributeType.table = Token.typeDef

/-- A module of which each token stands for one thing at most, with no more rows than there are numbers for. -/
structure Module.Ordinary (m : Module) : Prop where
  distinct : m.Distinct
  typeRefs : m.imports.typeRefs.size ≤ ImportTable.maxRows
  memberRefs : m.imports.memberRefs.size ≤ ImportTable.maxRows

section Woven

variable {r : Resolver} {policy : Policy} {d woven : MethodDef} {old : Body} {declaringType : Token} {before behind : Workspace}
  {constructing : Limits} {arguments : List Value} {s s' : Machine} {o : Outcome}

/-- A call of a woven method repeats one of the old method, where there is room for the bodies and the instructions. -/
theorem Program.Decorable.repeats (site : p.Decorable kind own d old) (ordinary : p.module.Ordinary) (watches : p.Watches kind own d.token)
    (library : r.Reflective) (done : decorate r policy d kind declaringType before = (.ok woven, behind))
    (rows : behind.imports.Grows p.module.imports) (constructs : (p.replacing woven {}).Constructs own constructing)
    (closed : s.heap.Closed) (has : ∀ v ∈ arguments, s.heap.Has v) (ended : p.invoke d.token arguments s = .ok o s') :
    ∃ w new, Decorates r d kind w behind.imports woven new ∧ w.old = old ∧ ∃ visits,
      p.Runs (.ofMethod d old arguments) ⟨s.noting (.entered d.token), visits, o, s'⟩ ∧
      ∀ callDepth, constructing.callDepth + p.limits.callDepth ≤ callDepth → ∃ c' τ A closing,
        c'.start = s.noting (.entered d.token) ∧
        (∀ instructions, (p.replacing woven ⟨instructions, callDepth⟩).Runs (.ofMethod woven new arguments) c' ∧
          (s.executed + c'.visits.length ≤ instructions →
            (p.replacing woven ⟨instructions, callDepth⟩).invoke d.token arguments s = .ok c'.outcome c'.finish)) ∧
        (w.decor d new own).Repeats p.module (.identity s.heap.size) τ (arguments.drop d.hasThis.toNat) A closing
          ⟨s.noting (.entered d.token), visits, o, s'⟩ c' := by
  obtain ⟨-, w, new, decorates, -, -⟩ := decorate_eq_ok done
  obtain rfl : old = w.old := Option.some.inj (site.body.symm.trans decorates.old)
  have valid : w.old.Valid := Body.validate_eq_ok_iff.mp site.valid
  obtain ⟨t, known⟩ := ordinary.distinct.exists_method? site.known
  obtain ⟨fits, room, visits, runs, -⟩ := (Program.invoke_eq_ok_iff known site.table watches.free site.body).mp ended
  refine ⟨w, new, decorates, rfl, visits, runs, fun callDepth deep => ?_⟩
  have token : woven.token = d.token := by rw [decorates.woven]
  have stands : ∀ instructions, (w.decor d new own).Stands own constructing p (p.replacing woven ⟨instructions, callDepth⟩) := fun instructions =>
    decorates.stands site.plain valid site.direct site.known ordinary.distinct library rows ordinary.memberRefs watches site.one
      site.kind site.derives constructs deep
  have signature : woven.signature = (w.decor d new own).signature := by
    rw [decorates.woven]
    rfl
  have same : List.Forall₂ (Value.Mapped (.identity s.heap.size)) arguments arguments :=
    List.forall₂_same.mpr fun v member => (has v member).mapped
  obtain ⟨c', τ, A, closing, started, runs', repeats⟩ :=
    (stands 0).repeats (t := s.noting (.entered d.token)) rfl signature fits same closed.mapped room runs
  refine ⟨c', τ, A, closing, started, fun instructions => ⟨runs'.within instructions, fun enough => ?_⟩, repeats⟩
  obtain ⟨t', known'⟩ : ∃ t', (p.replacing woven ⟨instructions, callDepth⟩).module.method? woven.token = some (t', woven) := by
    exact (stands instructions).distinct.exists_method? (Program.lastMethod?_replacing (token ▸ site.known))
  have holds : woven.body = some new := by rw [decorates.woven]
  rw [← token] at watches started ⊢
  refine (Program.invoke_eq_ok_iff known' (token ▸ site.table) watches.free holds).mpr
    ⟨signature ▸ fits, Nat.lt_of_lt_of_le room (Nat.le_trans (Nat.le_add_left _ _) deep), c'.visits, ?_, ?_⟩
  · rw [← started]
    exact runs'.within instructions
  · exact Nat.le_sub_of_add_le' enough

/-- Where a call of a method has returned, one of the woven method returns the same. In it one hook is called before the old
    code and one behind it, with the same objects and with the result. -/
theorem woven_returns (site : p.Decorable kind own d old) (ordinary : p.module.Ordinary) (watches : p.Watches kind own d.token)
    (library : r.Reflective) (done : decorate r policy d kind declaringType before = (.ok woven, behind))
    (rows : behind.imports.Grows p.module.imports) (constructs : (p.replacing woven {}).Constructs own constructing)
    (closed : s.heap.Closed) (has : ∀ v ∈ arguments, s.heap.Has v) {v : Value} (ended : p.invoke d.token arguments s = .ok (.returned v) s') :
    ∃ (w : Weave) (new : Body) (visits : List Visit), w.old = old ∧ woven = { d with body := some new } ∧ w.CallsHooks kind new ∧
      p.Runs (.ofMethod d old arguments) ⟨s.noting (.entered d.token), visits, .returned v, s'⟩ ∧
      ∀ callDepth, constructing.callDepth + p.limits.callDepth ≤ callDepth →
        ∃ (visits' : List Visit) (v' : Value) (t' : Machine) (τ : HeapMap) (A : HookArguments) (u : Value),
        (∀ instructions,
          (p.replacing woven ⟨instructions, callDepth⟩).Runs (.ofMethod woven new arguments)
            ⟨s.noting (.entered d.token), visits', .returned v', t'⟩ ∧
          (s.executed + visits'.length ≤ instructions →
            (p.replacing woven ⟨instructions, callDepth⟩).invoke d.token arguments s = .ok (.returned v') t')) ∧
        HeapMap.identity s.heap.size <+: τ ∧ s'.heap.Mapped τ t'.heap ∧ v.Mapped τ v' ∧
        A.Tells own.type d.token s.heap t'.heap (arguments.drop d.hasThis.toNat) ∧
        (if d.result.isVoid then .null else v').ToldAs t'.heap u ∧
        w.Encloses τ [⟨kind.onEntry, [.ref A.attr, .ref A.method, .ref A.arguments]⟩]
          [⟨kind.onExit, [.ref A.attr, u, .ref A.method, .ref A.arguments]⟩] visits visits' := by
  obtain ⟨w, new, decorates, old, visits, runs, repeats⟩ := site.repeats ordinary watches library done rows constructs closed has ended
  refine ⟨w, new, visits, old, decorates.woven, decorates.callsHooks, runs, fun callDepth deep => ?_⟩
  obtain ⟨⟨start, visits', o', t'⟩, τ, A, closing, rfl, runs', grows, heap, outcome, tells, encloses, closes⟩ := repeats callDepth deep
  cases outcome with | @returned _ v' value =>
  obtain ⟨u, rfl, told⟩ := closes
  have planned := decorates.planned
  have calls : w.Encloses τ [⟨kind.onEntry, [.ref A.attr, .ref A.method, .ref A.arguments]⟩]
      [⟨kind.onExit, [.ref A.attr, u, .ref A.method, .ref A.arguments]⟩] visits visits' := by
    rw [← planned.onEntry, ← planned.onExit]
    exact encloses
  rw [show (w.decor d new own).weave.plan.result = d.result from planned.result] at told
  rw [show (w.decor d new own).weave.method = d.token from decorates.method] at tells
  exact ⟨visits', v', t', τ, A, u, runs', grows, heap, value, tells, told, calls⟩

/-- Where a call of a method has been left by an exception, one of the woven method is left by the same. In it one hook is
    called before the old code and one with that very exception behind it. An exception that the method has caught comes to no
    hook and does not leave the call. -/
theorem woven_throws (site : p.Decorable kind own d old) (ordinary : p.module.Ordinary) (watches : p.Watches kind own d.token)
    (library : r.Reflective) (done : decorate r policy d kind declaringType before = (.ok woven, behind))
    (rows : behind.imports.Grows p.module.imports) (constructs : (p.replacing woven {}).Constructs own constructing)
    (closed : s.heap.Closed) (has : ∀ v ∈ arguments, s.heap.Has v) (ended : p.invoke d.token arguments s = .ok o s')
    (exception : ∀ x, o = .threw x → s'.heap.IsException p.module x) :
    ∃ (w : Weave) (new : Body) (visits : List Visit), w.old = old ∧ woven = { d with body := some new } ∧ w.CallsHooks kind new ∧
      p.Runs (.ofMethod d old arguments) ⟨s.noting (.entered d.token), visits, o, s'⟩ ∧
      ∀ callDepth, constructing.callDepth + p.limits.callDepth ≤ callDepth →
        ∃ (visits' : List Visit) (o' : Outcome) (t' : Machine) (τ : HeapMap) (A : HookArguments) (closing : List HostCall),
        (∀ instructions,
          (p.replacing woven ⟨instructions, callDepth⟩).Runs (.ofMethod woven new arguments)
            ⟨s.noting (.entered d.token), visits', o', t'⟩ ∧
          (s.executed + visits'.length ≤ instructions →
            (p.replacing woven ⟨instructions, callDepth⟩).invoke d.token arguments s = .ok o' t')) ∧
        HeapMap.identity s.heap.size <+: τ ∧ s'.heap.Mapped τ t'.heap ∧
        A.Tells own.type d.token s.heap t'.heap (arguments.drop d.hasThis.toNat) ∧
        w.Encloses τ [⟨kind.onEntry, [.ref A.attr, .ref A.method, .ref A.arguments]⟩] closing visits visits' ∧
        (∀ x, o = .threw x → ∃ y e e', o' = .threw y ∧ τ.Takes x y ∧ s'.heap.get? x = some e ∧ t'.heap.get? y = some e' ∧
          e.Mapped τ e' ∧ closing = [⟨kind.onException, [.ref A.attr, .ref y, .ref A.method, .ref A.arguments]⟩]) ∧
        ∀ v, o = .returned v → ∃ v' u, o' = .returned v' ∧
          closing = [⟨kind.onExit, [.ref A.attr, u, .ref A.method, .ref A.arguments]⟩] := by
  obtain ⟨w, new, decorates, old, visits, runs, repeats⟩ := site.repeats ordinary watches library done rows constructs closed has ended
  refine ⟨w, new, visits, old, decorates.woven, decorates.callsHooks, runs, fun callDepth deep => ?_⟩
  obtain ⟨⟨start, visits', o', t'⟩, τ, A, closing, rfl, runs', grows, heap, outcome, tells, encloses, closes⟩ := repeats callDepth deep
  have planned := decorates.planned
  rw [show (w.decor d new own).weave.method = d.token from decorates.method] at tells
  have opens : (w.decor d new own).entryCall A = ⟨kind.onEntry, [.ref A.attr, .ref A.method, .ref A.arguments]⟩ := by
    rw [← planned.onEntry]
    rfl
  refine ⟨visits', o', t', τ, A, closing, runs', grows, heap, tells, opens ▸ encloses, ?_, ?_⟩
  · rintro x rfl
    cases outcome with | @threw _ y takes =>
    obtain ⟨is, decided, rfl⟩ := closes
    obtain ⟨e, e', here, there, same⟩ := heap.object takes
    -- The exception is one for the hook, since the one it stands for is.
    have is : is = true :=
      Except.ok.inj (decided.symm.trans (decorates.handles rows ordinary.typeRefs ((exception x rfl).mapped heap takes)))
    rw [← planned.onException, if_pos is]
    exact ⟨y, e, e', rfl, takes, here, there, same, rfl⟩
  · rintro v rfl
    cases outcome with | @returned _ v' value =>
    obtain ⟨u, rfl, told⟩ := closes
    rw [← planned.onExit]
    exact ⟨v', u, rfl, rfl⟩

end Woven

end Setting

/-! ### A module that calls a hook by itself -/

namespace Sample

/-- The decorator with a body for its first hook, which puts the object into the array of arguments. -/
def eager : TypeDecl :=
  { logger with
    methods := logger.methods.map fun d =>
      if d.name = "OnEntry" then
        { d with body := some { code := .ofList [⟨.ldarg2, .none⟩, ⟨.ldcI4_0, .none⟩, ⟨.ldarg0, .none⟩, ⟨.stelemRef, .none⟩, ⟨.ret, .none⟩] } }
      else d }

/-- Calls the first hook with an array, and asks whether nothing is in it. -/
def asking : List Instruction :=
  [⟨.ldcI4_1, .none⟩, ⟨.newarr, .type (.ofParts Token.typeDef 1)⟩, ⟨.stloc0, .none⟩, ⟨.ldloc0, .none⟩, ⟨.ldnull, .none⟩, ⟨.ldloc0, .none⟩,
   ⟨.callvirt, .method kind.onEntry⟩, ⟨.ldloc0, .none⟩, ⟨.ldcI4_0, .none⟩, ⟨.ldelemRef, .none⟩, ⟨.ldnull, .none⟩, ⟨.ceq, .none⟩]

/-- A static method without parameters on which the decorator stands. -/
def asker (name : String) (row : Nat) (code : List Instruction) : MethodDef where
  name
  modifiers := { isStatic := true }
  result := .int32
  body := some { code := .ofList code, slots := #[⟨none, .object⟩], initSlots := true }
  attributes := [{ type := .ofParts Token.typeDef 1 }]
  token := .ofParts Token.methodDef row

/-- A method that returns what it has asked for. -/
def probe : MethodDef := asker "Probe" 4 (asking ++ [⟨.ret, .none⟩])

/-- A method that fails if there is something in the array. -/
def refuse : MethodDef := asker "Refuse" 5 (⟨.ldcI4_1, .none⟩ :: asking ++ [⟨.div, .none⟩, ⟨.ret, .none⟩])

/-- A method that fails. -/
def fail : MethodDef := asker "Fail" 6 [⟨.ldnull, .none⟩, ⟨.throw, .none⟩]

/-- The module of the decorator and of the type with the methods. -/
def eagers : Module :=
  let start : Module := { name := "Sample", library := .standard, imports := rows }
  ((start.addType eager).1.addType { name := ⟨"Sample", "Host"⟩, methods := [probe.toMethod, refuse.toMethod, fail.toMethod] }).1

/-- A method of the module with the decorator around it, and the rows there are then. -/
def eagerly (d : MethodDef) : Except Fault MethodDef × Workspace :=
  decorate (.ofModule eagers) {} d kind (.ofParts Token.typeDef 2) { imports := rows }

/-- The module with these rows under execution, where the host stands in for the hooks or does not. -/
def eagersProgram (d : MethodDef) (hosted : Bool) : Program where
  module := { eagers with imports := (eagerly d).2.imports }
  hostMethods :=
    if hosted then [kind.onEntry, kind.onExit, kind.onException].map fun token => (token, fun _ => pure (.returned .void)) else []

/-- The woven method in the module. -/
def eagersWoven (d : MethodDef) : Program := (eagersProgram d true).replacing ((eagerly d).1.toOption.getD d) {}

/-- The number that a call of a method returns. -/
def returned? (p : Program) (method : Token) (arguments : List Value) : Option Int32 :=
  match p.invoke method arguments {} with
  | .ok (.returned (.int32 value)) _ => some value
  | _ => none

theorem returned?_eq_some {p : Program} {method : Token} {arguments : List Value} {value : Int32}
    (returned : returned? p method arguments = some value) : ∃ s, p.invoke method arguments {} = .ok (.returned (.int32 value)) s := by
  unfold returned? at returned
  split at returned
  · rename_i s ended
    cases returned
    exact ⟨s, ended⟩
  · cases returned

/-- Whether a call of a method is left by an exception. -/
def throws (p : Program) (method : Token) (arguments : List Value) : Bool :=
  match p.invoke method arguments {} with
  | .ok (.threw x) s => (s.heap.get? x).any fun o => (o.typeNames p.module).contains WellKnown.exception.fullName
  | _ => false

theorem exists_of_throws {p : Program} {method : Token} {arguments : List Value} (threw : throws p method arguments = true) :
    ∃ x s, p.invoke method arguments {} = .ok (.threw x) s ∧ s.heap.IsException p.module x := by
  unfold throws at threw
  split at threw
  · rename_i x s ended
    obtain ⟨o, found, named⟩ := Option.any_eq_true _ _ |>.mp threw
    exact ⟨x, s, ended, o, found, by simpa using named⟩
  · cases threw

theorem module_eagersProgram (d : MethodDef) (hosted : Bool) :
    (eagersProgram d hosted).module = { eagers with imports := (eagerly d).2.imports } := rfl

set_option maxRecDepth 100000 in
/-- The module and its woven methods, as far as they are evaluated. -/
theorem eagers_evaluated :
    (eagers.types.map (·.token)).Nodup ∧ (eagers.types.flatMap fun t => t.methods.map (·.token)).Nodup ∧
      (∃ u ∈ eagers.definitionChain (.ofParts Token.typeDef 1), u.token = kind.attributeType) ∧
      (∀ e ∈ ((eagers.typeDef? kind.attributeType).map (·.methods)).getD [], e.isConstructor = false) ∧
      returned? (eagersProgram probe true) probe.token [] = some 1 ∧ throws (eagersProgram fail true) fail.token [] = true ∧
      ∀ e ∈ [probe, fail],
        ((e.body.map Body.validate).any (·.isOk) ∧ e.isConstructor = false ∧ e.token.table = Token.methodDef ∧ e.parameters.isEmpty) ∧
        (eagerly e).1.isOk = true ∧
        ((eagerly e).2.imports.typeRefs.size ≤ ImportTable.maxRows ∧ (eagerly e).2.imports.memberRefs.size ≤ ImportTable.maxRows) ∧
        ∀ c ∈ (((eagersWoven e).module.typeDef? kind.attributeType).map (·.methods)).getD [], c.isConstructor = false := by
  decide +kernel

theorem eagers_watched {d : MethodDef} (free : d.token ∉ [kind.onEntry, kind.onExit, kind.onException]) :
    (eagersProgram d true).Watches kind { type := .ofParts Token.typeDef 1 } d.token where
  objects hook := by
    have thrown : ∃ shape, (eagersProgram d true).module.callShape kind.onException = .ok shape ∧ shape.parameters = 3 ∧ shape.hasThis = true :=
      ⟨_, rfl, rfl, rfl⟩
    cases hook with
    | onEntry => exact ⟨_, rfl, rfl, rfl⟩
    | onExit => exact ⟨_, rfl, rfl, rfl⟩
    | onException => exact thrown
  hosted hook := by cases hook <;> rfl
  quiet host member := by
    obtain ⟨token, -, rfl⟩ := List.mem_map.mp member
    exact fun _ _ => rfl
  reflects host member row there := by
    obtain ⟨token, own, rfl⟩ := List.mem_map.mp member
    have table : ∀ token ∈ [kind.onEntry, kind.onExit, kind.onException], token.table ≠ Token.memberRef := by decide
    simp [ImportTable.getMemberRef?, rowOf?, table token own] at there
  makes e count found := by
    obtain ⟨-, -, -, plain, -⟩ := eagers_evaluated
    have chosen := List.find?_some found
    rw [plain e (List.mem_of_find?_eq_some found)] at chosen
    cases chosen
  free := by
    refine List.find?_eq_none.mpr fun host member same => free ?_
    obtain ⟨token, own, rfl⟩ := List.mem_map.mp member
    exact (beq_iff_eq.mp same) ▸ own

theorem eagers_ordinary {d : MethodDef} (among : d ∈ [probe, fail]) : (eagersProgram d true).module.Ordinary := by
  obtain ⟨types, methods, -, -, -, -, each⟩ := eagers_evaluated
  obtain ⟨-, -, ⟨typeRefs, memberRefs⟩, -⟩ := each d among
  exact ⟨⟨types, methods⟩, typeRefs, memberRefs⟩

/-- The attribute becomes an object, since there is no constructor to call. -/
theorem eagers_constructs {d : MethodDef} (among : d ∈ [probe, fail]) : (eagersWoven d).Constructs { type := kind.attributeType } {} := by
  obtain ⟨-, -, -, -, -, -, each⟩ := eagers_evaluated
  exact .of_no_constructor rfl (each d among).2.2.2

theorem eagers_decorable {d : MethodDef} (among : d ∈ [probe, fail]) :
    ∃ old, (eagersProgram d true).Decorable kind { type := .ofParts Token.typeDef 1 } d old := by
  obtain ⟨-, -, derives, -, -, -, each⟩ := eagers_evaluated
  obtain ⟨⟨valid, plain, table, none⟩, -⟩ := each d among
  obtain ⟨old, body, valid⟩ : ∃ old, d.body = some old ∧ old.validate = .ok () := by
    obtain ⟨checked, same, valid⟩ := (Option.any_eq_true _ _).mp valid
    obtain ⟨old, body, rfl⟩ := Option.map_eq_some_iff.mp same
    exact ⟨old, body, isOk_eq_true_iff.mp valid⟩
  refine ⟨old, ?_, table, plain, ?_, body, valid, ?_, derives, rfl⟩
  · rw [module_eagersProgram]
    obtain rfl | rfl := List.mem_pair.mp among
    · exact show eagers.lastMethod? probe.token = some probe from rfl
    · exact show eagers.lastMethod? fail.token = some fail from rfl
  · rw [List.isEmpty_iff.mp none]
    nofun
  · rw [module_eagersProgram]
    obtain rfl | rfl := List.mem_pair.mp among
    · exact show attributesOf eagers probe.token (some kind.attributeType) = [_] from rfl
    · exact show attributesOf eagers fail.token (some kind.attributeType) = [_] from rfl

/-- What there is to know about the methods that are woven. -/
theorem eagers_transparent {d : MethodDef} (among : d ∈ [probe, fail]) (free : d.token ∉ [kind.onEntry, kind.onExit, kind.onException]) :
    ∃ woven old, eagerly d = (.ok woven, (eagerly d).2) ∧ (eagersProgram d true).Decorable kind { type := .ofParts Token.typeDef 1 } d old ∧
      (eagersProgram d true).module.Ordinary ∧
      (eagersProgram d true).Watches kind { type := .ofParts Token.typeDef 1 } d.token ∧
      ((eagersProgram d true).replacing woven {}).Constructs { type := .ofParts Token.typeDef 1 } {} := by
  obtain ⟨-, -, -, -, -, -, each⟩ := eagers_evaluated
  obtain ⟨woven, done⟩ := exists_ok_fst (each d among).2.1
  obtain ⟨old, site⟩ := eagers_decorable among
  have constructs := eagers_constructs among
  unfold eagersWoven at constructs
  rw [done] at constructs
  exact ⟨woven, old, done, site, eagers_ordinary among, eagers_watched free, constructs⟩

/-- A call of the method where the host stands in for the hooks returns the same when it is woven. -/
theorem probe_returns_alike :
    ∃ woven s, eagerly probe = (.ok woven, (eagerly probe).2) ∧ (eagersProgram probe true).invoke probe.token [] {} = .ok (.returned (.int32 1)) s ∧
      ∃ limits t, ((eagersProgram probe true).replacing woven limits).invoke probe.token [] {} = .ok (.returned (.int32 1)) t := by
  obtain ⟨-, -, -, -, returned, -⟩ := eagers_evaluated
  obtain ⟨s, ended⟩ := returned?_eq_some returned
  obtain ⟨woven, old, done, site, ordinary, watches, constructs⟩ := eagers_transparent (d := probe) (by simp) (by decide)
  obtain ⟨w, new, visits, -, -, -, -, runs⟩ :=
    woven_returns (s := {}) site ordinary watches (Resolver.reflective_of_standard rfl) done (.refl _) constructs Heap.closed_empty (List.forall_mem_nil _) ended
  obtain ⟨visits', v', t, τ, A, u, runs', -, -, value, -⟩ := runs _ (Nat.le_refl _)
  cases value with | plain =>
  exact ⟨woven, s, done, ended, _, t, (runs' _).2 (Nat.le_refl _)⟩

set_option maxRecDepth 100000 in
/-- Where the method is called without the host, its own call of the hook puts an object into the array. Where it is woven, the
    host stands in for the hook, and does not. -/
theorem probe_returns_differently :
    (probe.body.get rfl).validate = .ok () ∧ probe.isConstructor = false ∧ probe.parameters = [] ∧
      attributesOf eagers probe.token (some kind.attributeType) = [{ type := kind.attributeType }] ∧ (eagerly probe).1.isOk ∧
      returned? (eagersProgram probe false) probe.token [] = some 0 ∧ returned? (eagersWoven probe) probe.token [] = some 1 := by
  have valid : (probe.body.get rfl).validate = .ok () := isOk_eq_true_iff.mp (by decide +kernel)
  refine ⟨valid, by decide +kernel, rfl, rfl, by decide +kernel, by decide +kernel, by decide +kernel⟩

/-- A call of the method that fails is left by an exception when it is woven as well. -/
theorem fail_throws_alike :
    ∃ woven x s, eagerly fail = (.ok woven, (eagerly fail).2) ∧ (eagersProgram fail true).invoke fail.token [] {} = .ok (.threw x) s ∧
      ∃ limits y t, ((eagersProgram fail true).replacing woven limits).invoke fail.token [] {} = .ok (.threw y) t := by
  obtain ⟨-, -, -, -, -, threw, -⟩ := eagers_evaluated
  obtain ⟨x, s, ended, exception⟩ := exists_of_throws threw
  obtain ⟨woven, old, done, site, ordinary, watches, constructs⟩ := eagers_transparent (d := fail) (by simp) (by decide)
  obtain ⟨w, new, visits, -, -, -, -, runs⟩ :=
    woven_throws (s := {}) site ordinary watches (Resolver.reflective_of_standard rfl) done (.refl _) constructs Heap.closed_empty
      (List.forall_mem_nil _) ended (fun x' same => by cases same; exact exception)
  obtain ⟨visits', o', t, τ, A, closing, runs', -, -, -, -, threw, -⟩ := runs _ (Nat.le_refl _)
  obtain ⟨y, e, e', rfl, -⟩ := threw x rfl
  exact ⟨woven, x, s, done, ended, _, y, t, (runs' _).2 (Nat.le_refl _)⟩

set_option maxRecDepth 100000 in
/-- Where the method is called without the host, what its own call of the hook has put into the array makes it fail. Where it is
    woven, it does not fail. -/
theorem refuse_throws_differently :
    (refuse.body.get rfl).validate = .ok () ∧ refuse.isConstructor = false ∧ refuse.parameters = [] ∧
      attributesOf eagers refuse.token (some kind.attributeType) = [{ type := kind.attributeType }] ∧ (eagerly refuse).1.isOk ∧
      throws (eagersProgram refuse false) refuse.token [] = true ∧ returned? (eagersWoven refuse) refuse.token [] = some 1 := by
  have valid : (refuse.body.get rfl).validate = .ok () := isOk_eq_true_iff.mp (by decide +kernel)
  refine ⟨valid, by decide +kernel, rfl, rfl, by decide +kernel, by decide +kernel, by decide +kernel⟩

end Sample

end AspectWeaving

import AspectWeaving.Proofs.Nesting
import AspectWeaving.Proofs.TransparentWeaves

/-!
Nested weaves. A method that is woven with several decorators, for whose hooks the host stands in, does what it has done
before inside the hooks of all of them (`woven_layers_nest`): the decorator that has come last calls its hooks first and
last. Each decorator goes around a method that already has the ones before it, so that its weave is a transparent one.
-/
namespace AspectWeaving

/-! ### Settings for several decorators -/

/-- A method may be woven with a decorator, in the place of which the host does nothing. Its one attribute that the decorator
    may look up becomes an object, whichever body the method has. -/
structure Program.Admits (p : Program) (d : MethodDef) (constructing : Limits) (kind : DecoratorKind) (own : Attribute) : Prop where
  watches : p.Watches kind own d.token
  one : attributesOf p.module d.token (some kind.attributeType) = [own]
  derives : ∃ u ∈ p.module.definitionChain own.type, u.token = kind.attributeType
  table : kind.attributeType.table = Token.typeDef
  constructs : ∀ b, (p.replacing { d with body := some b } {}).Constructs own constructing

/-- The host makes no object of a type without constructors. -/
theorem Program.MakesItself.of_no_constructor {p : Program} {type : Token}
    (none : ∀ c ∈ ((p.module.typeDef? type).map (·.methods)).getD [], c.isConstructor = false) : p.MakesItself type := by
  intro c count found
  have chosen := List.find?_some found
  simp [none c (List.mem_of_find?_eq_some found)] at chosen

theorem attributesOf_of_method? {m : Module} {d : MethodDef} {method type : Token} (found : (m.method? method).map (·.2) = some d) :
    attributesOf m method (some type) = d.attributes.filter fun a => attributeIs m a.type type := by
  obtain ⟨_, here, rfl⟩ := Option.map_eq_some_iff.mp found
  unfold attributesOf
  rw [here]
  rfl

section Replacing

variable {p : Program} {d : MethodDef} {b b' : Body} {limits constructing : Limits} {kind : DecoratorKind} {own : Attribute}

/-- A program in which a method has another body differs from it in bodies. -/
theorem Program.alters_replacing (known : p.module.lastMethod? d.token = some { d with body := some b }) (b' : Body) (limits : Limits) :
    p.module.Alters (fun _ _ _ => True) (p.replacing { d with body := some b' } limits).module :=
  p.module.alters_modifyLastMethod (d := { d with body := some b }) (fun _ _ => trivial) known ⟨.some trivial, rfl⟩

theorem Program.Admits.replacing (admits : p.Admits d constructing kind own)
    (known : p.module.lastMethod? d.token = some { d with body := some b }) :
    (p.replacing { d with body := some b' } limits).Admits d constructing kind own := by
  have alters := p.alters_replacing known b' limits
  refine ⟨admits.watches.of_alters alters rfl, ?_, alters.derives admits.derives, admits.table, fun b'' => ?_⟩
  · rw [alters.attributesOf_eq]
    exact admits.one
  · have twice : (p.replacing { d with body := some b' } limits).replacing { d with body := some b'' } {} = _ :=
      Program.replacing_replacing _ _ _ rfl
    rw [twice]
    exact admits.constructs b''

/-- An attribute without arguments becomes an object in whichever body the method has, if its type has no constructors. -/
theorem Program.constructs_replacing (known : p.module.lastMethod? d.token = some { d with body := some b })
    (arguments : own.arguments = []) (none : ∀ c ∈ ((p.module.typeDef? own.type).map (·.methods)).getD [], c.isConstructor = false) :
    (p.replacing { d with body := some b' } limits).Constructs own constructing := by
  refine .of_no_constructor arguments fun c' member => ?_
  have types := (p.alters_replacing known b' limits).typeDef? own.type
  generalize p.module.typeDef? own.type = x, (p.replacing _ limits).module.typeDef? own.type = y at types none member
  cases types with
  | none => cases member
  | some type =>
    obtain ⟨c, listed, same⟩ := exists_paired_left type.methods c' member
    exact same.isConstructor.trans (none c listed)

theorem Module.Ordinary.replacing (ordinary : p.module.Ordinary) (known : p.module.lastMethod? d.token = some { d with body := some b }) :
    (p.replacing { d with body := some b' } limits).module.Ordinary := by
  have imports := (p.alters_replacing known b' limits).imports
  refine ⟨?_, imports ▸ ordinary.typeRefs, imports ▸ ordinary.memberRefs⟩
  exact ordinary.distinct.revised (Module.revised_modifyLastMethod (d := { d with body := some b }) (List.mem_singleton.mpr rfl) known rfl)

end Replacing

/-! ### Layers around a course -/

section Layers

variable {r : Resolver} {d : MethodDef} {rows rows' : ImportTable} {b b' : Body} {kind : DecoratorKind} {own : Attribute} {w : Weave}
  {p : Program} {constructing : Limits} {arguments : List Value} {c : Course} {size : Nat}

/-- What is an exception in one module is one in the other, whatever the bodies are. -/
theorem Heap.IsException.of_alters {B : MethodDef → Body → Body → Prop} {m m' : Module} {h : Heap} {x : HeapRef}
    (exception : h.IsException m x) (alters : m.Alters B m') : h.IsException m' x := by
  obtain ⟨o, found, named⟩ := exception
  exact ⟨o, found, alters.typeNames_eq o ▸ named⟩

theorem Weave.Yields.size_le {new : Body} (yields : w.Yields new) : w.old.code.size ≤ new.code.size := by
  rw [yields.size]
  unfold Weave.returnPosition Weave.handlerPosition Weave.epiloguePosition
  omega

/-- One decorator goes around a course of the body that it has been put around. -/
theorem Decorates.nests (decorates : Decorates r { d with body := some b } kind w rows { d with body := some b' } b')
    (plain : d.isConstructor = false) (direct : ∀ e ∈ d.parameters, e.sig.byRefElement? = none) (library : r.Reflective)
    (known : p.module.lastMethod? d.token = some { d with body := some b }) (ordinary : p.module.Ordinary) (valid : b.Valid)
    (grows : rows.Grows p.module.imports) (admits : p.Admits d constructing kind own) (closed : c.start.heap.Closed)
    (has : ∀ v ∈ arguments, c.start.heap.Has v) (fits : arguments.length = d.signature.argumentCount) (room : 0 < p.limits.callDepth)
    (runs : p.Runs (.ofMethod d b arguments) c) (exception : ∀ x, c.outcome = .threw x → c.finish.heap.IsException p.module x)
    (old : size ≤ b.code.size) {callDepth : Nat} (deep : constructing.callDepth + p.limits.callDepth ≤ callDepth) :
    ∃ c' σ ring, (∀ instructions, (p.replacing { d with body := some b' } ⟨instructions, callDepth⟩).Runs (.ofMethod d b' arguments) c') ∧
      ring.kind = kind ∧ ring.type = own.type ∧
        c.Nests ⟨d.token, d.result.isVoid, arguments.drop d.hasThis.toNat, size⟩ σ [ring] c' := by
  obtain rfl := Option.some.inj decorates.old
  have stands : (w.decor _ b' own).Stands own constructing p (p.replacing { d with body := some b' } ⟨0, callDepth⟩) :=
    decorates.stands plain valid direct known ordinary.distinct library grows ordinary.memberRefs admits.watches admits.one
      admits.table admits.derives (admits.constructs b') deep
  have same : List.Forall₂ (Value.Mapped (.identity c.start.heap.size)) arguments arguments :=
    List.forall₂_same.mpr fun v member => (has v member).mapped
  obtain ⟨c', σ, A, closing, started, runs', repeats⟩ :=
    stands.repeats (d := d) rfl (show d.signature = d.signature from rfl) fits same closed.mapped room runs
  have planned := decorates.planned
  have handles : ∀ x, c'.outcome = .threw x → isInstance p.module c'.finish.heap x w.plan.exception = .ok true := by
    intro y ended
    have outcome := repeats.outcome
    rw [ended] at outcome
    generalize before : c.outcome = o at outcome
    cases outcome with
    | threw takes => exact decorates.handles grows ordinary.typeRefs ((exception _ before).mapped repeats.heap takes)
  obtain ⟨told, nests⟩ := repeats.nests started planned.onEntry planned.onExit planned.onException old handles
  rw [show (w.decor _ b' own).weave.method = d.token from decorates.method,
    show (w.decor _ b' own).weave.plan.result = d.result from planned.result] at nests
  exact ⟨c', σ, _, fun instructions => runs'.within instructions, rfl, rfl, nests⟩

/-- Decorators that have been put around a body one after another go around a course of it, the last one outermost. -/
theorem Layered.nests {layers : List (Decoration × Weave)} (layered : Layered r d rows b layers rows' b') (nonempty : layers ≠ [])
    (plain : d.isConstructor = false) (direct : ∀ e ∈ d.parameters, e.sig.byRefElement? = none) (library : r.Reflective)
    (known : p.module.lastMethod? d.token = some { d with body := some b }) (ordinary : p.module.Ordinary) (valid : b.Valid)
    (grows : rows'.Grows p.module.imports) (admits : ∀ l ∈ layers, p.Admits d constructing l.1.kind l.1.attr)
    (closed : c.start.heap.Closed) (has : ∀ v ∈ arguments, c.start.heap.Has v) (fits : arguments.length = d.signature.argumentCount)
    (room : 0 < p.limits.callDepth) (runs : p.Runs (.ofMethod d b arguments) c)
    (exception : ∀ x, c.outcome = .threw x → c.finish.heap.IsException p.module x) (old : size ≤ b.code.size) {callDepth : Nat}
    (deep : layers.length * constructing.callDepth + p.limits.callDepth ≤ callDepth) :
    ∃ c' σ rings, (∀ instructions, (p.replacing { d with body := some b' } ⟨instructions, callDepth⟩).Runs (.ofMethod d b' arguments) c') ∧
      List.Forall₂ (fun l ring => ring.kind = l.1.kind ∧ ring.type = l.1.attr.type) layers rings ∧
        c.Nests ⟨d.token, d.result.isVoid, arguments.drop d.hasThis.toNat, size⟩ σ rings c' := by
  induction layered generalizing p c with
  | bare => exact absurd rfl nonempty
  | @around rows rows' rows'' b b' b'' e w woven layers decorates anchored more rest ih =>
    obtain rfl := decorates.woven
    obtain rfl := Option.some.inj decorates.old
    have first := admits (e, w) List.mem_cons_self
    rw [List.length_cons, Nat.succ_mul] at deep
    by_cases last : layers = []
    · subst last
      cases rest
      obtain ⟨c', σ, ring, runs', kind, type, nests⟩ := decorates.nests plain direct library known ordinary valid grows first closed has
        fits room runs exception old (show constructing.callDepth + p.limits.callDepth ≤ callDepth by simpa using deep)
      exact ⟨c', σ, [ring], runs', .cons ⟨kind, type⟩ .nil, nests⟩
    · obtain ⟨c₁, σ, ring, runs₁, kind, type, inner⟩ := decorates.nests plain direct library known ordinary valid (rest.grows.trans grows) first
        closed has fits room runs exception old (Nat.le_refl _)
      have known₁ : (p.replacing { d with body := some b' } ⟨0, constructing.callDepth + p.limits.callDepth⟩).module.lastMethod? d.token =
          some { d with body := some b' } := Program.lastMethod?_replacing known
      have alters := p.alters_replacing known b' ⟨0, constructing.callDepth + p.limits.callDepth⟩
      have exception₁ : ∀ y, c₁.outcome = .threw y →
          c₁.finish.heap.IsException (p.replacing { d with body := some b' } ⟨0, constructing.callDepth + p.limits.callDepth⟩).module y := by
        intro y ended
        have outcome := inner.outcome
        rw [ended] at outcome
        generalize before : c.outcome = o at outcome
        cases outcome with
        | threw takes => exact ((exception _ before).mapped inner.heap takes).of_alters alters
      obtain ⟨c₂, τ, rings, runs₂, follows, outer⟩ := ih last known₁ (ordinary.replacing known) (decorates.valid valid)
        (alters.imports ▸ grows) (fun l member => (admits l (List.mem_cons_of_mem _ member)).replacing known) (inner.start ▸ closed)
        (inner.start ▸ has) (Nat.lt_of_lt_of_le room (Nat.le_add_left _ _)) (runs₁ 0) exception₁
        (Nat.le_trans old (decorates.yields plain).size_le)
        (show layers.length * constructing.callDepth + (constructing.callDepth + p.limits.callDepth) ≤ callDepth by omega)
      obtain ⟨rings₁, same, nests⟩ := inner.around outer fun v member => has v (List.mem_of_mem_drop member)
      obtain ⟨ring₁, none, own, empty, rfl⟩ := List.forall₂_cons_left_iff.mp same
      obtain rfl := List.forall₂_nil_left_iff.mp empty
      refine ⟨c₂, σ.andThen τ, ring₁ :: rings, fun instructions => ?_, .cons ⟨own.1.trans kind, own.2.trans type⟩ follows, nests⟩
      have twice : (p.replacing { d with body := some b' } ⟨0, constructing.callDepth + p.limits.callDepth⟩).replacing
          { d with body := some b'' } ⟨instructions, callDepth⟩ = _ := Program.replacing_replacing _ _ _ rfl
      exact twice ▸ runs₂ instructions

end Layers

/-! ### Woven modules -/

section Woven

/-- Tokens tell the types and methods of a woven module apart as before. -/
theorem weaveModule_distinct {m : Module} (distinct : m.Distinct) (policy : Policy) (schedule : Schedule) :
    (weaveModule m policy schedule).1.Distinct := by
  obtain ⟨-, -, -, -, revised, -⟩ := weaveModule_isolated m policy schedule
  exact distinct.revised revised

variable {m : Module} {policy : Policy} {schedule : Schedule} {q : Program} {t : TypeDef} {d : MethodDef} {old : Body}
  {constructing limits : Limits} {arguments : List Value} {s s' : Machine} {o : Outcome}

/-- A call of a method that has been woven with several decorators does what one of the old method does and comes to the same,
    inside the hooks of all of them, the last decorator outermost. -/
theorem woven_layers_nest (distinct : m.Distinct) (library : (Resolver.ofModule m).Reflective)
    (woven : d.token ∈ (weaveModule m policy schedule).2.woven) (found : m.method? d.token = some (t, d))
    (module : q.module = (weaveModule m policy schedule).1) (typeRefs : q.module.imports.typeRefs.size ≤ ImportTable.maxRows)
    (memberRefs : q.module.imports.memberRefs.size ≤ ImportTable.maxRows) (table : d.token.table = Token.methodDef)
    (plain : d.isConstructor = false) (direct : ∀ e ∈ d.parameters, e.sig.byRefElement? = none) (body : d.body = some old)
    (valid : old.validate = .ok ()) (nonempty : d.decorations (m.decorators policy) ≠ [])
    (admits : ∀ e ∈ d.decorations (m.decorators policy), q.Admits d constructing e.kind e.attr)
    (closed : s.heap.Closed) (has : ∀ v ∈ arguments, s.heap.Has v)
    (ended : (q.replacing d limits).invoke d.token arguments s = .ok o s')
    (exception : ∀ x, o = .threw x → s'.heap.IsException q.module x) :
    ∃ new visits, (q.module.method? d.token).map (·.2) = some { d with body := some new } ∧
      (q.replacing d limits).Runs (.ofMethod d old arguments) ⟨s.noting (.entered d.token), visits, o, s'⟩ ∧
      ∀ callDepth, (d.decorations (m.decorators policy)).length * constructing.callDepth + limits.callDepth ≤ callDepth → ∃ c' σ rings,
        (∀ instructions, s.executed + c'.visits.length ≤ instructions →
          Program.invoke { q with limits := ⟨instructions, callDepth⟩ } d.token arguments s = .ok c'.outcome c'.finish) ∧
        List.Forall₂ (fun e ring => ring.kind = e.kind ∧ ring.type = e.attr.type) (d.decorations (m.decorators policy)) rings ∧
        Course.Nests ⟨d.token, d.result.isVoid, arguments.drop d.hasThis.toNat, old.code.size⟩ σ rings
          ⟨s.noting (.entered d.token), visits, o, s'⟩ c' := by
  obtain ⟨t', d', old', layers, before, rows, new, found', bodied, parts, layered, grows, stands⟩ := weaveModule_woven distinct woven
  obtain ⟨rfl, rfl⟩ : t' = t ∧ d' = d := by simpa using found'.symm.trans found
  obtain rfl : old' = old := Option.some.inj (bodied.symm.trans body)
  rw [← module] at stands grows
  have unique : q.module.Distinct := module ▸ weaveModule_distinct distinct policy schedule
  have known : q.module.lastMethod? d'.token = some { d' with body := some new } := (unique.lastMethod? _).trans stands
  have ordinary : q.module.Ordinary := ⟨unique, typeRefs, memberRefs⟩
  -- The program in which the method has its old body.
  have restored : q.replacing d' limits = q.replacing { d' with body := some old' } limits := by rw [← body]
  have alters := q.alters_replacing known old' limits
  rw [restored] at ended ⊢
  have known' : (q.replacing { d' with body := some old' } limits).module.lastMethod? d'.token = some { d' with body := some old' } :=
    Program.lastMethod?_replacing known
  have ordinary' : (q.replacing { d' with body := some old' } limits).module.Ordinary := ordinary.replacing known
  have free : q.hostMethod? d'.token = none := by
    obtain ⟨e, member⟩ := List.exists_mem_of_ne_nil _ nonempty
    exact (admits e member).watches.free
  obtain ⟨u, there⟩ := ordinary'.distinct.exists_method? known'
  obtain ⟨fits, room, visits, runs, -⟩ :=
    (Program.invoke_eq_ok_iff (d := { d' with body := some old' }) there table free rfl).mp ended
  refine ⟨new, visits, stands, runs, fun callDepth deep => ?_⟩
  have count : layers.length = (d'.decorations (m.decorators policy)).length := by rw [← parts, List.length_map]
  obtain ⟨c', σ, rings, runs', follows, nests⟩ := layered.nests (fun none => nonempty (by rw [← parts, none]; rfl)) plain direct library known'
    ordinary' (Body.validate_eq_ok_iff.mp valid) (alters.imports ▸ grows)
    (fun l member => (admits l.1 (parts ▸ List.mem_map_of_mem member)).replacing known) closed has fits room runs
    (fun x threw => (exception x threw).of_alters alters) (Nat.le_refl _)
    (show layers.length * constructing.callDepth + limits.callDepth ≤ callDepth by rw [count]; exact deep)
  refine ⟨c', σ, rings, fun instructions enough => ?_, ?_, nests⟩
  · have whole : (q.replacing { d' with body := some old' } limits).replacing { d' with body := some new } ⟨instructions, callDepth⟩ =
        { q with limits := ⟨instructions, callDepth⟩ } := by
      have twice := q.replacing_replacing limits ⟨instructions, callDepth⟩
        (show ({ d' with body := some new } : MethodDef).token = ({ d' with body := some old' } : MethodDef).token from rfl)
      exact twice.trans (Program.replacing_eq_self known)
    obtain ⟨v, here⟩ := unique.exists_method? known
    refine (Program.invoke_eq_ok_iff (p := { q with limits := ⟨instructions, callDepth⟩ }) (d := { d' with body := some new }) here table
      free rfl).mpr ⟨fits, Nat.lt_of_lt_of_le room (Nat.le_trans (Nat.le_add_left _ _) deep), c'.visits, ?_, Nat.le_sub_of_add_le' enough⟩
    have ran := runs' instructions
    rw [whole] at ran
    rw [← show c'.start = s.noting (.entered d'.token) from nests.start]
    exact ran
  · rw [← parts]
    exact List.forall₂_map_left_iff.mpr follows

end Woven

namespace Sample

/-- A decorator that has nothing to do with the other one. -/
def watcher : TypeDecl := { logger with name := ⟨"Sample", "WatchAttribute"⟩ }

/-- The other decorator as it is discovered. -/
def watching : DecoratorKind where
  attributeType := .ofParts Token.typeDef 2
  name := "Sample.WatchAttribute"
  onEntry := .ofParts Token.methodDef 4
  onExit := .ofParts Token.methodDef 5
  onException := .ofParts Token.methodDef 6

/-- A method on which both decorators stand. -/
def watchedEcho : MethodDef :=
  { echo with
    attributes := [{ type := .ofParts Token.typeDef 1 }, { type := .ofParts Token.typeDef 2 }]
    token := .ofParts Token.methodDef 7 }

/-- The module of both decorators and of the type with the method, over a library. -/
def watched (library : Library) : Module :=
  let start : Module := { name := "Sample", library, imports := rows }
  (((start.addType logger).1.addType watcher).1.addType { name := ⟨"Sample", "Host"⟩, methods := [watchedEcho.toMethod] }).1

/-- The library with a description of methods that looks their attributes up without the object of the method. -/
def detached : Library :=
  Library.standard.add
    { name := WellKnown.methodBase
      base := some WellKnown.memberInfo
      isAbstract := true
      methods :=
        [{ name := "GetMethodFromHandle", parameters := [WellKnown.methodHandle], hasThis := false },
         { name := "GetMethodFromHandle", parameters := [WellKnown.methodHandle, WellKnown.typeHandle], hasThis := false },
         { name := "GetCustomAttributes", parameters := [WellKnown.type, WellKnown.boolean], hasThis := false }] }

/-- The woven module under execution, where the host stands in for the hooks. -/
def watchedProgram (library : Library) : Program where
  module := (weaveModule (watched library) {}).1
  hostMethods := [kind, watching].flatMap fun k =>
    [k.onEntry, k.onExit, k.onException].map fun token => (token, fun _ => pure (.returned .void))

theorem module_watchedProgram (library : Library) : (watchedProgram library).module = (weaveModule (watched library) {}).1 := by
  rw [watchedProgram, Program.module_mk]

/-- The host methods stand in for the hooks, and do nothing. -/
theorem host_watchedProgram {library : Library} {host : Token × HostMethod} (member : host ∈ (watchedProgram library).hostMethods) :
    host.1 ∈ (List.range 6).map (fun row => Token.ofParts Token.methodDef (row + 1)) ∧ host.2 = fun _ => pure (.returned .void) := by
  obtain ⟨k, among, member⟩ := List.mem_flatMap.mp member
  obtain ⟨token, own, rfl⟩ := List.mem_map.mp member
  have tokens : ∀ k ∈ [kind, watching], ∀ token ∈ [k.onEntry, k.onExit, k.onException],
      token ∈ (List.range 6).map (fun row => Token.ofParts Token.methodDef (row + 1)) := by decide
  exact ⟨tokens k among token own, rfl⟩

set_option maxRecDepth 100000 in
/-- What is computed of the module, of a call in the woven one, and of the decorators there. -/
theorem watched_evaluated :
    (watchedEcho.token ∈ (weaveModule (watched .standard) {}).2.woven ∧
      (weaveModule (watched .standard) {}).1.imports.typeRefs.size ≤ ImportTable.maxRows ∧
      (weaveModule (watched .standard) {}).1.imports.memberRefs.size ≤ ImportTable.maxRows ∧
      (watched .standard).decorators {} = [kind, watching] ∧
      returned? ((watchedProgram .standard).replacing watchedEcho {}) watchedEcho.token [.int32 7] = some 7) ∧
    (((watched .standard).types.map (·.token)).Nodup ∧ ((watched .standard).types.flatMap fun t => t.methods.map (·.token)).Nodup) ∧
    ∀ k ∈ [kind, watching],
      (∀ other ∈ [kind, watching],
        attributeIs (weaveModule (watched .standard) {}).1 other.attributeType k.attributeType = (other == k)) ∧
      (∃ u ∈ (weaveModule (watched .standard) {}).1.definitionChain k.attributeType, u.token = k.attributeType) ∧
      (∀ c ∈ (((weaveModule (watched .standard) {}).1.typeDef? k.attributeType).map (·.methods)).getD [], c.isConstructor = false) ∧
      (∀ e ∈ [(k.onEntry, 2), (k.onExit, 3), (k.onException, 3)],
        ((weaveModule (watched .standard) {}).1.callShape e.1).toOption.map (fun shape => (shape.parameters, shape.hasThis)) =
          some (e.2, true)) ∧
      ∀ token ∈ [k.onEntry, k.onExit, k.onException], ((watchedProgram .standard).hostMethod? token).isSome := by
  decide +kernel

theorem watched_objects {k : DecoratorKind} (member : k ∈ [kind, watching]) : k.ActsOnObjects (watchedProgram .standard).module := by
  rw [module_watchedProgram]
  obtain ⟨-, -, each⟩ := watched_evaluated
  obtain ⟨-, -, -, shapes, -⟩ := each k member
  exact DecoratorKind.actsOnObjects_of_shapes shapes

/-- A kind among the two has no constructors to call, in whichever body the method has. -/
theorem watched_without_constructor {k : DecoratorKind} (member : k ∈ [kind, watching]) :
    ∀ c ∈ (((watchedProgram .standard).module.typeDef? k.attributeType).map (·.methods)).getD [], c.isConstructor = false := by
  rw [module_watchedProgram]
  obtain ⟨-, -, each⟩ := watched_evaluated
  obtain ⟨-, -, plain, -⟩ := each k member
  exact plain

theorem watched_watches {k : DecoratorKind} (member : k ∈ [kind, watching]) :
    (watchedProgram .standard).Watches k { type := k.attributeType } watchedEcho.token where
  objects := watched_objects member
  hosted hook := by
    obtain ⟨-, -, each⟩ := watched_evaluated
    obtain ⟨-, -, -, -, hosted⟩ := each k member
    exact hosted _ (by cases hook <;> simp [DecoratorKind.hook])
  quiet host member := by
    rw [(host_watchedProgram member).2]
    exact fun _ _ => rfl
  reflects host member row there := by
    have table : ∀ token ∈ (List.range 6).map (fun row => Token.ofParts Token.methodDef (row + 1)), token.table ≠ Token.memberRef := by decide
    simp [ImportTable.getMemberRef?, rowOf?, table _ (host_watchedProgram member).1] at there
  makes := Program.MakesItself.of_no_constructor (watched_without_constructor member)
  free := by rfl

/-- The module without the woven body. -/
theorem watched_distinct (library : Library) : (watched library).Distinct := by
  obtain ⟨-, ⟨types, methods⟩, -⟩ := watched_evaluated
  exact ⟨types, methods⟩

/-- Each attribute of the method is of its own decorator alone. -/
theorem watched_attribute {m : Module} {k : DecoratorKind} (member : k ∈ [kind, watching])
    (is : ∀ other ∈ [kind, watching], attributeIs m other.attributeType k.attributeType = (other == k)) :
    watchedEcho.attributes.filter (fun a => attributeIs m a.type k.attributeType) = [{ type := k.attributeType }] := by
  have first := is kind (by simp)
  have second := is watching (by simp)
  have types : watchedEcho.attributes = [{ type := kind.attributeType }, { type := watching.attributeType }] := rfl
  rw [types]
  simp only [List.filter_cons, List.filter_nil, first, second]
  rcases List.mem_pair.mp member with rfl | rfl <;> rfl

/-- Either decorator may be put around the method. -/
theorem watched_admits {k : DecoratorKind} (member : k ∈ [kind, watching]) :
    (watchedProgram .standard).Admits watchedEcho {} k { type := k.attributeType } := by
  obtain ⟨⟨woven, -⟩, -, each⟩ := watched_evaluated
  obtain ⟨is, derives, -⟩ := each k member
  obtain ⟨t, d, old, -, -, -, new, found, -, -, -, -, stands⟩ := weaveModule_woven (watched_distinct .standard) woven
  obtain ⟨rfl, rfl⟩ : (_, watchedEcho) = (t, d) := Option.some.inj
    ((show (watched .standard).method? watchedEcho.token = some (_, watchedEcho) from rfl).symm.trans found)
  have unique := weaveModule_distinct (watched_distinct .standard) {} .inTurn
  rw [← module_watchedProgram] at is derives stands unique
  refine ⟨watched_watches member, ?_, derives, ?_, fun b => ?_⟩
  · rw [attributesOf_of_method? stands]
    exact watched_attribute member is
  · rcases List.mem_pair.mp member with rfl | rfl <;> decide
  · exact Program.constructs_replacing ((unique.lastMethod? _).trans stands) rfl (watched_without_constructor member)

set_option maxRecDepth 100000 in
/-- A call of the method with both decorators returns what one without them returns. -/
theorem watched_nests :
    ∃ s, ((watchedProgram .standard).replacing watchedEcho {}).invoke watchedEcho.token [.int32 7] {} = .ok (.returned (.int32 7)) s ∧
      ∃ limits t, Program.invoke { watchedProgram .standard with limits } watchedEcho.token [.int32 7] {} = .ok (.returned (.int32 7)) t := by
  obtain ⟨⟨woven, typeRefs, memberRefs, kinds, returned⟩, -⟩ := watched_evaluated
  obtain ⟨s, ended⟩ := returned?_eq_some returned
  have admits : ∀ e ∈ watchedEcho.decorations ((watched .standard).decorators {}),
      (watchedProgram .standard).Admits watchedEcho {} e.kind e.attr := by
    intro e member
    obtain ⟨known, listed, type⟩ := MethodDef.of_mem_decorations member
    rw [kinds] at known
    have plain : e.attr = { type := e.kind.attributeType } := by
      rcases List.mem_pair.mp listed with same | same <;> simp [same, type]
    rw [plain]
    exact watched_admits known
  obtain ⟨new, visits, -, -, runs⟩ := woven_layers_nest (watched_distinct .standard) (Resolver.reflective_of_standard rfl)
    woven (show (watched .standard).method? watchedEcho.token = some (_, watchedEcho) from rfl) (module_watchedProgram _)
    (module_watchedProgram _ ▸ typeRefs) (module_watchedProgram _ ▸ memberRefs) (by decide) (by decide) (by decide) rfl
    (isOk_eq_true_iff.mp (by decide +kernel)) (by rw [kinds]; simp [MethodDef.decorations, watchedEcho, kind]) admits Heap.closed_empty (by simp [Heap.Has, Value.ref?]) ended nofun
  obtain ⟨c, σ, rings, runs, -, nests⟩ := runs _ (Nat.le_refl _)
  have outcome := nests.outcome
  generalize c.outcome = o at outcome runs
  cases outcome with | returned value =>
  cases value with | plain =>
  exact ⟨s, ended, _, c.finish, runs _ (Nat.le_refl _)⟩

/-- Whether a call of a method comes to no outcome. -/
def fails (p : Program) (method : Token) (arguments : List Value) : Bool :=
  match p.invoke method arguments {} with
  | .ok .. => false
  | .error .. => true

set_option maxRecDepth 100000 in
/-- Over the other library the method is woven as well, and returns what it is given where it has its old body. With both
    decorators it neither returns nor throws. -/
theorem detached_fails :
    watchedEcho.token ∈ (weaveModule (watched detached) {}).2.woven ∧
      (watchedEcho.body.get rfl).validate.isOk ∧ watchedEcho.isConstructor = false ∧
      (watchedEcho.decorations ((watched detached).decorators {})).map (·.kind) = [kind, watching] ∧
      returned? { module := watched detached } watchedEcho.token [.int32 7] = some 7 ∧
      fails (watchedProgram detached) watchedEcho.token [.int32 7] = true := by
  decide +kernel

end Sample

end AspectWeaving

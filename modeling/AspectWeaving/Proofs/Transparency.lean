import AspectWeaving.Proofs.Entrances
import Mathlib.Data.List.Nodup

/-!
Transparency of a decorator. Of two programs that are the same but for a decorator around a method, the second one does in
a call of the method what the first one does, and ends in the same way, along a map of the objects
(`Decor.Stands.repeats`). What it does besides stands before and behind: a hook is called before the old code with fresh
objects, and another one behind it with the same objects and with what the code has come to.
-/
namespace AspectWeaving

/-! ### Limits -/

/-- A program with another limit of instructions. -/
def Program.within (p : Program) (instructions : Nat) : Program := { p with limits := { p.limits with instructions } }

section Limits

variable (p : Program) (n : Nat)

theorem callDefinition_within (depth : Nat) (token : Token) (arguments : List Value) :
    callDefinition (p.within n) depth token arguments = callDefinition p depth token arguments := rfl

theorem collect_within (depth : Nat) (objects : Array Value) (attributes : List Attribute) :
    collect (p.within n) depth objects attributes = collect p depth objects attributes := by
  induction attributes generalizing objects with
  | nil => rfl
  | cons a rest ih =>
    have same : instantiate (p.within n) depth a = instantiate p depth a := rfl
    unfold collect
    simp only [ih, same]

theorem call_within (depth : Nat) (target : Token) (arguments : List Value) (dynamic : Bool) :
    call (p.within n) depth target arguments dynamic = call p depth target arguments dynamic := by
  unfold call callLibrary
  simp only [callDefinition_within, collect_within]
  rfl

theorem construct_within (depth : Nat) (token : Token) (arguments : List Value) :
    construct (p.within n) depth token arguments = construct p depth token arguments := by
  have same : constructDefinition (p.within n) depth token arguments = constructDefinition p depth token arguments := rfl
  unfold construct constructException
  simp only [call_within, same]
  rfl

theorem complete_within (depth : Nat) (pending : List Pending) (o : Outcome) :
    complete (p.within n) depth pending o = complete p depth pending o := by
  induction pending generalizing o with
  | nil => rfl
  | cons next rest ih =>
    cases o with
    | threw x => rfl
    | returned v =>
      cases next with
      | construct object => exact ih _
      | collect objects attributes =>
        unfold complete
        simp only [collect_within, ih]

/-- An instruction does the same whatever the limit is. -/
theorem Program.after_within (f : Frame) (callers : List Frame) (s : Machine) :
    (p.within n).after f callers s = p.after f callers s := by
  have performs : ∀ (f : Frame) (e : Effect), perform (p.within n) f callers e = perform p f callers e := by
    intro f e
    cases e <;> simp only [perform, call_within, construct_within, complete_within]
    all_goals rfl
  unfold Program.after advance
  simp only [performs]
  rfl

variable {p} in
theorem Program.Leads.within {r r' : Stage} {visits : List Visit} (leads : p.Leads r visits r') :
    (p.within n).Leads r visits r' := by
  induction leads with
  | stay r => exact .stay r
  | @step f callers s visits r rest ih =>
    have same : (p.within n).visit f callers s = p.visit f callers s := by
      unfold Program.visit
      rw [Program.after_within]
    rw [← p.after_within n] at ih
    exact same ▸ .step ih

end Limits

/-! ### Heaps as they are -/

/-- Every object is found under its own reference. -/
def HeapMap.identity (size : Nat) : HeapMap := (List.range size).map fun n => ⟨n + 1⟩

/-- An object is the same along a map if its values are. -/
theorem HeapObject.mapped_self {σ : HeapMap} {o : HeapObject} (values : ∀ v ∈ o.values, v.Mapped σ v) : o.Mapped σ o := by
  cases o with
  | boxed value => exact .boxed (values value List.mem_cons_self)
  | array elements => exact .array (List.forall₂_same.mpr values)
  | string value => exact .string value
  | method token => exact .method token
  | type token => exact .type token
  | «instance» type => exact .instance type
  | exception typeName message => exact .exception typeName message

namespace Heap

variable {h : Heap} {a b : HeapRef} {v : Value}

theorem takes_identity_iff : (HeapMap.identity h.size).Takes a b ↔ b = a ∧ (h.get? a).isSome := by
  obtain ⟨m⟩ := a
  obtain ⟨n⟩ := b
  cases m with
  | zero => simp [HeapMap.Takes, get?]
  | succ m =>
    have listed : (HeapMap.identity h.size)[m]? = some ⟨n⟩ ↔ n = m + 1 ∧ m < h.objects.size := by
      rw [HeapMap.identity, List.getElem?_map, Option.map_eq_some_iff]
      constructor
      · rintro ⟨k, found, same⟩
        obtain ⟨inside, here⟩ := List.getElem?_eq_some_iff.mp found
        rw [List.getElem_range] at here
        rw [List.length_range] at inside
        cases same
        exact ⟨congrArg (· + 1) here.symm, inside⟩
      · rintro ⟨rfl, inside⟩
        exact ⟨m, List.getElem?_range inside, rfl⟩
    simpa [HeapMap.Takes, get?] using listed

theorem Has.mapped (has : h.Has v) : v.Mapped (.identity h.size) v := by
  cases v with
  | ref r => exact .ref (takes_identity_iff.mpr ⟨rfl, has r rfl⟩)
  | _ => exact .plain rfl

/-- A closed heap is found in itself. -/
theorem Closed.mapped (closed : h.Closed) : h.Mapped (.identity h.size) h where
  size := by simp [HeapMap.identity]
  object takes := by
    obtain ⟨rfl, there⟩ := takes_identity_iff.mp takes
    obtain ⟨o, found⟩ := Option.isSome_iff_exists.mp there
    exact ⟨o, o, found, found, HeapObject.mapped_self fun v member => (closed _ o found v member).mapped⟩
  nodup := List.Nodup.map (fun m n same => by simpa using same) List.nodup_range

end Heap

/-! ### A decorator around a method -/

/-- The instructions of the old code, between added ones that call some hooks, where there is no frame below. -/
def Weave.Encloses (w : Weave) (σ : HeapMap) (opening closing : List HostCall) (visits visits' : List Visit) : Prop :=
  ∃ before old behind, visits' = before ++ old ++ behind ∧ w.Adds 0 opening before ∧ w.Adds 0 closing behind ∧
    List.Forall₂ (Visit.Mirrored σ) (visitsAt 0 visits) (visitsAt 0 old)

/-- What is called behind the old code: one hook with the result, or another one with an exception. -/
def Decor.Closes (δ : Decor) (A : HookArguments) (m : Module) (h : Heap) (calls : List HostCall) : Outcome → Prop
  | .returned v => ∃ u, calls = [δ.exitCall A u] ∧ (if δ.weave.plan.result.isVoid then .null else v).ToldAs h u
  | .threw x => ∃ is, isInstance m h x δ.weave.plan.exception = .ok is ∧ calls = if is then [δ.exceptionCall A x] else []

/-- A run of a call to its end: the machine before, the instructions, the outcome, and the machine behind. -/
structure Course where
  start : Machine
  visits : List Visit
  outcome : Outcome
  finish : Machine

/-- An activation takes a course. -/
def Program.Runs (p : Program) (a : Activation) (c : Course) : Prop :=
  ∃ first, a.body.code.first? = some first ∧
    p.Leads (.entering a [] first [] c.start) c.visits (.ok (.finished c.outcome) c.finish)

theorem Program.Runs.within {p : Program} {a : Activation} {c : Course} (runs : p.Runs a c) (n : Nat) : (p.within n).Runs a c := by
  obtain ⟨first, starts, leads⟩ := runs
  exact ⟨first, starts, leads.within n⟩

/-- A machine that has noted something down. -/
def Machine.noting (s : Machine) (event : TraceEvent) : Machine := { s with trace := s.trace.push event }

section Calls

variable {p : Program} {t : TypeDef} {d : MethodDef} {b : Body} {arguments : List Value} {s s' : Machine} {o : Outcome}

theorem enterBody_eq_ok_iff {depth : Nat} {progress : Progress} :
    enterBody p depth d b arguments s = .ok progress s' ↔
      arguments.length = d.signature.argumentCount ∧ depth < p.limits.callDepth ∧ s' = s.noting (.entered d.token) ∧
        ∃ first, b.code.first? = some first ∧ progress = .enter (.start (.ofMethod d b arguments) [] first) := by
  constructor
  · intro done
    unfold enterBody at done
    dsimp only at done
    split at done
    · rename_i fits
      split at done
      · rename_i room
        obtain ⟨_, u, noted, done⟩ := Running.bind_eq_ok.mp done
        cases noted
        cases starts : b.code.first? with
        | none =>
          rw [starts] at done
          cases done
        | some first =>
          rw [starts] at done
          cases done
          exact ⟨fits, room, rfl, first, rfl, rfl⟩
      · cases done
    · cases done
  · rintro ⟨fits, room, rfl, first, starts, rfl⟩
    unfold enterBody
    dsimp only
    rw [if_pos fits, if_pos room, starts]
    rfl

/-- A call of a method that has a body comes to an end where an activation takes a course to it, within the limits. -/
theorem Program.invoke_eq_ok_iff (known : p.module.method? d.token = some (t, d)) (table : d.token.table = Token.methodDef)
    (free : p.hostMethod? d.token = none) (body : d.body = some b) :
    p.invoke d.token arguments s = .ok o s' ↔
      arguments.length = d.signature.argumentCount ∧ 0 < p.limits.callDepth ∧
        ∃ visits, p.Runs (.ofMethod d b arguments) ⟨s.noting (.entered d.token), visits, o, s'⟩ ∧
          visits.length ≤ p.limits.instructions - s.executed := by
  have called : call p 0 d.token arguments false = enterBody p 0 d b arguments := by
    unfold call callDefinition
    simp [free, table, known, body]
  unfold invoke
  rw [execute_eq_ok_iff, called]
  constructor
  · rintro ⟨e, u, visits, started, leads, bound⟩
    obtain ⟨progress, v, entered, settled⟩ := Running.bind_eq_ok.mp started
    obtain ⟨fits, room, rfl, first, starts, rfl⟩ := enterBody_eq_ok_iff.mp entered
    cases settled
    exact ⟨fits, room, visits, ⟨first, starts, leads⟩, bound⟩
  · rintro ⟨fits, room, visits, ⟨first, starts, leads⟩, bound⟩
    have entered : enterBody p 0 d b arguments s = .ok _ _ := enterBody_eq_ok_iff.mpr ⟨fits, room, rfl, first, starts, rfl⟩
    exact ⟨_, _, visits, (Running.bind_of_ok entered).trans rfl, leads, bound⟩

end Calls

/-- A course does what another one does and comes to the same, between calls of hooks. -/
structure Decor.Repeats (δ : Decor) (m : Module) (σ τ : HeapMap) (arguments : List Value) (A : HookArguments)
    (closing : List HostCall) (c c' : Course) : Prop where
  grows : σ <+: τ
  heap : c.finish.heap.Mapped τ c'.finish.heap
  outcome : c.outcome.Mapped τ c'.outcome
  tells : A.Tells δ.type δ.weave.method c'.start.heap c'.finish.heap arguments
  encloses : δ.weave.Encloses τ [δ.entryCall A] closing c.visits c'.visits
  closes : δ.Closes A m c'.finish.heap closing c'.outcome

/-- A decorator stands around a method of the second of two programs, which are the same otherwise. It works on objects of
    an attribute, which becomes an object within some limits. -/
structure Decor.Stands (δ : Decor) (own : Attribute) (limits : Limits) (p q : Program) : Prop where
  modules : p.module.Alters (Decor.Bodies (some δ)) q.module
  hosts : q.hostMethods = p.hostMethods
  quiet : ∀ host ∈ p.hostMethods, HostMethod.Quiet host.2
  works : δ.Works q
  finds : δ.Finds q own
  constructs : q.Constructs own limits
  distinct : q.module.Distinct
  deep : limits.callDepth + p.limits.callDepth ≤ q.limits.callDepth

section Stands

variable {δ : Decor} {own : Attribute} {limits : Limits} {p q : Program} {σ τ : HeapMap} {A : HookArguments}

theorem Decor.Stands.enters (stands : δ.Stands own limits p q) : δ.Enters q p.limits.callDepth :=
  stands.works.enters stands.finds stands.constructs (stands.hosts ▸ stands.quiet) stands.distinct stands.deep

/-- Such programs run in tandem. -/
theorem Decor.Stands.sound (stands : δ.Stands own limits p q) (ends : List Pending × List Pending) (bottom : Guise) :
    Tandem.Sound ⟨p, q, some δ, [], ends, bottom⟩ where
  twins := {
    modules := stands.modules
    starts := by
      rintro d b b' (rfl | ⟨ε, known, -, -, -, rfl⟩) first
      · exact first
      · cases known
        rw [stands.works.yields.first]
        rfl
    hosts := stands.hosts
    quiet := stands.quiet }
  works ε known := by
    cases known
    exact stands.works
  enters ε known := by
    cases known
    exact stands.enters
  deep := Nat.le_trans (Nat.le_add_left _ _) stands.deep

/-- What hooks have been called with stays while the old code goes on. -/
theorem HookArguments.Tells.of_shadows {h ends last : Heap} {t t' : Machine} {arguments : List Value} {f g : Frame} {decor? : Option Decor}
    {ends? : Option (List Pending × List Pending)} (fresh : A.Fresh t.heap) (mapped : h.Mapped σ t.heap) {u : Machine}
    (told : List.Forall₂ (Value.NewlyToldAs t.heap u.heap) arguments A.elements.toList)
    (shadows : Machine.Shadows σ τ ends u t') (frame : f.Mirrored decor? τ t'.heap ends? (.woven δ A) g) (more : last.Extends t'.heap) :
    A.Tells δ.type δ.weave.method t.heap last arguments := by
  obtain ⟨-, -, keeps, -⟩ := frame.fits
  refine ⟨fresh, more keeps.attr, more keeps.method, more keeps.arguments, told.imp ?_⟩
  rintro v u (rfl | ⟨r, rfl, missing, box⟩)
  · exact .inl rfl
  · exact .inr ⟨r, rfl, missing, more (shadows.spares (mapped.not_mem missing) box).2⟩

/-- An activation of the method with the decorator repeats the course of one of the old method. -/
theorem Decor.Stands.repeats (stands : δ.Stands own limits p q) {d woven : MethodDef} {vs ws : List Value} {c : Course} {t : Machine}
    (signature : d.signature = δ.signature) (same : woven.signature = δ.signature) (fits : ws.length = δ.signature.argumentCount)
    (arguments : List.Forall₂ (Value.Mapped σ) vs ws) (mapped : c.start.heap.Mapped σ t.heap) (room : 0 < p.limits.callDepth)
    (runs : p.Runs (.ofMethod d δ.weave.old vs) c) :
    ∃ c' τ A closing, c'.start = t ∧ q.Runs (.ofMethod woven δ.new ws) c' ∧
      δ.Repeats p.module σ τ (ws.drop δ.signature.hasThis.toNat) A closing c c' := by
  obtain ⟨s, visits, o, s'⟩ := c
  obtain ⟨first, starts, leads⟩ := runs
  have works := stands.works
  have returns : ∀ {e : MethodDef}, e.signature = δ.signature → (!e.result.isVoid) = !δ.weave.plan.result.isVoid := by
    intro e own
    rw [works.result, ← own]
    rfl
  obtain ⟨opening, A, g, u, begun, adds, more, fresh, keeps, begins, told⟩ :=
    stands.enters (.ofMethod woven δ.new ws) [] [] t rfl (returns same) (by simpa [Activation.ofMethod] using fits) room
  have sound := stands.sound ([], []) (.woven δ A)
  have frame : (Frame.start (.ofMethod d δ.weave.old vs) [] first).Mirrored (some δ) σ u.heap (some ([], [])) (.woven δ A) g :=
    begins.mirrored works keeps rfl (fresh.apart mapped) rfl rfl starts ((returns same).trans (returns signature).symm)
      (by simpa [Activation.ofMethod] using arguments) ⟨rfl, begins.pending⟩
  have told : List.Forall₂ (Value.NewlyToldAs t.heap u.heap) (ws.drop δ.signature.hasThis.toNat) A.elements.toList := by
    simpa [Activation.ofMethod] using told
  cases sound.run (.last frame) (mapped.extends more) room leads with
  | @returns τ f g' i s₁ t₁ front rest visits' whole found ret onward leads' along frame =>
    obtain ⟨pending, pending'⟩ := frame.ends
    rcases p.after_ret [] found ret s₁ with ⟨fault, v, failed⟩ | ⟨v, stack, returned⟩
    · rw [failed] at onward
      cases onward
    -- The old code returns, and the hook behind it is called.
    have ended : p.after f [] s₁ = .ok (.finished (.returned v)) s₁.counted := by
      rw [p.after_returning [] found ret returned, pending]
      rfl
    rw [ended] at onward
    obtain - | - := onward
    obtain ⟨closing, g₂, w, e, t₂, value, leaves, after, behind, calls, adds', more', told'⟩ := works.returns frame found ret returned []
    have finished : q.after g₂ [] t₂ = .ok (.finished (.returned w)) t₂.counted := by
      rw [after, pending']
      rfl
    have last : δ.weave.Adds 0 [] [q.visit g₂ [] t₂] := by
      have silent : (q.visit g₂ [] t₂).requests = [] :=
        Visit.requests_eq_nil (Program.calls_of_hostCalls (by rw [finished]; rfl))
      exact silent ▸ .one rfl behind
    have mirrored : (p.visit f [] s₁).Mirrored τ (q.visit g' [] t₁) := by
      refine ⟨frame.housed.place, frame.housed.values.stack, ?_⟩
      rw [Visit.requests_eq_nil calls, Visit.requests_eq_nil (Program.calls_of_hostCalls (by rw [ended]; rfl))]
      exact .nil
    refine ⟨⟨t, opening ++ (visits' ++ [q.visit g' [] t₁]) ++ (closing ++ [q.visit g₂ [] t₂]), .returned w, t₂.counted⟩, τ, A, _, rfl,
      ⟨_, works.yields.first, ?_⟩, {
        grows := along.shadows.grows
        heap := along.shadows.heap.extends more'
        outcome := .returned value
        tells := .of_shadows fresh mapped told along.shadows frame more'
        encloses := ⟨opening, _, _, rfl, adds, by simpa using adds'.append last, ?_⟩
        closes := ⟨e, rfl, told'⟩ }⟩
    · have leaves : q.Leads (.ok (.running g' []) t₁) (q.visit g' [] t₁ :: (closing ++ [q.visit g₂ [] t₂])) _ :=
        .step (leaves.trans (finished ▸ q.leads_after g₂ [] t₂))
      simpa [Stage.entering] using (begun.trans leads').trans leaves
    · rw [whole, visitsAt_append, visitsAt_append]
      exact List.rel_append along.visits (.cons mirrored .nil)
  | @escapes τ x y f g' t₁ visits' threw leads' along takes frame declined =>
    -- The hook for failures is called, if the exception is one for it.
    obtain ⟨is, closing, t₂, decided, leaves, adds', stays⟩ := sound.passes [] frame takes along.shadows.heap declined
    refine ⟨⟨t, opening ++ visits' ++ closing, .threw y, t₂⟩, τ, A, _, rfl, ⟨_, works.yields.first, (begun.trans leads').trans leaves⟩, {
      grows := along.shadows.grows
      heap := stays ▸ along.shadows.heap
      outcome := threw ▸ .threw takes
      tells := .of_shadows fresh mapped told along.shadows frame (stays ▸ id)
      encloses := ⟨opening, visits', closing, rfl, adds, adds', along.visits⟩
      closes := ⟨is, (stands.modules.isInstance_eq _ _ _).symm.trans (stays ▸ decided), rfl⟩ }⟩

end Stands

end AspectWeaving

import AspectWeaving.Proofs.PrologueRuns

/-!
Entrances of woven bodies. Where the attribute of a decorator can be made into an object, the prologue of a woven body
comes to the old code (`Decor.Works.enters`): the attribute is looked up, the arguments are put into an array, and the hook
is called with these objects, which have not been there before.
-/
namespace AspectWeaving

open Running (compute allocate note)
open Instruction (loadSlot)

/-! ### Attributes without the host -/

/-- A computation does not call the host, whether it fails or not. -/
structure Running.Silent {α : Type} (x : Running α) : Prop where
  ok : ∀ {s a t}, x s = .ok a t → t.hostCalls = s.hostCalls
  error : ∀ {s fault t}, x s = .error fault t → t.hostCalls = s.hostCalls

namespace Running.Silent

variable {α β : Type}

theorem pure (a : α) : Silent (pure a : Running α) := by
  constructor <;> intro s _ t done <;> cases done
  rfl

theorem throw (fault : Fault) : Silent (throw fault : Running α) := by
  constructor <;> intro s _ t done <;> cases done
  rfl

theorem bind {x : Running α} {f : α → Running β} (first : Silent x) (second : ∀ a, Silent (f a)) : Silent (x >>= f) := by
  constructor
  · intro s b u done
    obtain ⟨a, t, start, rest⟩ := Running.bind_eq_ok.mp done
    exact ((second a).ok rest).trans (first.ok start)
  · intro s fault u failed
    change EStateM.bind x f s = _ at failed
    unfold EStateM.bind at failed
    cases start : x s with
    | ok a t =>
      rw [start] at failed
      exact ((second a).error failed).trans (first.ok start)
    | error cause t =>
      rw [start] at failed
      cases failed
      exact first.error start

theorem total {x : Running α} {a : Machine → α} {change : Machine → Machine} (total : ∀ s, x s = .ok (a s) (change s))
    (keeps : ∀ s, (change s).hostCalls = s.hostCalls) : Silent x := by
  constructor <;> intro s _ t done <;> rw [total] at done <;> cases done
  exact keeps s

theorem compute (e : Except ExecutionFault α) : Silent (compute e) := by
  cases e with
  | ok a => exact .pure a
  | error cause => exact .throw _

theorem allocate (o : HeapObject) : Silent (allocate o) := .total (fun _ => rfl) fun _ => rfl

theorem note (event : TraceEvent) : Silent (note event) := .total (fun _ => rfl) fun _ => rfl

end Running.Silent

open Running (Silent)

section Attributes

variable {p : Program} {depth : Nat}

theorem silent_toValue (a : AttributeArgument) : Silent a.toValue := by
  cases a with
  | string value => exact (Silent.allocate _).bind fun _ => .pure _
  | _ => exact .pure _

theorem silent_enterBody (d : MethodDef) (body : Body) (arguments : List Value) : Silent (enterBody p depth d body arguments) := by
  unfold enterBody
  dsimp only
  split
  · split
    · refine (Silent.note _).bind fun _ => ?_
      split
      · exact .throw _
      · exact .pure _
    · exact .throw _
  · exact .throw _

theorem silent_callDefinition {token : Token} (free : p.hostMethod? token = none) (arguments : List Value) :
    Silent (callDefinition p depth token arguments) := by
  unfold callDefinition
  rw [free]
  simp only
  split
  · exact .throw _
  · split
    · exact .throw _
    · exact silent_enterBody _ _ _

theorem silent_andThen {progress : Progress} {next : Pending} {finish : Value → Running Progress} (rest : ∀ v, Silent (finish v)) :
    Silent (progress.andThen next finish) := by
  unfold Progress.andThen
  split
  · exact rest _
  · exact .pure _
  · exact .pure _

/-- The host stands in for no constructor of a type. -/
def Program.MakesItself (p : Program) (type : Token) : Prop :=
  ∀ d count, p.module.constructor? type count = some d → p.hostMethod? d.token = none

theorem silent_instantiate {own : Attribute} (free : p.MakesItself own.type) : Silent (instantiate p depth own) := by
  have values : Silent (own.arguments.mapM (·.toValue)) := by
    induction own.arguments with
    | nil => exact .pure _
    | cons a rest ih =>
      rw [List.mapM_cons]
      exact (silent_toValue a).bind fun _ => ih.bind fun _ => .pure _
  unfold instantiate
  refine values.bind fun values => ?_
  dsimp only
  split
  · rename_i d found
    have chosen : p.hostMethod? d.token = none := free d values.length found
    unfold constructDefinition
    split
    · exact .throw _
    · refine (Silent.allocate _).bind fun _ => (silent_callDefinition chosen _).bind fun _ => ?_
      exact silent_andThen fun _ => .pure _
  · split
    · exact (Silent.allocate _).bind fun _ => .pure _
    · exact (Silent.compute _).bind fun _ => .throw _

/-- An attribute becomes an object without the host. -/
theorem silent_collect {own : Attribute} (free : p.MakesItself own.type) : Silent (collect p depth #[] [own]) :=
  (silent_instantiate free).bind fun _ => silent_andThen fun _ => (Silent.allocate _).bind fun _ => .pure _

theorem hostCalls_settleAttempt {m : Module} {frames : List Frame} {call : Running Progress} (silent : Silent call) (s : Machine) :
    (Stage.machine (settleAttempt m frames call s)).hostCalls = s.hostCalls := by
  rw [settleAttempt_eq]
  split
  · rename_i done
    rw [machine_settle]
    exact silent.ok done
  · rename_i fault t failed
    have same := silent.error failed
    cases frames with
    | nil => exact same
    | cons f cs =>
      cases named : fault.exceptionName? with
      | none =>
        simp only [raise, named]
        exact same
      | some typeName =>
        cases found : f.activation.body.code.get? f.place with
        | none =>
          simp only [raise, named, found]
          exact same
        | some i =>
          simp only [raise, named, found]
          change (Stage.machine (unwind m _ (f :: cs) _)).hostCalls = _
          rw [machine_unwind]
          exact same

end Attributes

/-! ### The way through a prologue -/

/-- What the prologue of a decorator needs where it is executed: the library finds the one attribute of the method that is of
    the type of the decorator, its object is one of that type, and the arguments are loaded as they are. -/
structure Decor.Finds (δ : Decor) (q : Program) (own : Attribute) : Prop where
  type : δ.type = own.type
  getMethod : q.Answers δ.weave.plan.getMethodFromHandle ⟨"GetMethodFromHandle", 2, false⟩
  getType : q.Answers δ.weave.plan.getTypeFromHandle ⟨"GetTypeFromHandle", 1, false⟩
  getAttributes : q.Answers δ.weave.plan.getCustomAttributes ⟨"GetCustomAttributes", 2, true⟩
  attributes : selectAttributes q.module δ.weave.method (some δ.weave.plan.attributeType) = .ok [own]
  castable : ∀ {h : Heap} {x}, h.get? x = some (.instance own.type) → checkCast q.module h x δ.weave.plan.attributeType = .ok ()
  loads : List.Forall₂ (ParameterLoad.Loads δ.signature) δ.weave.plan.parameters δ.signature.parameters.zipIdx
  byValue : ∀ e ∈ δ.signature.parameters, e.sig.byRefElement? = none
  free : q.MakesItself own.type

section Prologue

variable {q : Program} {δ : Decor} {own : Attribute} {limits : Limits} {f : Frame} {cs : List Frame} {s : Machine} {position first : Nat}
  {done ahead : List Instruction} {slots : Array (Option Value)} {heap : Heap} {y z : HeapRef}

/-- The attribute is looked up. -/
theorem Frame.Proceeds.collects (finds : δ.Finds q own) (constructs : q.Constructs own limits)
    (quiet : ∀ host ∈ q.hostMethods, HostMethod.Quiet host.2) (distinct : q.module.Distinct)
    (room : limits.callDepth + (cs.length + 1) ≤ q.limits.callDepth) (behind : δ.weave.old.code.size ≤ first)
    (proceeds : f.Proceeds q cs s position first done (⟨.callvirt, .method δ.weave.plan.getCustomAttributes⟩ :: ahead) slots
      [.int32 0, .ref z, .ref y] heap) (more : ahead ≠ [])
    (described : heap.get? y = some (.method δ.weave.method)) (asked : heap.get? z = some (.type δ.weave.plan.attributeType)) :
    ∃ visits g t r x, q.Leads (.ok (.running f cs) s) visits (.ok (.running g cs) t) ∧ δ.weave.Adds cs.length [] visits ∧
      g.At position first (done ++ [⟨.callvirt, .method δ.weave.plan.getCustomAttributes⟩]) ahead ∧ f.Moves g slots [.ref r] ∧
        heap.Makes t.heap own.type x ∧ t.heap.get? r = some (.array #[.ref x]) ∧ heap.get? r = none := by
  obtain ⟨g, u, walk, inside, -, rfl, moves⟩ := proceeds
  obtain ⟨front, leads, adds⟩ := Weave.Adds.of_walks (w := δ.weave) walk behind
  obtain ⟨j, found, alike⟩ := inside.fetch
  have stepped : step q.module g j u.counted = .ok ([], .call δ.weave.plan.getCustomAttributes [.ref y, .ref z, .int32 0] true) u.counted :=
    step_call [.ref y, .ref z, .int32 0] [] alike rfl rfl finds.getAttributes.callShape rfl moves.stack fun _ => ⟨y, _, rfl⟩
  have called : call q (cs.length + 1) δ.weave.plan.getCustomAttributes [.ref y, .ref z, .int32 0] true u.counted =
      collect q (cs.length + 1) #[] [own] u.counted := by
    refine (finds.getAttributes.call_eq fun _ => dispatch_method described _).trans <|
      (finds.getAttributes.getAttributes (s := u.counted) described asked).trans ?_
    rw [finds.attributes]
    rfl
  have after : q.after g cs u = settleAttempt q.module ({ g with stack := [] } :: cs) (collect q (cs.length + 1) #[] [own]) u.counted := by
    rw [Program.after_call cs found stepped, settleAttempt_eq, settleAttempt_eq, called]
  obtain ⟨visits, r, x, t, onward, above, makes, array, new⟩ :=
    constructs.collects quiet distinct room ({ g with stack := [] } : Frame) u.counted
  have beside : g.Beside (({ g with stack := [] } : Frame).receive (.ref r)) := (g.beside_stack []).trans (Frame.beside_receive _ _)
  rw [inside.goAhead cs more beside t, ← after] at onward
  have silent : (q.visit g cs u).requests = [] := by
    refine Visit.requests_eq_nil (Program.calls_of_hostCalls ?_)
    rw [after, hostCalls_settleAttempt (silent_collect finds.free)]
    rfl
  have own_ : δ.weave.Adds cs.length [] [q.visit g cs u] := by
    rw [← silent]
    refine .one rfl ?_
    change _ ≤ g.place.index
    rw [inside.place]
    exact Nat.le_trans behind (Nat.le_add_right _ _)
  refine ⟨front ++ (q.visit g cs u :: visits), _, t, r, x, leads.trans (.step onward), ?_, inside.onward beside, ?_, makes, array, new⟩
  · have deeper : δ.weave.Adds cs.length [] visits := by
      have none : visitsAt cs.length visits = [] := visitsAt_above _ above
      exact ⟨fun v member => Nat.le_of_lt (above v member), by rw [none]; nofun, by rw [none]; rfl⟩
    simpa using adds.append (own_.append deeper)
  · exact ⟨beside.activation.trans moves.activation, beside.pending.trans moves.pending, beside.active.trans moves.active, moves.slots, rfl⟩

/-- There are not many parameters, since each is loaded from an argument with a number. -/
theorem Decor.Finds.few (finds : δ.Finds q own) : δ.weave.plan.parameters.length < 2 ^ 31 := by
  by_contra many
  have count := finds.loads.length_eq
  rw [List.length_zipIdx] at count
  have last : 65536 < δ.weave.plan.parameters.length := by omega
  have paired := (List.forall₂_iff_get.mp finds.loads).2 65536 last (by rw [List.length_zipIdx]; omega)
  have index := paired.argument
  have bound := (δ.weave.plan.parameters.get ⟨65536, last⟩).argument.toNat_lt
  simp only [List.get_eq_getElem, List.getElem_zipIdx, Signature.argumentIndex] at index bound
  omega

/-- Each parameter is loaded from its argument. -/
theorem Decor.Finds.given (finds : δ.Finds q own) {a : Activation} (count : a.arguments.size = δ.signature.argumentCount) :
    List.Forall₂ (fun (l : ParameterLoad) v => l.deref = none ∧ a.arguments[l.argument.toNat]? = some v) δ.weave.plan.parameters
      (a.arguments.toList.drop δ.signature.hasThis.toNat) := by
  have total := finds.loads.length_eq
  rw [List.length_zipIdx] at total
  unfold Signature.argumentCount Signature.argumentIndex at count
  refine List.forall₂_iff_get.mpr ⟨by simp; omega, fun n inside inside' => ?_⟩
  have loads := (List.forall₂_iff_get.mp finds.loads).2 n inside (by rw [List.length_zipIdx]; omega)
  simp only [List.get_eq_getElem, List.getElem_zipIdx, Nat.zero_add] at loads ⊢
  refine ⟨(loads.direct (finds.byValue _ (List.getElem_mem _))).1, ?_⟩
  rw [loads.argument, List.getElem_drop, Array.getElem_toList]
  unfold Signature.argumentIndex
  rw [Nat.add_comm n]
  exact Array.getElem?_eq_getElem _

/-- What has not been there after more has been made has not been there before. -/
theorem Heap.Extends.get?_eq_none {h h' : Heap} {r : HeapRef} (more : h'.Extends h) (missing : h'.get? r = none) : h.get? r = none := by
  cases found : h.get? r with
  | none => rfl
  | some o =>
    rw [more found] at missing
    cases missing

/-- A method without a result has a slot in the place of it, which is null. -/
theorem Weave.Yields.initial_result {w : Weave} {new : Body} (yields : w.Yields new) (void : w.plan.result.isVoid) :
    new.slots[w.old.slots.size + 4]?.map (fun slot => if new.initSlots then some (Value.initial slot.sig) else none) =
      some (some .null) := by
  rw [← Array.getElem?_toList, yields.slots, List.getElem?_append_right (by simp), yields.initSlots]
  simp [WeavePlan.slots, void, Value.initial]

/-- Behind the own slots of a body there are the objects that a hook is called with. The other slots are as before, but for
    the one that is not used any more. -/
structure HookArguments.StoredIn (A : HookArguments) (own : Nat) (slots slots' : Array (Option Value)) : Prop where
  size : slots'.size = slots.size
  method : slots'[own]? = some (some (.ref A.method))
  attr : slots'[own + 1]? = some (some (.ref A.attr))
  arguments : slots'[own + 3]? = some (some (.ref A.arguments))
  others : ∀ n, n < own ∨ n = own + 4 → slots'[n]? = slots[n]?

theorem HookArguments.storedIn (A : HookArguments) {own : Nat} {slots : Array (Option Value)} (room : own + 5 ≤ slots.size) :
    A.StoredIn own slots
      (((slots.setIfInBounds own (some (.ref A.method))).setIfInBounds (own + 1) (some (.ref A.attr))).setIfInBounds (own + 3)
        (some (.ref A.arguments))) where
  size := by simp only [Array.size_setIfInBounds]
  method := by
    rw [Array.getElem?_setIfInBounds_ne (by omega), Array.getElem?_setIfInBounds_ne (by omega),
      Array.getElem?_setIfInBounds_self_of_lt (by omega)]
  attr := by
    rw [Array.getElem?_setIfInBounds_ne (by omega),
      Array.getElem?_setIfInBounds_self_of_lt (by rw [Array.size_setIfInBounds]; omega)]
  arguments := Array.getElem?_setIfInBounds_self_of_lt (by simp only [Array.size_setIfInBounds]; omega)
  others n other := by
    rw [Array.getElem?_setIfInBounds_ne (by omega), Array.getElem?_setIfInBounds_ne (by omega),
      Array.getElem?_setIfInBounds_ne (by omega)]

section Entering

variable {a : Activation} {ds : List Frame} {limit : Nat}

/-- The prologue of a woven body comes to the call of its hook, with what the hook is to be called with. -/
theorem Decor.Works.prepares (works : δ.Works q) (finds : δ.Finds q own) (constructs : q.Constructs own limits)
    (quiet : ∀ host ∈ q.hostMethods, HostMethod.Quiet host.2) (distinct : q.module.Distinct) (body : a.body = δ.new)
    (count : a.arguments.size = δ.signature.argumentCount) (room : limits.callDepth + (ds.length + 1) ≤ q.limits.callDepth)
    (rest : List Pending) (t : Machine) :
    ∃ visits g u, ∃ A : HookArguments, ∃ done slots heap, q.Leads (.ok (.running (.start a rest ⟨δ.weave.old.code.size⟩) ds) t) visits (.ok (.running g ds) u) ∧
      δ.weave.Adds ds.length [] visits ∧ g.activation = a ∧ g.pending = rest ∧ g.active = [] ∧
        g.Proceeds q ds u 0 δ.weave.old.code.size done (WeavePlan.toEntry δ.weave.slots ++ [⟨.callvirt, .method δ.weave.plan.onEntry⟩])
          slots [] heap ∧
        δ.weave.prologue.length = done.length + 4 ∧ A.StoredIn δ.weave.old.slots.size a.slots slots ∧ heap.Extends t.heap ∧
        A.Tells δ.type δ.weave.method t.heap heap (a.arguments.toList.drop δ.signature.hasThis.toNat) := by
  have fits := works.yields.slotsFit
  rw [Weave.length_slots] at fits
  have size : a.slots.size = δ.weave.old.slots.size + 5 := by
    unfold Activation.slots
    rw [Array.size_map, body, works.yields.size_slots]
  have few := finds.few
  have inside : (Frame.start a rest ⟨δ.weave.old.code.size⟩).At 0 δ.weave.old.code.size [] δ.weave.prologue := by
    refine ⟨?_, rfl⟩
    change a.body.code.Holds _ _ _
    rw [body]
    exact works.yields.prologue
  rw [Weave.prologue, WeavePlan.prologue_eq] at inside
  -- The method is described and the attribute looked up.
  have looked := (inside.proceeds q ds t).lookup fits (by simp)
    (by change _ < a.slots.size; omega) finds.getMethod finds.getType
  have described : ((t.heap.push (.method δ.weave.method)).push (.type δ.weave.plan.attributeType)).get? t.heap.nextRef =
      some (.method δ.weave.method) := Heap.get?_push (t.heap.get?_nextRef _) _
  obtain ⟨visits, g, u, r, x, leads, adds, inside, moves, makes, found, -⟩ :=
    looked.collects finds constructs quiet distinct room (Nat.le_refl _) (by simp [WeavePlan.toArray]) described
      ((t.heap.push _).get?_nextRef _)
  have kept : u.heap.Extends t.heap := fun here => makes.kept (Heap.get?_push (Heap.get?_push here _) _)
  -- The arguments go into an array.
  have second := inside.proceeds q ds u
  rw [moves.slots, moves.stack, show (Frame.start a rest ⟨δ.weave.old.code.size⟩).slots = a.slots from rfl] at second
  have loaded := second.toArray fits (by simp [WeavePlan.toEntry]) (by rw [Array.size_setIfInBounds, size]) found
    (finds.castable makes.made) few
  have array : (u.heap.push (.array (Array.replicate δ.weave.plan.parameters.length .null))).get? u.heap.nextRef = some _ :=
    u.heap.get?_nextRef _
  have push : (u.heap.push (.array (Array.replicate δ.weave.plan.parameters.length .null))).Extends u.heap := fun here => Heap.get?_push here _
  have stored := HookArguments.storedIn ⟨x, t.heap.nextRef, u.heap.nextRef, #[]⟩ (Nat.le_of_eq size.symm)
  have given : List.Forall₂ (fun (l : ParameterLoad) v => l.deref = none ∧ g.activation.arguments[l.argument.toNat]? = some v)
      δ.weave.plan.parameters (a.arguments.toList.drop δ.signature.hasThis.toNat) := by
    rw [moves.activation]
    exact finds.given count
  obtain ⟨heap, filled, fills⟩ := loaded.fillsArray fits stored.arguments array few (by simp [WeavePlan.toEntry]) given
  obtain ⟨told, tells, elements⟩ := fills.elements
  rw [← tells.length_eq, ← given.length_eq, Nat.sub_self, List.replicate_zero, List.append_nil] at elements
  have kept' : heap.Extends u.heap := by
    intro y o here
    refine fills.kept ?_ (push here)
    rintro rfl
    rw [Heap.get?_nextRef_eq_none] at here
    cases here
  refine ⟨visits, g, u, ⟨x, t.heap.nextRef, u.heap.nextRef, told.toArray⟩, _, _, heap, leads, adds, moves.activation, moves.pending,
    moves.active, filled, ?_, ⟨stored.size, stored.method, stored.attr, stored.arguments, stored.others⟩,
    fun here => kept' (kept here), ?_, ?_, kept' (makes.kept described), elements, ?_⟩
  · rw [Weave.prologue, WeavePlan.prologue_eq]
    simp [WeavePlan.toEntry, Weave.slots]
    omega
  · refine ⟨Heap.Extends.get?_eq_none (fun here => ?_) makes.new, Heap.get?_nextRef_eq_none _,
      kept.get?_eq_none (Heap.get?_nextRef_eq_none _)⟩
    exact Heap.get?_push (Heap.get?_push here _) _
  · rw [finds.type]
    exact kept' makes.made
  · refine tells.imp ?_
    rintro v u (rfl | ⟨r, rfl, missing, there⟩)
    · exact .inl rfl
    · exact .inr ⟨r, rfl, kept.get?_eq_none (push.get?_eq_none missing), there⟩

/-- The prologue of a woven body comes to the old code, with one call of its hook. -/
theorem Decor.Works.enters (works : δ.Works q) (finds : δ.Finds q own) (constructs : q.Constructs own limits)
    (quiet : ∀ host ∈ q.hostMethods, HostMethod.Quiet host.2) (distinct : q.module.Distinct)
    (room : limits.callDepth + limit ≤ q.limits.callDepth) : δ.Enters q limit := by
  intro a rest ds t body returns count deep
  have deep : limits.callDepth + (ds.length + 1) ≤ q.limits.callDepth := by omega
  obtain ⟨visits, g, u, A, done, slots, heap, leads, adds, activation, pending, active, filled, length, stored, all, fresh, attr, method,
    array, elements⟩ := works.prepares finds constructs quiet distinct body count deep rest t
  obtain ⟨m, n, -, o, -⟩ := works.yields.toNat_slots
  have size : a.slots.size = δ.weave.old.slots.size + 5 := by
    unfold Activation.slots
    rw [Array.size_map, body, works.yields.size_slots]
  -- The hook is called.
  obtain ⟨g', v, walk, inside, -, rfl, moves⟩ := ((filled.load (by simp) (v := .ref A.attr) (by rw [n]; exact stored.attr)).load (by simp)
    (v := .ref A.method) (by rw [m]; exact stored.method)).load (by simp) (v := .ref A.arguments) (by rw [o]; exact stored.arguments)
  obtain ⟨middle, onward, adds'⟩ := Weave.Adds.of_walks (w := δ.weave) walk (Nat.le_refl _)
  obtain ⟨v', after, same, requests⟩ := inside.calls_hook works.onEntry [.ref A.method, .ref A.arguments] rfl
    (by rw [moves.stack]; rfl) attr ds
  have activation : g'.activation = a := moves.activation.trans activation
  have next : g'.activation.next g'.place = .ok δ.weave.plan.anchor := by
    refine Activation.next_eq inside.stands ?_
    rw [activation, body, ← works.yields.order_anchor, length]
    simp only [List.length_append, List.length_cons, List.length_nil]
    congr 1
    omega
  have goes : q.after g' ds v = .ok (.running { g' with stack := [], place := δ.weave.plan.anchor } ds) v' := by
    rw [after]
    unfold goAhead Frame.ahead
    rw [show ({ g' with stack := [] } : Frame).activation.next ({ g' with stack := [] } : Frame).place = _ from next]
    rfl
  have called : δ.weave.Adds ds.length [δ.entryCall A] [q.visit g' ds v] := by
    have one : δ.weave.Adds ds.length (q.visit g' ds v).requests [q.visit g' ds v] := .one rfl (by
      change _ ≤ g'.place.index
      rw [inside.place]
      exact Nat.le_add_right _ _)
    rwa [requests] at one
  have held : ∀ {i w}, slots[i]? = some (some w) → ({ g' with stack := [], place := δ.weave.plan.anchor } : Frame).slot i = .ok w := by
    intro i w there
    exact Frame.slot_of_some (moves.slots ▸ there)
  refine ⟨visits ++ (middle ++ [q.visit g' ds v]), A, _, v', leads.trans (onward.trans (goes ▸ q.leads_after g' ds v)), ?_, same ▸ all,
    fresh, ?_, ?_, same ▸ elements⟩
  · simpa using adds.append (adds'.append called)
  · refine ⟨by rw [← body, ← activation], ?_, ⟨?_, held stored.method, held stored.attr, held stored.arguments⟩, fun _ => held ?_,
      same ▸ attr, same ▸ method, same ▸ array⟩
    · change g'.activation.returnsValue = _
      rw [activation, returns]
    · change _ ≤ g'.slots.size
      rw [moves.slots, stored.size, size]
    · rw [stored.others _ (.inr rfl), Activation.slots, Array.getElem?_map, body]
      exact works.yields.initial_result ‹_›
  · refine ⟨activation, moves.pending.trans pending, rfl, rfl, moves.active.trans active, fun n inside => ?_⟩
    change g'.slots[n]? = _
    rw [moves.slots, stored.others n (.inl inside)]

end Entering

end Prologue

end AspectWeaving

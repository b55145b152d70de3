import AspectWeaving.Proofs.MirroredFrames

/-!
Programs in tandem. Two programs whose modules are the same but for a decorator around one method run in tandem: an
instruction of one leads to frames that go along with those to which instructions of the other lead, through whatever
the woven code does in between (`Tandem.Sound.step`, `Tandem.Sound.returns`). A body that is woven is entered through its
prologue (`Decor.Enters`), an exception passes by the hook for failures (`Tandem.Sound.declined`), and a return goes
through the epilogue.
-/
namespace AspectWeaving

open Running (compute allocate note Follows Tracked Computed)

/-! ### Entered bodies -/

/-- A map knows nothing of the objects of a heap with which hooks are called. -/
def HookArguments.Fresh (A : HookArguments) (h : Heap) : Prop :=
  h.get? A.attr = none ∧ h.get? A.method = none ∧ h.get? A.arguments = none

theorem HookArguments.Fresh.apart {A : HookArguments} {σ : HeapMap} {h h' : Heap} (fresh : A.Fresh h')
    (mapped : h.Mapped σ h') : A.Apart σ :=
  ⟨mapped.not_mem fresh.1, mapped.not_mem fresh.2.1, mapped.not_mem fresh.2.2⟩

namespace Decor

/-- The call of the hook before the code. -/
def entryCall (δ : Decor) (A : HookArguments) : HostCall :=
  ⟨δ.weave.plan.onEntry, [.ref A.attr, .ref A.method, .ref A.arguments]⟩

/-- The prologue of an activation is over: the old code is about to be executed. -/
structure Begins (δ : Decor) (a : Activation) (rest : List Pending) (g : Frame) : Prop where
  activation : g.activation = a
  pending : g.pending = rest
  place : g.place = δ.weave.plan.anchor
  stack : g.stack = []
  active : g.active = []
  slots : ∀ n < δ.weave.old.slots.size, g.slots[n]? = a.slots[n]?

end Decor

/-- A value as it is told to a hook: as it is, or in a box that has not been there before. -/
def Value.NewlyToldAs (h h' : Heap) (v u : Value) : Prop :=
  u = v ∨ ∃ r, u = .ref r ∧ h.get? r = none ∧ h'.get? r = some (.boxed v)

/-- The objects that hooks are called with have not been there before, and are there later. -/
structure HookArguments.Tells (A : HookArguments) (type method : Token) (h h' : Heap) (arguments : List Value) : Prop where
  fresh : A.Fresh h
  attr : h'.get? A.attr = some (.instance type)
  method : h'.get? A.method = some (.method method)
  array : h'.get? A.arguments = some (.array A.elements)
  elements : List.Forall₂ (Value.NewlyToldAs h h') arguments A.elements.toList

/-- Where a woven body is entered below a level, its prologue comes to the old code, with what the hooks are called with. The
    elements of the array are the arguments of the call. -/
def Decor.Enters (δ : Decor) (q : Program) (limit : Nat) : Prop :=
  ∀ (a : Activation) (rest : List Pending) (ds : List Frame) (t : Machine), a.body = δ.new →
    a.returnsValue = !δ.weave.plan.result.isVoid → a.arguments.size = δ.signature.argumentCount → ds.length < limit →
    ∃ visits A g t', q.Leads (.ok (.running (.start a rest ⟨δ.weave.old.code.size⟩) ds) t) visits (.ok (.running g ds) t') ∧
      δ.weave.Adds ds.length [δ.entryCall A] visits ∧ t'.heap.Extends t.heap ∧ A.Fresh t.heap ∧ δ.Keeps A t'.heap g ∧
        δ.Begins a rest g ∧
          List.Forall₂ (Value.NewlyToldAs t.heap t'.heap) (a.arguments.toList.drop δ.signature.hasThis.toNat) A.elements.toList

/-- The body of a method stays, or is what a decorator makes of it. -/
def Decor.Bodies (decor? : Option Decor) (d : MethodDef) (b b' : Body) : Prop :=
  b' = b ∨ ∃ δ, decor? = some δ ∧ d.token = δ.weave.method ∧ d.signature = δ.signature ∧ b = δ.weave.old ∧ b' = δ.new

theorem Heap.Mapped.extends {σ : HeapMap} {h h' h'' : Heap} (mapped : h.Mapped σ h') (more : h''.Extends h') : h.Mapped σ h'' where
  size := mapped.size
  object takes := by
    obtain ⟨o, o', here, there, same⟩ := mapped.object takes
    exact ⟨o, o', here, more there, same⟩
  nodup := mapped.nodup

/-- Objects are only added to a heap, apart from those that a map knows. -/
theorem Machine.Shadows.of_extends {σ : HeapMap} {h : Heap} {t t' : Machine} (mapped : h.Mapped σ t.heap)
    (more : t'.heap.Extends t.heap) : Machine.Shadows σ σ h t t' :=
  ⟨List.prefix_refl σ, mapped.extends more, fun outside found => ⟨outside, more found⟩⟩

/-- That an instruction is counted does not matter. -/
theorem Machine.Tracks.of_counted {σ τ : HeapMap} {s s' t t' : Machine} (tracks : Machine.Tracks σ τ s.counted s' t.counted t') :
    Machine.Tracks σ τ s s' t t' :=
  ⟨⟨tracks.grows, tracks.heap, tracks.spares⟩, tracks.calls⟩

/-- Slots start with plain values. -/
theorem Activation.ref?_of_slots {a : Activation} {n : Nat} {o : Option Value} {v : Value} (here : a.slots[n]? = some o)
    (member : v ∈ o) : v.ref? = none := by
  unfold Activation.slots at here
  rw [Array.getElem?_map] at here
  obtain ⟨slot, -, rfl⟩ := Option.map_eq_some_iff.mp here
  split at member
  · cases member
    cases slot.sig <;> rfl
  · cases member

/-- Frames at the start of the same body go along. -/
theorem Frame.start_mirrored {B : MethodDef → Body → Body → Prop} {d d' : MethodDef} {decor? : Option Decor} {σ : HeapMap} {h : Heap}
    {b : Body} {vs ws : List Value} {rest rest' : List Pending} {first : Handle} {ends? : Option (List Pending × List Pending)}
    (method : d.Alters B d') (arguments : List.Forall₂ (Value.Mapped σ) vs ws)
    (ends : (Frame.start (.ofMethod d b vs) rest first).Ends σ (.start (.ofMethod d' b ws) rest' first) ends?) :
    (Frame.start (.ofMethod d b vs) rest first).Mirrored decor? σ h ends? .same (.start (.ofMethod d' b ws) rest' first) := by
  refine ⟨⟨⟨?_, by simpa [Frame.start, Activation.ofMethod] using arguments, ?_, .nil, .nil⟩, .refl _, rfl, nofun⟩, ends, rfl⟩
  · exact congrArg (fun s : Signature => !s.result.isVoid) method.signature
  · intro n o here
    exact ⟨o, here, fun v member => ⟨v, member, .plain (Activation.ref?_of_slots here member)⟩⟩

/-- Behind the prologue a frame of the woven body goes along with one at the start of the old body. -/
theorem Decor.Begins.mirrored {δ : Decor} {A : HookArguments} {decor? : Option Decor} {σ : HeapMap} {h : Heap} {a a' : Activation}
    {rest rest' : List Pending} {first : Handle} {g : Frame} {p : Program} {ends? : Option (List Pending × List Pending)}
    (begins : δ.Begins a' rest' g) (works : δ.Works p)
    (keeps : δ.Keeps A h g) (known : decor? = some δ) (apart : A.Apart σ) (old : a.body = δ.weave.old) (new : a'.body = δ.new)
    (starts : δ.weave.old.code.first? = some first) (returns : a'.returnsValue = a.returnsValue)
    (arguments : List.Forall₂ (Value.Mapped σ) a.arguments.toList a'.arguments.toList)
    (ends : (Frame.start a rest first).Ends σ g ends?) : (Frame.start a rest first).Mirrored decor? σ h ends? (.woven δ A) g where
  housed := {
    values := {
      returnsValue := by rw [begins.activation, returns]; rfl
      arguments := by rw [begins.activation]; exact arguments
      slots := by
        intro n o here
        have here : (δ.weave.old.slots.map fun slot =>
            if δ.weave.old.initSlots then some (Value.initial slot.sig) else none)[n]? = some o := by
          rw [← old]
          exact here
        rw [Array.getElem?_map] at here
        obtain ⟨slot, listed, rfl⟩ := Option.map_eq_some_iff.mp here
        have inside := (Array.getElem?_eq_some_iff.mp listed).1
        have there : δ.new.slots[n]? = some slot := by
          rw [← Array.getElem?_toList, works.yields.slots, List.getElem?_append_left (by simpa using inside),
            Array.getElem?_toList, listed]
        refine ⟨some (Value.initial slot.sig), ?_, fun v member => ?_⟩
        · rw [begins.slots n inside]
          unfold Activation.slots
          rw [new, Array.getElem?_map, there, works.yields.initSlots]
          rfl
        · split at member
          · cases member
            exact ⟨_, rfl, .plain (by cases slot.sig <;> rfl)⟩
          · cases member
      stack := by rw [begins.stack]; exact .nil
      active := by rw [begins.active]; exact .nil }
    houses := by
      rw [begins.activation, new]
      change a.body.Houses _ _ _
      rw [old]
      exact works.yields.houses
    place := by
      rw [begins.place]
      exact Option.some.inj (works.yields.anchor.symm.trans starts)
    clauses := nofun }
  ends := ends
  fits := ⟨known, old, keeps, apart⟩

theorem Code.mem_entries {c : Code} {h : Handle} {i : Instruction} (found : c.get? h = some i) : (h, i) ∈ c.entries := by
  have listed := (c.mem_order_iff h).mpr (Code.get?_isSome_iff.mp (Option.isSome_of_eq_some found))
  obtain ⟨n, inside, stands⟩ := Array.getElem_of_mem listed
  exact List.mem_of_getElem? (Code.getElem?_entries_eq_some_iff.mpr ⟨stands ▸ Array.getElem?_eq_getElem inside, found⟩)

/-- A frame has a value on top of its stack to return, if there is to be one. -/
def Frame.Returning (f : Frame) (value : Value) (stack : List Value) : Prop :=
  if f.activation.returnsValue then f.stack = value :: stack else value = .void ∧ f.stack = stack

/-- A frame with the same values has the same to return. -/
theorem Frame.Returning.mapped {σ : HeapMap} {f g : Frame} {v : Value} {stack : List Value} (returning : f.Returning v stack)
    (values : f.Mapped σ g) : ∃ w stack', v.Mapped σ w ∧ g.Returning w stack' := by
  unfold Frame.Returning at returning ⊢
  rw [values.returnsValue]
  split at returning
  · rename_i returns
    simp only [returns, if_true]
    have same := returning ▸ values.stack
    obtain ⟨w, stack', value, -, top⟩ := List.forall₂_cons_left_iff.mp same
    exact ⟨w, stack', value, top⟩
  · rename_i void
    simp only [void, if_false, Bool.false_eq_true]
    obtain ⟨rfl, -⟩ := returning
    exact ⟨.void, g.stack, Value.mapped_void, rfl, rfl⟩

section Returns

variable (p : Program) {f : Frame} (cs : List Frame) {i : Instruction} {value : Value} {stack : List Value}

theorem Program.after_returning (found : f.activation.body.code.get? f.place = some i) (ret : i.opcode = .ret)
    (returning : f.Returning value stack) (s : Machine) :
    p.after f cs s = settleAttempt p.module cs (complete p cs.length f.pending (.returned value)) s.counted := by
  have action : i.opcode.action = .exit := Opcode.action_eq_exit_iff.mpr ret
  rw [Program.after_eq p cs found]
  simp only [step, action]
  unfold Frame.Returning at returning
  split at returning
  · rename_i returns
    rw [returns, returning]
    rfl
  · rename_i void
    obtain ⟨rfl, -⟩ := returning
    rw [if_neg void]
    rfl

theorem Program.after_ret (found : f.activation.body.code.get? f.place = some i) (ret : i.opcode = .ret) (s : Machine) :
    (∃ fault u, p.after f cs s = .error fault u) ∨ ∃ value stack, f.Returning value stack := by
  have action : i.opcode.action = .exit := Opcode.action_eq_exit_iff.mpr ret
  unfold Frame.Returning
  cases returns : f.activation.returnsValue with
  | false => exact .inr ⟨.void, f.stack, rfl, rfl⟩
  | true =>
    cases top : f.stack with
    | nil =>
      refine .inl ⟨.execution .stackUnderflow, s.counted, ?_⟩
      rw [Program.after_eq p cs found]
      simp only [step, action, returns, top]
      rfl
    | cons value stack => exact .inr ⟨value, stack, rfl⟩

variable {p} in
/-- Where a frame of the old body returns, one of the woven body calls its hook with the same value and comes to return it. -/
theorem Decor.Works.returns {δ : Decor} {A : HookArguments} {decor? : Option Decor} {σ : HeapMap} {g : Frame} {t : Machine}
    {ends? : Option (List Pending × List Pending)} (works : δ.Works p) (frame : f.Mirrored decor? σ t.heap ends? (.woven δ A) g)
    (found : f.activation.body.code.get? f.place = some i) (ret : i.opcode = .ret) (returned : f.Returning value stack)
    (ds : List Frame) :
    ∃ visits g' w u t', value.Mapped σ w ∧ p.Leads (p.after g ds t) visits (.ok (.running g' ds) t') ∧
      p.after g' ds t' = settleAttempt p.module ds (complete p ds.length g.pending (.returned w)) t'.counted ∧
      δ.weave.old.code.size ≤ g'.place.index ∧ (p.visit g ds t).calls = [] ∧ δ.weave.Adds ds.length [δ.exitCall A u] visits ∧
        t'.heap.Extends t.heap ∧ (if δ.weave.plan.result.isVoid then .null else w).ToldAs t'.heap u := by
  obtain ⟨-, old, keeps, -⟩ := frame.fits
  obtain ⟨w, stack', same, returned'⟩ := returned.mapped frame.housed.values
  obtain ⟨j, there, alike⟩ := frame.housed.houses.instruction found
  rw [← frame.housed.place] at there
  have returns : δ.weave.old.code.entries.any (·.2.opcode == .ret) = true := by
    refine List.any_eq_true.mpr ⟨(f.place, i), Code.mem_entries (old ▸ found), ?_⟩
    simp [ret]
  have jumps : (⟨.br, .target δ.weave.places.epilogue⟩ : Instruction).Alike j := by
    have redirected : i.redirected (some δ.weave.places.epilogue) = ⟨.br, .target δ.weave.places.epilogue⟩ := if_pos ret
    exact redirected ▸ alike
  have results : δ.weave.plan.Results δ.weave.old.slots.size g (if δ.weave.plan.result.isVoid then .null else w) stack' := by
    unfold WeavePlan.Results
    unfold Frame.Returning at returned'
    rw [keeps.returnsValue] at returned'
    rw [works.stores, returns]
    cases void : δ.weave.plan.result.isVoid with
    | true =>
      simp only [void, Bool.not_true, Bool.false_eq_true, if_false] at returned'
      exact ⟨returned'.2, keeps.result void⟩
    | false => simpa [void] using returned'
  obtain ⟨visits, g', u, t', leads, after, behind, calls, adds, more, told⟩ := works.exits ds keeps there jumps results
  obtain - | ⟨leads⟩ := leads
  refine ⟨visits, g', _, u, t', ?_, leads, after, behind, calls, adds, more, ?_⟩
  · cases void : δ.weave.plan.result.isVoid with
    | true =>
      unfold Frame.Returning at returned
      rw [← frame.housed.values.returnsValue, keeps.returnsValue, void] at returned
      obtain ⟨rfl, -⟩ := returned
      exact Value.mapped_void
    | false => exact same
  · cases void : δ.weave.plan.result.isVoid with
    | true => simpa [void] using told
    | false => simpa [void] using told

end Returns

/-! ### Tandems -/

/-- Two programs that run in tandem, where one of them may have a decorator around a method. The run of the other one is
    mirrored by frames above further ones, and it is known what is to be done with the outcomes of those at the bottom. -/
structure Tandem where
  left : Program
  right : Program
  decor? : Option Decor
  base : List Frame
  ends : List Pending × List Pending
  bottom : Guise

namespace Tandem

/-- What it takes for two programs to run in tandem. -/
structure Sound (T : Tandem) : Prop where
  twins : T.left.Twins (Decor.Bodies T.decor?) T.right
  works : ∀ δ, T.decor? = some δ → δ.Works T.right
  enters : ∀ δ, T.decor? = some δ → δ.Enters T.right (T.left.limits.callDepth + T.base.length)
  deep : T.left.limits.callDepth + T.base.length ≤ T.right.limits.callDepth

/-- Frames go along with others. -/
abbrev Mirrors (T : Tandem) (σ : HeapMap) (h : Heap) (fs gs : List Frame) : Prop :=
  Paired T.decor? σ h T.base T.ends T.bottom fs gs

/-- What a stage of the first program comes to in the second one, from a stage on: it leads to frames that go along, or an
    exception comes to leave the frame at the bottom. Nothing is asked where the first one has failed. -/
inductive Reaches (T : Tandem) (σ : HeapMap) (t : Machine) : Stage → Stage → Prop
  | failed (fault : Fault) (s : Machine) (r : Stage) : Reaches T σ t (.error fault s) r
  | running {τ : HeapMap} {f g : Frame} {cs ds : List Frame} {s t' : Machine} {visits : List Visit} {r : Stage}
      (leads : T.right.Leads r visits (.ok (.running g ds) t')) (above : ∀ v ∈ visits, T.base.length < v.callers.length)
      (shadows : Machine.Shadows σ τ s.heap t t') (frames : T.Mirrors τ t'.heap (f :: cs) (g :: ds))
      (room : cs.length < T.left.limits.callDepth) : Reaches T σ t (.ok (.running f cs) s) r
  | escapes {τ : HeapMap} {x y : HeapRef} {f g : Frame} {s t' : Machine} {visits : List Visit} {r : Stage}
      (leads : T.right.Leads r visits (unwind T.right.module y (g :: T.base) t'))
      (above : ∀ v ∈ visits, T.base.length < v.callers.length) (shadows : Machine.Shadows σ τ s.heap t t')
      (takes : τ.Takes x y) (frame : f.Mirrored T.decor? τ t'.heap (some T.ends) T.bottom g)
      (declined : f.catch? T.left.module s.heap x = .ok none) : Reaches T σ t (.ok (.finished (.threw x)) s) r

variable {T : Tandem} {σ τ : HeapMap} {f g : Frame} {cs ds fs gs : List Frame} {s t t' : Machine} {x y : HeapRef} {h : Heap}

/-- The second program has gone on by itself for a while. -/
theorem Reaches.prepend {l r r' : Stage} {visits : List Visit} (reaches : T.Reaches τ t' l r') (leads : T.right.Leads r visits r')
    (above : ∀ v ∈ visits, T.base.length < v.callers.length) (shadows : Machine.Shadows σ τ h t t') : T.Reaches σ t l r := by
  have both : ∀ {visits' : List Visit}, (∀ v ∈ visits', T.base.length < v.callers.length) →
      ∀ v ∈ visits ++ visits', T.base.length < v.callers.length :=
    fun above' v member => (List.mem_append.mp member).elim (above v) (above' v)
  cases reaches with
  | failed fault s => exact .failed fault s r
  | running onward above' shadows' frames room =>
    exact .running (leads.trans onward) (both above') (shadows.trans shadows') frames room
  | escapes onward above' shadows' takes frame declined =>
    exact .escapes (leads.trans onward) (both above') (shadows.trans shadows') takes frame declined

/-! ### Exceptions -/

theorem isInstance_isOk (mapped : s.heap.Mapped σ t.heap) (takes : σ.Takes x y) (m : Module) {type : Token}
    (table : type.table = Token.typeRef) : ∃ is, isInstance m t.heap y type = .ok is := by
  obtain ⟨o, o', -, there, -⟩ := mapped.get_eq_ok takes
  unfold isInstance
  rw [m.naming_of_table (by rw [table]; decide), there]
  cases m.tokenName? type with
  | none => exact ⟨false, rfl⟩
  | some name => exact ⟨_, rfl⟩

/-- An exception that a frame of the old body declines gets below one of the woven body as well. If it is of the type of all
    exceptions, the hook for failures is called with it before. -/
theorem Sound.passes (sound : T.Sound) (ds : List Frame) {ends? : Option (List Pending × List Pending)} {δ : Decor} {A : HookArguments}
    (frame : f.Mirrored T.decor? σ t.heap ends? (.woven δ A) g) (takes : σ.Takes x y) (mapped : s.heap.Mapped σ t.heap)
    (declined : f.catch? T.left.module s.heap x = .ok none) :
    ∃ is visits t', isInstance T.right.module t.heap y δ.weave.plan.exception = .ok is ∧
      T.right.Leads (unwind T.right.module y (g :: ds) t) visits (unwind T.right.module y ds t') ∧
        δ.weave.Adds ds.length (if is then [δ.exceptionCall A y] else []) visits ∧ t'.heap = t.heap := by
  have instances : ∀ type, isInstance T.right.module t.heap y type = isInstance T.left.module s.heap x type :=
    fun type => isInstance_mapped sound.twins.modules mapped takes type
  obtain ⟨handling, -, caught, -⟩ | ⟨-, n, active, stands, answers⟩ := frame.housed.catch? instances takes declined
  · cases caught
  obtain ⟨known, old, keeps, -⟩ := frame.fits
  have works := sound.works δ known
  have asked := answers [δ.weave.clause] (by rw [keeps.body, old]; exact works.yields.handlers)
  have inside : n < δ.weave.old.code.size := by
    have bound := (Array.getElem?_eq_some_iff.mp stands).1
    rwa [old, δ.weave.old.code.size_order] at bound
  have before : δ.weave.prologue.length + n < δ.weave.handlerPosition := by
    have := Weave.Yields.epilogue_lt_handler δ.weave
    unfold Weave.epiloguePosition at this
    omega
  rw [show (Guise.woven δ A).shift + n = δ.weave.prologue.length + n from rfl,
    works.yields.findClause_clause keeps.body (Nat.le_add_right _ _) before, old] at asked
  obtain ⟨is, decided⟩ := isInstance_isOk mapped takes T.right.module works.exception
  refine ⟨is, ?_⟩
  rw [decided] at asked
  cases is with
  | false => exact ⟨[], t, decided, by rw [unwind_of_uncaught asked]; exact .stay _, .nil _ _, rfl⟩
  | true =>
    obtain ⟨visits, t', leads, adds, same⟩ := works.handles ds keeps y active
    refine ⟨visits, t', decided, ?_, adds, same⟩
    rw [unwind_cons, asked]
    exact leads

/-- An exception that a frame declines gets below its counterpart as well, though a hook may be called for it before. -/
theorem Sound.declined (sound : T.Sound) (ds : List Frame) {ends? : Option (List Pending × List Pending)} {k : Guise}
    (frame : f.Mirrored T.decor? σ t.heap ends? k g)
    (takes : σ.Takes x y) (mapped : s.heap.Mapped σ t.heap) (declined : f.catch? T.left.module s.heap x = .ok none) :
    ∃ visits t', T.right.Leads (unwind T.right.module y (g :: ds) t) visits (unwind T.right.module y ds t') ∧
      (∀ v ∈ visits, ds.length ≤ v.callers.length) ∧ t'.heap = t.heap := by
  cases k with
  | same =>
    obtain ⟨handling, -, caught, -⟩ | ⟨-, n, active, -, answers⟩ :=
      frame.housed.catch? (fun type => isInstance_mapped sound.twins.modules mapped takes type) takes declined
    · cases caught
    have body : g.activation.body = f.activation.body := frame.fits
    have none := answers [] (by rw [body]; simp [Guise.exit, Handler.closed])
    exact ⟨[], t, by rw [unwind_of_uncaught none]; exact .stay _, List.forall_mem_nil _, rfl⟩
  | woven δ A =>
    obtain ⟨is, visits, t', -, leads, adds, same⟩ := sound.passes ds frame takes mapped declined
    exact ⟨visits, t', leads, adds.above, same⟩

/-- An exception that a frame catches its counterpart catches as well. -/
theorem Sound.caught (sound : T.Sound) {ends? : Option (List Pending × List Pending)} {k : Guise} {handling : Frame}
    (frame : f.Mirrored T.decor? σ t.heap ends? k g) (takes : σ.Takes x y) (mapped : s.heap.Mapped σ t.heap)
    (here : f.catch? T.left.module s.heap x = .ok (some handling)) :
    ∃ handling', g.catch? T.right.module t.heap y = .ok (some handling') ∧
      handling.Mirrored T.decor? σ t.heap ends? k handling' := by
  obtain ⟨h, handling', found, there, housed, ⟨c, index, active, rfl⟩, d, index', active', rfl⟩ | ⟨none, -⟩ :=
    frame.housed.catch? (fun type => isInstance_mapped sound.twins.modules mapped takes type) takes here
  · cases found
    exact ⟨_, there, frame.goes housed rfl rfl rfl rfl rfl⟩
  · cases none

/-- An exception gets to frames that go along, or leaves the frame at the bottom. -/
theorem Sound.unwind (sound : T.Sound) (frames : T.Mirrors σ t.heap fs gs) (takes : σ.Takes x y) (mapped : s.heap.Mapped σ t.heap)
    (room : fs.length ≤ T.left.limits.callDepth) :
    T.Reaches σ t (AspectWeaving.unwind T.left.module x fs s) (AspectWeaving.unwind T.right.module y gs t) := by
  generalize start : t.heap = h at frames
  induction frames generalizing t with
  | @last f g frame =>
    subst start
    rw [unwind_cons T.left.module]
    split
    · rename_i handling here
      obtain ⟨handling', there, frame⟩ := sound.caught frame takes mapped here
      rw [unwind_cons, there]
      exact .running (.stay _) nofun (.refl mapped) (.last frame) room
    · rename_i declined
      exact .escapes (.stay _) nofun (.refl mapped) takes frame declined
    · exact .failed _ _ _
  | @above f g fs gs k frame below ih =>
    subst start
    rw [unwind_cons T.left.module]
    split
    · rename_i handling here
      obtain ⟨handling', there, frame⟩ := sound.caught frame takes mapped here
      rw [unwind_cons, there]
      exact .running (.stay _) nofun (.refl mapped) (.above k frame below) room
    · rename_i declined
      obtain ⟨visits, t', leads, levels, same⟩ := sound.declined gs frame takes mapped declined
      have there : s.heap.Mapped σ t'.heap := same ▸ mapped
      have stays : Machine.Shadows σ σ s.heap t t' := ⟨List.prefix_refl σ, there, fun outside found => ⟨outside, same ▸ found⟩⟩
      obtain ⟨deeper, bottom⟩ := below.length_eq
      refine (ih there (Nat.le_of_succ_le room) same).prepend leads (fun v member => ?_) stays
      have := levels v member
      omega
    · exact .failed _ _ _

/-! ### Calls -/

/-- What an instruction of the first program, with the calls of the host in it, comes to in the second one. -/
inductive Steps (T : Tandem) (σ : HeapMap) (s t : Machine) : Stage → Stage → Prop
  | failed (fault : Fault) (s' : Machine) (r : Stage) : Steps T σ s t (.error fault s') r
  | goes {τ : HeapMap} {s' t' : Machine} {l r : Stage} (tracks : Machine.Tracks σ τ s s' t t') (reaches : T.Reaches τ t' l r)
      (own : l.machine.hostCalls = s'.hostCalls) (other : r.machine.hostCalls = t'.hostCalls) : Steps T σ s t l r

theorem Steps.prepend {s' : Machine} {l r : Stage} (steps : T.Steps τ s' t' l r) (tracks : Machine.Tracks σ τ s s' t t') :
    T.Steps σ s t l r := by
  cases steps with
  | failed fault s' => exact .failed fault s' r
  | goes onward reaches own other => exact .goes (tracks.trans onward) reaches own other

theorem Reaches.steps {l r : Stage} (reaches : T.Reaches σ t l r) (mapped : s.heap.Mapped σ t.heap) (own : l.machine = s)
    (other : r.machine = t) : T.Steps σ s t l r :=
  .goes (.refl mapped) reaches (congrArg _ own) (congrArg _ other)

theorem Steps.of_follows {α β : Type} {R : HeapMap → α → β → Prop} {x : Running α} {y : Running β} {l : α → Running Execution}
    {r : β → Running Execution} (follows : Follows σ R x y) (mapped : s.heap.Mapped σ t.heap)
    (goes : ∀ {τ a b s' t'}, Machine.Tracks σ τ s s' t t' → R τ a b → T.Steps τ s' t' (l a s') (r b t')) :
    T.Steps σ s t ((x >>= l) s) ((y >>= r) t) := by
  have start := follows s t mapped
  change T.Steps σ s t (EStateM.bind x l s) (EStateM.bind y r t)
  unfold EStateM.bind
  generalize x s = q, y t = q' at start
  cases start with
  | ok tracks both => exact (goes tracks both).prepend tracks
  | error => exact .failed _ _ _
  | fatal => exact .failed _ _ _

theorem Steps.of_unseen {fault : Fault} (unseen : fault.exceptionName? = none) (m : Module) (fs : List Frame) (s' : Machine) (r : Stage) :
    T.Steps σ s t (AspectWeaving.raise m fault fs s') r := by
  rcases raise_cases m fault fs s' with ⟨u, ended⟩ | ⟨x, u, -, seen, -⟩
  · rw [ended]
    exact .failed _ _ _
  · rw [unseen] at seen
    cases seen

/-- A fault of the frame on top becomes an exception in both programs. -/
theorem Sound.raise (sound : T.Sound) (frames : T.Mirrors σ t.heap (f :: cs) (g :: ds)) (mapped : s.heap.Mapped σ t.heap)
    (room : cs.length < T.left.limits.callDepth) (fault : Fault) :
    T.Steps σ s t (AspectWeaving.raise T.left.module fault (f :: cs) s) (AspectWeaving.raise T.right.module fault (g :: ds) t) := by
  obtain ⟨ends?, k, frame⟩ := frames.top
  cases named : fault.exceptionName? with
  | none =>
    unfold AspectWeaving.raise
    simp only [named]
    exact .failed _ _ _
  | some typeName =>
    cases found : f.activation.body.code.get? f.place with
    | none =>
      unfold AspectWeaving.raise
      simp only [named, found]
      exact .failed _ _ _
    | some i =>
      obtain ⟨j, there, -⟩ := frame.housed.houses.instruction found
      rw [← frame.housed.place] at there
      have made : Follows σ HeapMap.Takes (do note (.raised i typeName); allocate (.exception typeName (some fault.message)))
          (do note (.raised j typeName); allocate (.exception typeName (some fault.message))) :=
        (Running.follows_note _ _).bind fun _ _ _ _ _ => Running.follows_allocate (.exception _ _)
      have left : AspectWeaving.raise T.left.module fault (f :: cs) = (do
          note (.raised i typeName)
          allocate (.exception typeName (some fault.message))) >>= fun x => AspectWeaving.unwind T.left.module x (f :: cs) := by
        unfold AspectWeaving.raise
        simp only [named, found, bind_assoc]
      have right : AspectWeaving.raise T.right.module fault (g :: ds) = (do
          note (.raised j typeName)
          allocate (.exception typeName (some fault.message))) >>= fun x => AspectWeaving.unwind T.right.module x (g :: ds) := by
        unfold AspectWeaving.raise
        simp only [named, there, bind_assoc]
      rw [left, right]
      refine Steps.of_follows made mapped fun tracks takes => ?_
      exact (sound.unwind (frames.shadows tracks.toShadows) takes tracks.heap room).steps tracks.heap (machine_unwind ..)
        (machine_unwind ..)

/-- Control goes on behind the instructions of frames that go along. -/
theorem goesAhead (frames : T.Mirrors σ t.heap (f :: cs) (g :: ds)) (mapped : s.heap.Mapped σ t.heap)
    (room : cs.length < T.left.limits.callDepth) : T.Reaches σ t (AspectWeaving.goAhead f cs s) (AspectWeaving.goAhead g ds t) := by
  obtain ⟨ends?, k, frame⟩ := frames.top
  rcases Program.goAhead_cases f cs s with ⟨fault, failed⟩ | ⟨place, next, goes⟩
  · rw [failed]
    exact .failed _ _ _
  · have onward : g.activation.next g.place = .ok place := frame.housed.place ▸ frame.housed.houses.next next
    rcases Program.goAhead_cases g ds t with ⟨fault, failed⟩ | ⟨place', next', goes'⟩
    · unfold AspectWeaving.goAhead Frame.ahead at failed
      rw [onward] at failed
      cases failed
    · obtain rfl : place = place' := Except.ok.inj (onward.symm.trans next')
      rw [goes, goes']
      exact .running (.stay _) nofun (.refl mapped)
        (frames.goes fun frame => frame.goes (frame.housed.jump place) rfl rfl rfl rfl rfl) room

/-- A body is entered in both programs. Where it is woven, its prologue is executed. -/
theorem Sound.enters_body (sound : T.Sound) (frames : T.Mirrors σ t.heap fs gs) (mapped : s.heap.Mapped σ t.heap)
    (enters : f.Enters (Decor.Bodies T.decor?) σ g) (room : fs.length < T.left.limits.callDepth) :
    T.Reaches σ t (.ok (.running f fs) s) (.ok (.running g gs) t) := by
  obtain @⟨d, d', b, b', vs, ws, rest, rest', first, first', method, body, arguments, fits, starts, starts', pending⟩ := enters
  have result : d'.result = d.result := congrArg Signature.result method.signature
  rcases body with rfl | ⟨δ, known, token, signature, rfl, rfl⟩
  · obtain rfl : first = first' := Option.some.inj (starts.symm.trans starts')
    exact .running (.stay _) nofun (.refl mapped) (.above .same (Frame.start_mirrored method arguments pending) frames) room
  · have works := sound.works δ known
    obtain rfl : (⟨δ.weave.old.code.size⟩ : Handle) = first' := Option.some.inj (works.yields.first.symm.trans starts')
    have length := frames.length_eq.1
    obtain ⟨visits, A, g, t', leads, adds, more, fresh, keeps, begins, -⟩ := sound.enters δ known (.ofMethod d' δ.new ws) rest' gs t rfl
      (by rw [works.result, ← signature, ← method.signature]; rfl)
      (by rw [← signature, ← fits, arguments.length_eq]; simp [Activation.ofMethod]) (by omega)
    have shadows := Machine.Shadows.of_extends mapped more
    have mirrored : (Frame.start (.ofMethod d δ.weave.old vs) rest first).Mirrored T.decor? σ t'.heap none (.woven δ A) g :=
      begins.mirrored works keeps known (fresh.apart mapped) rfl rfl starts
        (congrArg (fun r : TypeSig => !r.isVoid) result) (by simpa [Activation.ofMethod] using arguments)
        (by change List.Forall₂ (Pending.Mapped σ) rest g.pending
            rw [begins.pending]
            exact pending)
    refine .running leads (fun v member => ?_) shadows (.above _ mirrored (frames.shadows shadows)) room
    have := adds.above v member
    have := frames.length_eq.2
    omega

/-- Frames go on with what a call has come to. -/
theorem Sound.settles (sound : T.Sound) (frames : T.Mirrors σ t.heap fs gs) (mapped : s.heap.Mapped σ t.heap)
    (room : fs.length ≤ T.left.limits.callDepth) {P Q : Progress}
    (progress : P.Mapped (Decor.Bodies T.decor?) (fs.length < T.left.limits.callDepth) σ Q) :
    T.Reaches σ t (settle T.left.module fs P s) (settle T.right.module gs Q t) := by
  cases progress with
  | enter enters fits => exact sound.enters_body frames mapped enters fits
  | done outcome =>
    cases outcome with
    | threw takes => exact sound.unwind frames takes mapped room
    | returned value =>
      obtain ⟨f, cs, g, ds, rfl, rfl⟩ := frames.eq_cons
      exact goesAhead (frames.goes fun frame => frame.receive value) mapped room

/-- Calls that come to the same come to the same frames, also where they fail. -/
theorem Sound.settlesAttempt (sound : T.Sound) (frames : T.Mirrors σ t.heap fs gs) (mapped : s.heap.Mapped σ t.heap)
    (room : fs.length ≤ T.left.limits.callDepth) {x y : Running Progress}
    (call : Follows σ (T.left.Progresses (Decor.Bodies T.decor?) fs.length) x y) :
    T.Steps σ s t (settleAttempt T.left.module fs x s) (settleAttempt T.right.module gs y t) := by
  rw [settleAttempt_eq, settleAttempt_eq]
  have start := call s t mapped
  generalize x s = q, y t = q' at start
  cases start with
  | ok tracks progress =>
    exact ((sound.settles (frames.shadows tracks.toShadows) tracks.heap room progress).steps tracks.heap (machine_settle ..)
      (machine_settle ..)).prepend tracks
  | error tracks =>
    obtain ⟨f, cs, g, ds, rfl, rfl⟩ := frames.eq_cons
    exact (sound.raise (frames.shadows tracks.toShadows) tracks.heap room _).prepend tracks
  | fatal unseen => exact .of_unseen unseen _ _ _ _

/-! ### Instructions -/

/-- An effect of an instruction happens in both programs. -/
theorem Sound.performs (sound : T.Sound) (frames : T.Mirrors σ t.heap (f :: cs) (g :: ds)) (mapped : s.heap.Mapped σ t.heap)
    (room : cs.length < T.left.limits.callDepth) {e e' : Effect} (effect : e.Mapped σ e')
    (old : ∀ {slot v δ A ends?}, e = .store slot v → f.Mirrored T.decor? σ t.heap ends? (.woven δ A) g → slot < δ.weave.old.slots.size)
    (stays : ∀ v, e ≠ .exit v) : T.Steps σ s t (perform T.left f cs e s) (perform T.right g ds e' t) := by
  have length := frames.length_eq.1
  have deep : cs.length + 1 < T.left.limits.callDepth → ds.length + 1 < T.right.limits.callDepth := by
    have := sound.deep
    simp only [List.length_cons] at length
    omega
  cases effect with
  | next => exact (goesAhead frames mapped room).steps mapped (machine_goAhead ..) (machine_goAhead ..)
  | store slot value =>
    refine (goesAhead (frames.goes fun {ends? k} frame => frame.store (fun δ A woven => ?_) value) mapped room).steps mapped
      (machine_goAhead ..) (machine_goAhead ..)
    subst woven
    exact old rfl frame
  | jump target =>
    refine Reaches.steps (.running (.stay _) nofun (.refl mapped) ?_ room) mapped rfl rfl
    exact frames.goes fun frame => frame.goes (frame.housed.jump target) rfl rfl rfl rfl rfl
  | leave target =>
    simp only [perform]
    cases left : f.leave target with
    | error cause => exact .failed _ _ _
    | ok f' =>
      obtain ⟨ends?, k, frame⟩ := frames.top
      obtain ⟨active, there, -⟩ := frame.housed.leave left
      rw [there]
      refine Reaches.steps (.running (.stay _) nofun (.refl mapped) ?_ room) mapped rfl rfl
      refine frames.goes fun frame => ?_
      obtain ⟨active', there', housed⟩ := frame.housed.leave left
      obtain rfl : active = active' := congrArg Frame.active (Except.ok.inj (there.symm.trans there'))
      obtain ⟨rest, rfl⟩ := Frame.leave_eq_ok left
      exact frame.goes housed rfl rfl rfl rfl rfl
  | exit value => exact absurd rfl (stays _)
  | throw takes => exact (sound.unwind frames takes mapped room).steps mapped (machine_unwind ..) (machine_unwind ..)
  | call target arguments dynamic =>
    exact sound.settlesAttempt frames mapped room (follows_call sound.twins deep target arguments dynamic)
  | construct target arguments =>
    exact sound.settlesAttempt frames mapped room (follows_construct sound.twins deep target arguments)

/-- An instruction that does not return leads to frames that go along. -/
theorem Sound.step (sound : T.Sound) (frames : T.Mirrors σ t.heap (f :: cs) (g :: ds)) (mapped : s.heap.Mapped σ t.heap)
    (room : cs.length < T.left.limits.callDepth) {i : Instruction} (found : f.activation.body.code.get? f.place = some i)
    (stays : i.opcode ≠ .ret) : T.Steps σ s t (T.left.after f cs s) (T.right.after g ds t) := by
  obtain ⟨ends?, k, frame⟩ := frames.top
  obtain ⟨j, there, alike⟩ := frame.housed.houses.instruction found
  rw [Instruction.redirected_of_ne stays] at alike
  rw [← frame.housed.place] at there
  rw [Program.after_eq _ _ found, Program.after_eq _ _ there]
  have start := follows_step sound.twins.modules frame.housed.values alike s.counted t.counted mapped
  unfold Machine.counted at start
  generalize left : AspectWeaving.step T.left.module f i { s with executed := s.executed + 1 } = q at start ⊢
  generalize AspectWeaving.step T.right.module g j { t with executed := t.executed + 1 } = q' at start ⊢
  cases start with
  | @ok τ a b s' t' tracks alike =>
    obtain ⟨stack, effect⟩ := a
    obtain ⟨stack', effect'⟩ := b
    obtain ⟨values, effects⟩ := alike
    have tracks := tracks.of_counted
    have goes := sound.performs ((frames.shadows tracks.toShadows).goes fun frame => frame.withStack values) tracks.heap room effects
      ?_ ?_
    · exact goes.prepend tracks
    · rintro slot v δ A ends? rfl frame
      obtain ⟨index, used, rfl⟩ := store_of_step left
      obtain ⟨known, old, -, -⟩ := frame.fits
      have fits := (sound.works δ known).valid.instruction (old ▸ found)
      exact fits.slot used
    · rintro v rfl
      exact stays (Opcode.action_eq_exit_iff.mp (ensures_step _ _ _ _ _ _ left))
  | error tracks =>
    have tracks := tracks.of_counted
    exact (sound.raise (frames.shadows tracks.toShadows) tracks.heap room _).prepend tracks
  | fatal unseen => exact .of_unseen unseen _ _ _ _

/-! ### Returns -/

theorem Steps.reaches {l r : Stage} (steps : T.Steps σ s t l r) : T.Reaches σ t l r := by
  cases steps with
  | failed fault s' => exact .failed fault s' r
  | goes tracks reaches => exact reaches.prepend (.stay r) nofun tracks.toShadows

/-- A return from a frame that is not at the bottom leads to frames that go along. In a woven body the epilogue is executed
    before the activation is left. -/
theorem Sound.returns (sound : T.Sound) (frames : T.Mirrors σ t.heap (f :: cs) (g :: ds)) (mapped : s.heap.Mapped σ t.heap)
    (room : cs.length < T.left.limits.callDepth) (above : cs ≠ []) {i : Instruction}
    (found : f.activation.body.code.get? f.place = some i) (ret : i.opcode = .ret) :
    T.Reaches σ t (T.left.after f cs s) (T.right.after g ds t) := by
  have length := frames.length_eq.1
  have deep : cs.length < T.left.limits.callDepth → ds.length < T.right.limits.callDepth := by
    have := sound.deep
    simp only [List.length_cons] at length
    omega
  cases frames with
  | last => exact absurd rfl above
  | above k frame below =>
    have pending : List.Forall₂ (Pending.Mapped σ) _ _ := frame.ends
    rcases Program.after_ret T.left cs found ret s with ⟨fault, u, failed⟩ | ⟨v, stack, returned⟩
    · rw [failed]
      exact .failed _ _ _
    obtain ⟨w, stack', value, returned'⟩ := returned.mapped frame.housed.values
    have onward : ∀ {w' : Value} {t' : Machine}, v.Mapped σ w' → Machine.Shadows σ σ s.heap t t' →
        T.Reaches σ t' (T.left.after f cs s)
          (settleAttempt T.right.module ds (complete T.right ds.length g.pending (.returned w')) t') := by
      intro w' t' value shadows
      rw [T.left.after_returning cs found ret returned]
      exact (sound.settlesAttempt (s := s.counted) (below.shadows shadows) shadows.heap (Nat.le_of_lt room)
        (follows_complete sound.twins deep pending (.returned value))).reaches
    obtain ⟨j, there, alike⟩ := frame.housed.houses.instruction found
    rw [← frame.housed.place] at there
    cases k with
    | same =>
      have ret' : j.opcode = .ret := Opcode.action_eq_exit_iff.mp (alike.action.symm.trans (Opcode.action_eq_exit_iff.mpr ret))
      rw [T.right.after_returning _ there ret' returned']
      have shadows : Machine.Shadows σ σ s.heap t t.counted := .of_extends mapped id
      exact (onward value shadows).prepend (.stay _) nofun shadows
    | woven δ A =>
      have works := sound.works δ frame.fits.1
      obtain ⟨visits, g', w, u, t', value, leads, after, -, -, adds, more, -⟩ := works.returns frame found ret returned ds
      have shadows : Machine.Shadows σ σ s.heap t t'.counted := .of_extends mapped more
      refine (after ▸ onward value shadows).prepend (leads.trans (T.right.leads_after g' ds t')) (fun v member => ?_) shadows
      have deeper := below.length_eq
      rcases List.mem_append.mp member with inner | last
      · have := adds.above v inner
        omega
      · obtain rfl := List.mem_singleton.mp last
        change T.base.length < ds.length
        omega

end Tandem

end AspectWeaving

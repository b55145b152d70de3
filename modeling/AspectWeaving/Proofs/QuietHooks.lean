import AspectWeaving.Proofs.HookOutcomes
import AspectWeaving.Proofs.LookupSteps

/-!
Woven code around hooks that do nothing. Behind a return of the old code the epilogue calls its hook with the result
and the activation returns that (`Decor.Works.exits`); an exception that the old code does not catch gets to the hook for
failures and then leaves the activation (`Decor.Works.escapes`). Each time the hook is called once, with the objects that
the activation keeps for its hooks (`Decor.Keeps`).
-/
namespace AspectWeaving

open Running (compute)

/-! ### Calls of hooks -/

/-- The visits of frames with a number of frames below them. -/
def visitsAt (level : Nat) (visits : List Visit) : List Visit := visits.filter (·.callers.length == level)

/-- The calls that the host answers, each by the method that the instruction names. -/
def Visit.requests (v : Visit) : List HostCall :=
  v.calls.map fun c => { c with method := ((v.frame.activation.body.code.get? v.frame.place).bind (·.token?)).getD c.method }

theorem Visit.requests_eq_nil {v : Visit} (none : v.calls = []) : v.requests = [] := by
  rw [Visit.requests, none, List.map_nil]

/-- Code that a weave adds is executed at a level, and calls some hooks there. -/
structure Weave.Adds (w : Weave) (level : Nat) (requests : List HostCall) (visits : List Visit) : Prop where
  above : ∀ v ∈ visits, level ≤ v.callers.length
  added : ∀ v ∈ visitsAt level visits, w.old.code.size ≤ v.frame.place.index
  requests : (visitsAt level visits).flatMap (·.requests) = requests

/-- A virtual call of a method on an object of a type, with a number of further arguments, is answered by the host, which
    does nothing. -/
structure Program.Quiets (p : Program) (type method : Token) (count : Nat) : Prop where
  shape : ∃ shape, p.module.callShape method = .ok shape ∧ shape.argumentCount = count + 1
  call : ∀ depth {a} rest {s}, s.heap.get? a = some (.instance type) → ∃ token,
    call p depth method (.ref a :: rest) true s =
      .ok (.result .void) { s with hostCalls := s.hostCalls.push ⟨token, .ref a :: rest⟩ }

namespace Weave.Adds

variable {w : Weave} {p : Program} {level : Nat} {calls calls' : List HostCall} {visits visits' : List Visit} {f g : Frame}
  {cs : List Frame} {s t : Machine} {lo : Nat}

theorem nil (w : Weave) (level : Nat) : w.Adds level [] [] := ⟨nofun, nofun, rfl⟩

theorem append (first : w.Adds level calls visits) (second : w.Adds level calls' visits') :
    w.Adds level (calls ++ calls') (visits ++ visits') where
  above v member := (List.mem_append.mp member).elim (first.above v) (second.above v)
  added v member := by
    rw [visitsAt, List.filter_append] at member
    exact (List.mem_append.mp member).elim (first.added v) (second.added v)
  requests := by rw [visitsAt, List.filter_append, List.flatMap_append, ← first.requests, ← second.requests]; rfl

/-- A walk calls no hook. -/
theorem of_walks (walks : p.Walks cs lo f s g t) (behind : w.old.code.size ≤ lo) :
    ∃ visits, p.Leads (.ok (.running f cs) s) visits (.ok (.running g cs) t) ∧ w.Adds cs.length [] visits := by
  obtain ⟨visits, leads, bounds⟩ := walks
  refine ⟨visits, leads, fun v member => ?_, fun v member => ?_, List.flatMap_eq_nil_iff.mpr fun v member => ?_⟩
  · rw [(bounds v member).1]
  · exact Nat.le_trans behind (bounds v (List.mem_of_mem_filter member)).2.2
  · rw [Visit.requests, (bounds v (List.mem_of_mem_filter member)).2.1]
    rfl

/-- One instruction. -/
theorem one {v : Visit} (own : v.callers.length = level) (behind : w.old.code.size ≤ v.frame.place.index) :
    w.Adds level v.requests [v] where
  above u member := by
    obtain rfl := List.mem_singleton.mp member
    exact Nat.le_of_eq own.symm
  added u member := by
    obtain rfl := List.mem_singleton.mp (List.mem_of_mem_filter member)
    exact behind
  requests := by simp [visitsAt, own]

end Weave.Adds

section Calls

variable {p : Program} {cs : List Frame} {f : Frame} {s : Machine} {position first : Nat} {done ahead : List Instruction}

/-- A hook is called, and control is to go on behind the call. -/
theorem Frame.At.calls_hook {type method : Token} {count : Nat} (quiets : p.Quiets type method count)
    (inside : f.At position first done (⟨.callvirt, .method method⟩ :: ahead)) {a : HeapRef} (arguments : List Value) {rest : List Value}
    (full : arguments.length = count) (top : f.stack = (.ref a :: arguments).reverse ++ rest)
    (object : s.heap.get? a = some (.instance type)) (cs : List Frame) :
    ∃ t, p.after f cs s = AspectWeaving.goAhead { f with stack := rest } cs t ∧ t.heap = s.heap ∧
      (p.visit f cs s).requests = [⟨method, .ref a :: arguments⟩] := by
  obtain ⟨j, found, alike⟩ := inside.fetch
  obtain ⟨shape, known, counted⟩ := quiets.shape
  have stepped : step p.module f j s.counted = .ok (rest, .call method (.ref a :: arguments) true) s.counted :=
    step_call (.ref a :: arguments) rest alike rfl rfl known (by rw [counted, ← full]; rfl) top
      fun _ : true = true => ⟨a, arguments, rfl⟩
  obtain ⟨token, answered⟩ := quiets.call (cs.length + 1) arguments (s := s.counted) object
  have after : p.after f cs s =
      AspectWeaving.goAhead { f with stack := rest } cs { s.counted with hostCalls := s.hostCalls.push ⟨token, .ref a :: arguments⟩ } := by
    rw [Program.after_call cs found stepped, settleAttempt_eq, answered]
    rfl
  refine ⟨_, after, rfl, ?_⟩
  have calls : (p.visit f cs s).calls = [⟨token, .ref a :: arguments⟩] := by
    unfold Program.visit Machine.callsSince
    rw [after, machine_goAhead]
    simp
  have named : j.token? = some method := by rw [← alike.token?]; rfl
  unfold Visit.requests
  rw [calls]
  simp [Program.visit, found, named]

/-- A hook is called and control goes on behind the call. -/
theorem Frame.At.hook {type method : Token} {count : Nat} (quiets : p.Quiets type method count)
    (inside : f.At position first done (⟨.callvirt, .method method⟩ :: ahead)) (more : ahead ≠ []) {a : HeapRef}
    (arguments : List Value) {rest : List Value} (full : arguments.length = count) (top : f.stack = (.ref a :: arguments).reverse ++ rest)
    (object : s.heap.get? a = some (.instance type)) (cs : List Frame) :
    ∃ t, p.after f cs s = .ok (.running { f with stack := rest }.onward cs) t ∧ t.heap = s.heap ∧
      (p.visit f cs s).requests = [⟨method, .ref a :: arguments⟩] ∧
        { f with stack := rest }.onward.At position first (done ++ [(⟨.callvirt, .method method⟩ : Instruction)]) ahead := by
  obtain ⟨t, after, heap, requests⟩ := inside.calls_hook quiets arguments full top object cs
  have beside := f.beside_stack rest
  exact ⟨t, after.trans (inside.goAhead cs more beside t), heap, requests, inside.onward beside⟩

end Calls

/-! ### Decorators at work -/

/-- A decorator at work: how it is woven, the body that it makes, the signature of its method and the type of its attribute. -/
structure Decor where
  weave : Weave
  new : Body
  signature : Signature
  type : Token

/-- What an activation calls its hooks with: its attribute, the description of its method, and the array of its arguments,
    with the elements. -/
structure HookArguments where
  attr : HeapRef
  method : HeapRef
  arguments : HeapRef
  elements : Array Value

namespace Decor

/-- A decorator is woven, and its hooks do nothing. -/
structure Works (δ : Decor) (p : Program) : Prop where
  yields : δ.weave.Yields δ.new
  valid : δ.weave.old.Valid
  result : δ.weave.plan.result = δ.signature.result
  stores : δ.weave.plan.storesResult = (δ.weave.old.code.entries.any (·.2.opcode == .ret) && !δ.weave.plan.result.isVoid)
  exception : δ.weave.plan.exception.table = Token.typeRef
  onEntry : p.Quiets δ.type δ.weave.plan.onEntry 2
  onExit : p.Quiets δ.type δ.weave.plan.onExit 3
  onException : p.Quiets δ.type δ.weave.plan.onException 3

/-- An activation of the woven body has ready what it calls its hooks with. The result is null as long as there is none. -/
structure Keeps (δ : Decor) (A : HookArguments) (h : Heap) (f : Frame) : Prop where
  body : f.activation.body = δ.new
  returnsValue : f.activation.returnsValue = !δ.weave.plan.result.isVoid
  slots : f.Keeps δ.weave.old.slots.size (.ref A.attr) (.ref A.method) (.ref A.arguments)
  result : δ.weave.plan.result.isVoid → f.slot (δ.weave.old.slots.size + 4) = .ok .null
  attr : h.get? A.attr = some (.instance δ.type)
  method : h.get? A.method = some (.method δ.weave.method)
  arguments : h.get? A.arguments = some (.array A.elements)

/-- The calls of the hooks. -/
def exitCall (δ : Decor) (A : HookArguments) (result : Value) : HostCall :=
  ⟨δ.weave.plan.onExit, [.ref A.attr, result, .ref A.method, .ref A.arguments]⟩

@[inherit_doc exitCall]
def exceptionCall (δ : Decor) (A : HookArguments) (x : HeapRef) : HostCall :=
  ⟨δ.weave.plan.onException, [.ref A.attr, .ref x, .ref A.method, .ref A.arguments]⟩

end Decor

/-- A value as it is told to a hook: as it is, or in a box. -/
def Value.ToldAs (h : Heap) (v u : Value) : Prop := u = v ∨ ∃ r, u = .ref r ∧ h.get? r = some (.boxed v)

/-- A heap has all objects of another one. -/
def Heap.Extends (h' h : Heap) : Prop := ∀ {r o}, h.get? r = some o → h'.get? r = some o

theorem Heap.extends_boxedIf (h : Heap) (boxes : Bool) (v : Value) :
    (h.boxedIf boxes v).2.Extends h ∧ v.ToldAs (h.boxedIf boxes v).2 (h.boxedIf boxes v).1 := by
  unfold Heap.boxedIf
  cases boxes with
  | false => exact ⟨fun found => found, .inl rfl⟩
  | true =>
    cases v <;> first
      | exact ⟨fun found => found, .inl rfl⟩
      | exact ⟨fun found => Heap.get?_push found _, .inr ⟨h.nextRef, rfl, h.get?_nextRef _⟩⟩

theorem Weave.added_places (w : Weave) : w.old.code.size ≤ w.places.epilogue.index ∧
    w.old.code.size ≤ w.places.handler.index ∧ w.old.code.size ≤ w.places.returnBlock.index := by
  have epilogue := w.index_epilogue
  have handler := w.index_handler
  have returnBlock : w.places.returnBlock.index = w.places.handler.index + w.handler.length :=
    Handle.eq_iff.mp w.places_returnBlock
  omega

namespace Decor.Works

variable {δ : Decor} {p : Program} {A : HookArguments} {f : Frame} {t : Machine} {value : Value} {stack : List Value}

/-- Behind the call of its hook the activation leaves for its return, and comes to return what is in its slot. -/
theorem leaves (works : δ.Works p) (cs : List Frame) {g : Frame} {position first : Nat} {done ahead : List Instruction}
    (inside : g.At position first done (⟨.leave, .target δ.weave.places.returnBlock⟩ :: ahead))
    (behind : δ.weave.old.code.size ≤ first) (body : g.activation.body = δ.new)
    (returnsValue : g.activation.returnsValue = !δ.weave.plan.result.isVoid)
    (stored : g.slot (δ.weave.old.slots.size + 4) = .ok value) (s : Machine) :
    ∃ visits h s', p.Leads (.ok (.running g cs) s) visits (.ok (.running h cs) s') ∧
      p.after h cs s' = settleAttempt p.module cs
        (complete p cs.length g.pending (.returned (if δ.weave.plan.result.isVoid then .void else value))) s'.counted ∧
      δ.weave.old.code.size ≤ h.place.index ∧ δ.weave.Adds cs.length [] visits ∧ s'.heap = s.heap := by
  have room := works.yields.slotsFit
  rw [Weave.length_slots] at room
  obtain ⟨-, -, returns⟩ := δ.weave.added_places
  have live : δ.new.Live := works.yields.live works.valid.live
  obtain ⟨active, leave⟩ := inside.walks_leave p cs (n := δ.weave.returnPosition) (body.symm ▸ live)
    (by rw [body]; exact works.yields.order_returnBlock) s
  obtain ⟨front, leads, adds⟩ := Weave.Adds.of_walks (w := δ.weave) leave behind
  have lands : ({ g with place := δ.weave.places.returnBlock, stack := [], active } : Frame).At
      δ.weave.returnPosition δ.weave.places.returnBlock.index []
        (δ.weave.plan.toReturn (.startingAt δ.weave.old.slots.size) ++ [⟨.ret, .none⟩]) := by
    refine ⟨?_, rfl⟩
    change g.activation.body.code.Holds _ _ _
    rw [body, ← δ.weave.plan.returnBlock_eq]
    exact works.yields.returnBlock
  obtain ⟨h, last, walk, agrees, there, moves⟩ := lands.walks_returnBlock p cs room stored s.counted
  obtain ⟨back, finish, adds'⟩ := Weave.Adds.of_walks (w := δ.weave) walk returns
  have top : h.stack = if δ.weave.plan.result.isVoid then [] else [value] := moves.stack
  have returned := there.after_return (p := p) (by rw [moves.activation]; exact returnsValue) top cs last
  have pending : h.pending = g.pending := moves.pending
  refine ⟨front ++ back, h, last, leads.trans finish, pending ▸ returned, ?_, adds.append adds', agrees.heap⟩
  rw [there.place]
  exact Nat.le_trans returns (Nat.le_add_right _ _)

/-- Behind a return of the old code the hook is called with the result, and the activation comes to return it. -/
theorem exits (works : δ.Works p) (cs : List Frame) (keeps : δ.Keeps A t.heap f) {j : Instruction}
    (found : f.activation.body.code.get? f.place = some j)
    (jumps : (⟨.br, .target δ.weave.places.epilogue⟩ : Instruction).Alike j)
    (results : δ.weave.plan.Results δ.weave.old.slots.size f value stack) :
    ∃ visits g u t', p.Leads (.ok (.running f cs) t) (p.visit f cs t :: visits) (.ok (.running g cs) t') ∧
      p.after g cs t' = settleAttempt p.module cs
        (complete p cs.length f.pending (.returned (if δ.weave.plan.result.isVoid then .void else value))) t'.counted ∧
      δ.weave.old.code.size ≤ g.place.index ∧ (p.visit f cs t).calls = [] ∧
        δ.weave.Adds cs.length [δ.exitCall A u] visits ∧ t'.heap.Extends t.heap ∧ value.ToldAs t'.heap u := by
  have room := works.yields.slotsFit
  rw [Weave.length_slots] at room
  obtain ⟨epilogue, -, -⟩ := δ.weave.added_places
  -- The return is a branch to the epilogue.
  have action : j.opcode.action = .jump := jumps.action.symm
  have target : j.target? = some δ.weave.places.epilogue := jumps.target?.symm
  have first : p.after f cs t = .ok (.running { f with place := δ.weave.places.epilogue } cs) t.counted := by
    rw [Program.after_eq p cs found]
    simp only [step, action, Instruction.branchTarget, target]
    rfl
  have inside : ({ f with place := δ.weave.places.epilogue } : Frame).At δ.weave.epiloguePosition
      δ.weave.places.epilogue.index [] (δ.weave.plan.epilogue (.startingAt δ.weave.old.slots.size) δ.weave.places.returnBlock) := by
    refine ⟨?_, rfl⟩
    change f.activation.body.code.Holds _ _ _
    rw [keeps.body]
    exact works.yields.epilogue
  have kept : ({ f with place := δ.weave.places.epilogue } : Frame).Keeps δ.weave.old.slots.size (.ref A.attr) (.ref A.method)
      (.ref A.arguments) := ⟨keeps.slots.size, keeps.slots.method, keeps.slots.attr, keeps.slots.arguments⟩
  obtain ⟨stored, -, beside⟩ := WeavePlan.stored_slot (f := { f with place := δ.weave.places.epilogue }) results keeps.slots.size
  obtain ⟨g, u, walk, -, heap, inside', moves⟩ := inside.walks_epilogue p cs room kept results t.counted
  obtain ⟨more, told⟩ := t.heap.extends_boxedIf δ.weave.plan.resultBox.isSome value
  obtain ⟨front, leads, adds⟩ := Weave.Adds.of_walks (w := δ.weave) walk epilogue
  -- The hook is called.
  obtain ⟨u', hooked, same, requests, there⟩ := inside'.hook (p := p) (s := u) works.onExit (by simp) (a := A.attr)
    [(t.heap.boxedIf δ.weave.plan.resultBox.isSome value).1, .ref A.method, .ref A.arguments] rfl moves.stack (by rw [heap]; exact more keeps.attr) cs
  have called : δ.weave.Adds cs.length (p.visit g cs u).requests [p.visit g cs u] := .one rfl (by
    change _ ≤ g.place.index
    rw [inside'.place]
    exact Nat.le_trans epilogue (Nat.le_add_right _ _))
  rw [requests] at called
  -- The activation leaves for its return.
  have activation : g.activation = f.activation := moves.activation.trans beside.activation
  obtain ⟨back, h, t', finish, returned, place, adds', heap'⟩ := works.leaves cs there epilogue
    (show g.activation.body = _ by rw [activation, keeps.body])
    (show g.activation.returnsValue = _ by rw [activation, keeps.returnsValue])
    (by rw [← stored]; exact moves.slot rfl _) u'
  have pending : g.pending = f.pending := moves.pending.trans beside.pending
  refine ⟨front ++ (p.visit g cs u :: back), h, (t.heap.boxedIf δ.weave.plan.resultBox.isSome value).1, t', ?_,
    pending ▸ returned, place, Program.calls_of_hostCalls (by rw [first]; rfl), adds.append (called.append adds'), ?_, ?_⟩
  · refine .step (first ▸ leads.trans (.step ?_))
    rw [hooked]
    exact finish
  · intro r o found
    rw [heap', same, heap]
    exact more found
  · rw [heap', same, heap]
    exact told

/-- The hook for failures is called with an exception, and then the exception leaves the activation. -/
theorem handles (works : δ.Works p) (cs : List Frame) (keeps : δ.Keeps A t.heap f) (x : HeapRef) (active : List ActiveClause) :
    ∃ visits t', p.Leads (.ok (.running (f.entering δ.weave.clause δ.weave.old.handlers.length x active) cs) t) visits
        (unwind p.module x cs t') ∧
      δ.weave.Adds cs.length [δ.exceptionCall A x] visits ∧ t'.heap = t.heap := by
  have room := works.yields.slotsFit
  rw [Weave.length_slots] at room
  obtain ⟨-, behind, -⟩ := δ.weave.added_places
  have inside : (f.entering δ.weave.clause δ.weave.old.handlers.length x active).At δ.weave.handlerPosition
      δ.weave.places.handler.index [] (δ.weave.plan.handler (.startingAt δ.weave.old.slots.size)) := by
    refine ⟨?_, rfl⟩
    change f.activation.body.code.Holds _ _ _
    rw [keeps.body]
    exact works.yields.handler
  have kept : (f.entering δ.weave.clause δ.weave.old.handlers.length x active).Keeps δ.weave.old.slots.size (.ref A.attr)
      (.ref A.method) (.ref A.arguments) := ⟨keeps.slots.size, keeps.slots.method, keeps.slots.attr, keeps.slots.arguments⟩
  obtain ⟨g, u, walk, agrees, inside', moves⟩ := inside.walks_handler p cs (x := x) room rfl kept t
  obtain ⟨front, leads, adds⟩ := Weave.Adds.of_walks (w := δ.weave) walk behind
  obtain ⟨u', hooked, same, requests, there⟩ := inside'.hook (p := p) (s := u) works.onException (by simp) (a := A.attr)
    [.ref x, .ref A.method, .ref A.arguments] rfl moves.stack
    (by rw [agrees.heap]; exact keeps.attr) cs
  -- The exception is raised again, where no clause takes it.
  obtain ⟨j, found, alike⟩ := there.fetch
  have action : j.opcode.action = .rethrow := alike.action.symm
  have body : g.activation.body = δ.new := by rw [moves.activation]; exact keeps.body
  have clauses : ({ g with stack := [] } : Frame).onward.active = ⟨δ.weave.old.handlers.length, x⟩ :: active := moves.active
  have stands := there.stands
  have uncaught : ({ g with stack := [] } : Frame).onward.catch? p.module u'.heap x = .ok none :=
    works.yields.catch?_outside works.valid.live body (body ▸ stands) (.inr (Nat.le_add_right _ _))
  have stepped : step p.module ({ g with stack := [] } : Frame).onward j u'.counted = .ok ([], .throw x) u'.counted := by
    simp only [step, action]
    rw [clauses]
    rfl
  have raised : p.after ({ g with stack := [] } : Frame).onward cs u' = unwind p.module x cs u'.counted := by
    unfold Machine.counted at stepped
    rw [Program.after_eq p cs found, stepped]
    exact unwind_of_uncaught uncaught
  have called : δ.weave.Adds cs.length (p.visit g cs u).requests [p.visit g cs u] := .one rfl (by
    change _ ≤ g.place.index
    rw [inside'.place]
    exact Nat.le_trans behind (Nat.le_add_right _ _))
  have last : δ.weave.Adds cs.length (p.visit ({ g with stack := [] } : Frame).onward cs u').requests
      [p.visit ({ g with stack := [] } : Frame).onward cs u'] := .one rfl (by
    change _ ≤ ({ g with stack := [] } : Frame).onward.place.index
    rw [there.place]
    exact Nat.le_trans behind (Nat.le_add_right _ _))
  have silent : (p.visit ({ g with stack := [] } : Frame).onward cs u').requests = [] :=
    Visit.requests_eq_nil (Program.calls_of_hostCalls (by rw [raised, machine_unwind]; rfl))
  rw [requests] at called
  rw [silent] at last
  refine ⟨front ++ [p.visit g cs u, p.visit ({ g with stack := [] } : Frame).onward cs u'], u'.counted,
    leads.trans (.step ?_), ?_, ?_⟩
  · rw [hooked, ← raised]
    exact p.leads_after _ cs u'
  · exact adds.append (called.append last)
  · change u'.heap = _
    rw [same, agrees.heap]

end Decor.Works

end AspectWeaving

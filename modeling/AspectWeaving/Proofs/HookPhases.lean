import AspectWeaving.Proofs.HookCalls

/-!
The order in which an activation of a woven body calls its hooks, whatever the hooks and the old code
do. Between the calls the activation is in one of few phases (`Resting`): in the prologue, in the old
code, in the epilogue, in the handler or on its return; while something that it called runs, it is
`Pausing`. One instruction takes a phase to a phase or ends the activation (`Under.step`), so the calls
of every run are the beginning of one of few lists.
-/
namespace AspectWeaving

open Running (compute fail)

variable {p : Program} {w : Weave} {new : Body} {a : Activation} {cs : List Frame} {visits : List Visit}

/-! ### Phases -/

/-- An activation of a woven body. -/
structure WovenActivation (w : Weave) (new : Body) (a : Activation) : Prop where
  yields : w.Yields new
  live : w.old.Live
  targets : w.old.TargetsLive
  fetches : w.plan.FetchesStraight
  body : a.body = new
  returnsValue : a.returnsValue = !w.plan.result.isVoid

/-- An exception of the type of all exceptions gets to the frame of an activation at some place. -/
def Program.Escapes (p : Program) (w : Weave) (a : Activation) (cs : List Frame) (start : Stage)
    (visits : List Visit) (place : Handle → Prop) (x : HeapRef) : Prop :=
  ∃ before top callers s behind f t,
    visits = before ++ p.visit top callers s :: behind ∧
      p.Leads start before (.ok (.running top callers) s) ∧
      p.after top callers s = unwind p.module x (f :: cs) t ∧ f.activation = a ∧ place f.place ∧
      isInstance p.module t.heap x w.plan.exception = .ok true

/-- Where an exception comes from that gets to the handler after some hook calls. -/
def Program.Source (p : Program) (w : Weave) (a : Activation) (cs : List Frame) (start : Stage)
    (visits : List Visit) (calls : List HookCall) (x : HeapRef) : Prop :=
  (calls = [.onEntry] ∧ p.Escapes w a cs start visits (·.index < w.old.code.size) x) ∨
    (calls = [.onEntry, .onExit] ∧ p.Escapes w a cs start visits (· = w.exitCall) x)

/-- The exception on its way through the handler, up to the call of the hook. -/
def Weave.HandlerStack (w : Weave) (x : HeapRef) (f : Frame) : Nat → Prop
  | 0 => f.stack = [.ref x]
  | 1 | 2 => f.slot w.slots.exception.toNat = .ok (.ref x)
  | 3 => f.stack[0]? = some (.ref x)
  | 4 => f.stack[1]? = some (.ref x)
  | _ => f.stack[2]? = some (.ref x)

/-- A frame is at an instruction after some hook calls. -/
inductive Resting (w : Weave) (source : List HookCall → HeapRef → Prop) : List HookCall → Frame → Prop
  | entering {f : Frame} {n : Nat} (place : f.place = ⟨w.old.code.size + n⟩) (inside : n < w.prologue.length) :
      Resting w source [] f
  | old {f : Frame} (place : f.place.index < w.old.code.size) : Resting w source [.onEntry] f
  | exiting {f : Frame} {n : Nat} (place : f.place = ⟨w.places.epilogue.index + n⟩)
      (inside : n + 1 < w.epilogue.length) : Resting w source [.onEntry] f
  | leaving {f : Frame} (place : f.place = ⟨w.places.epilogue.index + (w.epilogue.length - 1)⟩) :
      Resting w source [.onEntry, .onExit] f
  | returning {f : Frame} {n : Nat} (place : f.place = ⟨w.places.returnBlock.index + n⟩)
      (inside : n < w.returnBlock.length) : Resting w source [.onEntry, .onExit] f
  | handling {f : Frame} {n : Nat} {calls : List HookCall} {x : HeapRef}
      (place : f.place = ⟨w.places.handler.index + n⟩) (inside : n ≤ 5) (origin : source calls x)
      (stack : w.HandlerStack x f n) (active : ∃ index rest, f.active = ⟨index, x⟩ :: rest) :
      Resting w source calls f
  | rethrowing {f : Frame} {calls : List HookCall} {x : HeapRef} (place : f.place = ⟨w.places.handler.index + 6⟩)
      (origin : source calls x) (active : ∃ index rest, f.active = ⟨index, x⟩ :: rest) :
      Resting w source (calls ++ [.onException (.ref x)]) f

/-- Something that a frame called after some hook calls is under way. -/
inductive Pausing (w : Weave) (source : List HookCall → HeapRef → Prop) : List HookCall → Frame → Prop
  | entering {f : Frame} {n : Nat} (place : f.place = ⟨w.old.code.size + n⟩) (inside : n < w.prologue.length) :
      Pausing w source (if n + 1 = w.prologue.length then [.onEntry] else []) f
  | old {f : Frame} (place : f.place.index < w.old.code.size) : Pausing w source [.onEntry] f
  | exiting {f : Frame} (place : f.place = w.exitCall) : Pausing w source [.onEntry, .onExit] f
  | handling {f : Frame} {calls : List HookCall} {x : HeapRef} (place : f.place = w.exceptionCall)
      (origin : source calls x) (active : ∃ index rest, f.active = ⟨index, x⟩ :: rest) :
      Pausing w source (calls ++ [.onException (.ref x)]) f

/-- The hook calls that an activation may have made. -/
def Ordered (source : List HookCall → HeapRef → Prop) (calls : List HookCall) : Prop :=
  calls <+: [.onEntry, .onExit] ∨ ∃ before x, source before x ∧ calls = before ++ [.onException (.ref x)]

/-- A stage at which the frames with at most `level` frames below have ended. -/
def Stage.Below (level : Nat) (r : Stage) : Prop :=
  ∀ top callers s, r = .ok (.running top callers) s → callers.length < level

/-- How far an activation has got. -/
inductive Under (p : Program) (w : Weave) (a : Activation) (cs : List Frame)
    (source : List HookCall → HeapRef → Prop) (visits : List Visit) : Stage → Prop
  | top {f : Frame} {s : Machine} (going : ∀ v ∈ visits, v.ends cs.length = false) (activation : f.activation = a)
      (filled : f.Filled) (rest : Resting w source (w.hookCalls cs.length visits) f) :
      Under p w a cs source visits (.ok (.running f cs) s)
  | waiting {top : Frame} {between : List Frame} {f : Frame} {s : Machine}
      (going : ∀ v ∈ visits, v.ends cs.length = false) (activation : f.activation = a) (filled : f.Filled)
      (pause : Pausing w source (w.hookCalls cs.length visits) f) :
      Under p w a cs source visits (.ok (.running top (between ++ f :: cs)) s)
  | finished {r : Stage} (order : Ordered source (w.hookCalls cs.length visits))
      (closed : (∃ v ∈ visits, v.ends cs.length = true) ∨ r.Below cs.length) : Under p w a cs source visits r

variable {source source' : List HookCall → HeapRef → Prop} {calls : List HookCall} {f g : Frame} {x : HeapRef}

theorem Pausing.mono (pause : Pausing w source calls f) (more : ∀ c x, source c x → source' c x) :
    Pausing w source' calls f := by
  cases pause with
  | entering place inside => exact .entering place inside
  | old place => exact .old place
  | exiting place => exact .exiting place
  | handling place origin active => exact .handling place (more _ _ origin) active

theorem Ordered.mono (order : Ordered source calls) (more : ∀ c x, source c x → source' c x) :
    Ordered source' calls := by
  rcases order with first | ⟨before, x, origin, rfl⟩
  · exact .inl first
  · exact .inr ⟨before, x, more _ _ origin, rfl⟩

theorem Pausing.ordered (pause : Pausing w source calls f) : Ordered source calls := by
  cases pause with
  | entering place inside =>
    split
    · exact .inl ⟨[.onExit], rfl⟩
    · exact .inl (List.nil_prefix)
  | old place => exact .inl ⟨[.onExit], rfl⟩
  | exiting place => exact .inl (List.prefix_refl _)
  | handling place origin active => exact .inr ⟨_, _, origin, rfl⟩

theorem Resting.ordered (rest : Resting w source calls f) (early : ∀ c x, source c x → c <+: [.onEntry, .onExit]) :
    Ordered source calls := by
  cases rest with
  | entering place inside => exact .inl (List.nil_prefix)
  | old place => exact .inl ⟨[.onExit], rfl⟩
  | exiting place inside => exact .inl ⟨[.onExit], rfl⟩
  | leaving place => exact .inl (List.prefix_refl _)
  | returning place inside => exact .inl (List.prefix_refl _)
  | handling place inside origin stack active => exact .inl (early _ _ origin)
  | rethrowing place origin active => exact .inr ⟨_, _, origin, rfl⟩

/-! ### Places -/

theorem Weave.two_le_length_epilogue (w : Weave) : 2 ≤ w.epilogue.length := by
  obtain ⟨front, parts, -⟩ := w.epilogue_eq
  rw [parts]
  simp

theorem Weave.index_epilogue (w : Weave) : w.places.epilogue.index = w.old.code.size + w.prologue.length := rfl

theorem Weave.index_handler (w : Weave) : w.places.handler.index = w.places.epilogue.index + w.epilogue.length := by
  rw [places_handler]

/-- Where the places of woven code are, as numbers. -/
theorem Weave.hookCall?_eq (w : Weave) (f : Frame) :
    w.hookCall? f =
      if f.place.index = w.old.code.size + (w.prologue.length - 1) then some .onEntry
      else if f.place.index = w.old.code.size + w.prologue.length + (w.epilogue.length - 2) then some .onExit
      else if f.place.index = w.old.code.size + w.prologue.length + w.epilogue.length + 5 then
        some (.onException (f.stack.getD 2 .null))
      else none := by
  unfold hookCall? entryCall exitCall exceptionCall
  simp only [Handle.eq_iff, index_handler, index_epilogue]

/-- No hook is called at other places. -/
theorem Weave.hookCall?_eq_none (entry : f.place.index ≠ w.old.code.size + (w.prologue.length - 1))
    (exit : f.place.index ≠ w.old.code.size + w.prologue.length + (w.epilogue.length - 2))
    (exception : f.place.index ≠ w.old.code.size + w.prologue.length + w.epilogue.length + 5) : w.hookCall? f = none := by
  rw [hookCall?_eq, if_neg entry, if_neg exit, if_neg exception]

/-- The place behind one at which an activation pauses. -/
theorem Pausing.next (pause : Pausing w source calls f) (yields : w.Yields new) (body : f.activation.body = new)
    {place : Handle} (behind : f.activation.next f.place = .ok place) (goes : g.place = place)
    (active : g.active = f.active) : Resting w source calls g := by
  obtain ⟨k, here, there⟩ := Activation.next_eq_ok behind
  rw [body] at here there
  have epilogue := w.two_le_length_epilogue
  cases pause with
  | @entering _ n place inside =>
    obtain ⟨i, listed⟩ : ∃ i, w.prologue[n]? = some i := ⟨_, List.getElem?_eq_getElem inside⟩
    have stands := (yields.prologue n i listed).1
    rw [Nat.zero_add, ← place] at stands
    obtain rfl := Code.order_inj here stands
    split
    · rename_i last
      rw [last, yields.order_anchor] at there
      have anchor := (w.old.code.mem_order_iff _).mp (Array.mem_of_getElem? yields.anchor)
      rw [Option.some.inj there, ← goes] at anchor
      exact .old anchor
    · rename_i more
      have inside : k + 1 < w.prologue.length := by omega
      have stands := (yields.prologue (k + 1) _ (List.getElem?_eq_getElem inside)).1
      rw [Nat.zero_add, there] at stands
      exact .entering (goes.trans (Option.some.inj stands)) inside
  | old place =>
    obtain ⟨q, stands⟩ := Code.exists_position place
    obtain rfl := Code.order_inj here (yields.order stands)
    have inside := (Array.getElem?_eq_some_iff.mp stands).1
    rw [w.old.code.size_order] at inside
    by_cases last : q + 1 = w.old.code.size
    · have stop : w.prologue.length + q + 1 = w.epiloguePosition := by
        unfold Weave.epiloguePosition
        omega
      rw [stop, yields.order_epilogue] at there
      exact .exiting (n := 0) (goes.trans (Option.some.inj there).symm) (by omega)
    · obtain ⟨h, following⟩ : ∃ h, w.old.code.order[q + 1]? = some h :=
        ⟨_, Array.getElem?_eq_getElem (by rw [w.old.code.size_order]; omega)⟩
      have stands := yields.order following
      rw [← Nat.add_assoc, there] at stands
      have member := (w.old.code.mem_order_iff _).mp (Array.mem_of_getElem? following)
      rw [← Option.some.inj stands, ← goes] at member
      exact .old member
  | exiting place =>
    have stands := (yields.epilogue (w.epilogue.length - 2) _ (List.getElem?_eq_getElem (by omega))).1
    have same : w.exitCall = ⟨w.places.epilogue.index + (w.epilogue.length - 2)⟩ := rfl
    rw [← same, ← place] at stands
    obtain rfl := Code.order_inj here stands
    have following := (yields.epilogue (w.epilogue.length - 1) _ (List.getElem?_eq_getElem (by omega))).1
    rw [show w.epiloguePosition + (w.epilogue.length - 2) + 1 = w.epiloguePosition + (w.epilogue.length - 1) by omega,
      following] at there
    exact .leaving (goes.trans (Option.some.inj there).symm)
  | handling place origin clause =>
    have stands := (yields.handler 5 _ rfl).1
    have same : w.exceptionCall = ⟨w.places.handler.index + 5⟩ := rfl
    rw [← same, ← place] at stands
    obtain rfl := Code.order_inj here stands
    have following := (yields.handler 6 _ rfl).1
    rw [Nat.add_assoc, following] at there
    exact .rethrowing (goes.trans (Option.some.inj there).symm) origin (active ▸ clause)

/-! ### Turns -/

theorem below_error (level : Nat) (fault : Fault) (t : Machine) : Stage.Below level (.error fault t) := nofun

/-- An exception that has left a frame goes on below it. -/
theorem below_unwind (m : Module) (x : HeapRef) (cs : List Frame) (s : Machine) :
    Stage.Below cs.length (unwind m x cs s) := by
  induction cs with
  | nil =>
    intro top callers t running
    cases running
  | cons f cs ih =>
    intro top callers t running
    rw [unwind_cons] at running
    split at running
    · cases running
      exact Nat.lt_succ_self _
    · exact Nat.lt_succ_of_lt (ih top callers t running)
    · cases running

section Turns

variable {r : Stage} {s t : Machine}

/-- The clause of the weave takes an exception to the handler. -/
theorem Under.handled (going : ∀ v ∈ visits, v.ends cs.length = false) (activation : f.activation = a)
    (filled : f.Filled) (origin : source (w.hookCalls cs.length visits) x) (active : List ActiveClause) :
    Under p w a cs source visits (.ok (.running (f.entering w.clause w.old.handlers.length x active) cs) s) :=
  .top going activation filled (.handling (n := 0) rfl (Nat.zero_le 5) origin rfl ⟨_, _, rfl⟩)

/-- No clause takes an exception, so it leaves the activation. -/
theorem Under.uncaught (order : Ordered source (w.hookCalls cs.length visits)) (none : f.catch? p.module t.heap x = .ok none) :
    Under p w a cs source visits (unwind p.module x (f :: cs) t) := by
  rw [unwind_cons, none]
  exact .finished order (.inr (below_unwind p.module x cs t))

/-- The clause of the weave is the first that is asked to take an exception. -/
theorem Under.asked (going : ∀ v ∈ visits, v.ends cs.length = false) (activation : f.activation = a) (filled : f.Filled)
    (order : Ordered source (w.hookCalls cs.length visits)) {active : List ActiveClause}
    (caught : f.catch? p.module t.heap x = w.answer f x active (isInstance p.module t.heap x w.plan.exception))
    (origin : isInstance p.module t.heap x w.plan.exception = .ok true → source (w.hookCalls cs.length visits) x) :
    Under p w a cs source visits (unwind p.module x (f :: cs) t) := by
  cases asked : isInstance p.module t.heap x w.plan.exception with
  | error cause =>
    rw [asked] at caught
    rw [unwind_cons, caught]
    exact .finished order (.inr (below_error _ _ _))
  | ok takes =>
    rw [asked] at caught
    cases takes with
    | true =>
      rw [unwind_cons, caught]
      exact .handled going activation filled (origin asked) active
    | false => exact .uncaught order caught

/-- An exception gets to the frame of an activation that pauses. -/
theorem Under.thrown (act : WovenActivation w new a) (going : ∀ v ∈ visits, v.ends cs.length = false)
    (activation : f.activation = a) (filled : f.Filled) (pause : Pausing w source (w.hookCalls cs.length visits) f)
    (origin : isInstance p.module t.heap x w.plan.exception = .ok true →
      (f.place.index < w.old.code.size → source [.onEntry] x) ∧
        (f.place = w.exitCall → source [.onEntry, .onExit] x)) :
    Under p w a cs source visits (unwind p.module x (f :: cs) t) := by
  have body : f.activation.body = new := by rw [activation, act.body]
  have epilogue := w.two_le_length_epilogue
  have order := pause.ordered
  generalize made : w.hookCalls cs.length visits = calls at pause
  cases pause with
  | @entering _ n place inside =>
    have stands := (act.yields.prologue n _ (List.getElem?_eq_getElem inside)).1
    rw [Nat.zero_add, ← place] at stands
    exact .uncaught order (act.yields.catch?_outside act.live body stands (.inl inside))
  | old place =>
    obtain ⟨k, stands⟩ := Code.exists_position place
    have inside := (Array.getElem?_eq_some_iff.mp stands).1
    rw [w.old.code.size_order] at inside
    have before : w.prologue.length + k < w.epiloguePosition := by
      unfold Weave.epiloguePosition
      omega
    rcases act.yields.catch?_old (m := p.module) (h := t.heap) (x := x) act.live body (act.yields.order stands)
        (Nat.le_add_right _ _) before with ⟨fault, failed⟩ | ⟨n, c, active, member, caught⟩ | ⟨-, active, caught⟩
    · rw [unwind_cons, failed]
      exact .finished order (.inr (below_error _ _ _))
    · obtain ⟨-, handling, -, span⟩ := act.live member
      have start := (Body.span?_eq_some_iff.mp span).1
      rw [unwind_cons, caught]
      exact .top going activation filled
        (made ▸ .old ((w.old.code.mem_order_iff _).mp (Array.mem_of_getElem? start)))
    · exact .asked going activation filled order caught fun takes => made ▸ (origin takes).1 place
  | exiting place =>
    have stands := (act.yields.epilogue (w.epilogue.length - 2) _ (List.getElem?_eq_getElem (by omega))).1
    have same : w.exitCall = ⟨w.places.epilogue.index + (w.epilogue.length - 2)⟩ := rfl
    rw [← same, ← place] at stands
    obtain ⟨active, caught⟩ := act.yields.catch?_epilogue (m := p.module) (h := t.heap) (x := x) act.live body stands
      (Nat.le_add_right _ _) (by unfold Weave.handlerPosition; omega)
    exact .asked going activation filled order caught fun takes => made ▸ (origin takes).2 place
  | handling place known active =>
    have stands := (act.yields.handler 5 _ rfl).1
    have same : w.exceptionCall = ⟨w.places.handler.index + 5⟩ := rfl
    rw [← same, ← place] at stands
    exact .uncaught order (act.yields.catch?_outside act.live body stands (.inr (Nat.le_add_right _ _)))

/-- It is the turn of an activation that pauses, or what it called goes on. -/
theorem Under.turn (act : WovenActivation w new a) (going : ∀ v ∈ visits, v.ends cs.length = false)
    (activation : f.activation = a) (filled : f.Filled) (pause : Pausing w source (w.hookCalls cs.length visits) f)
    (above : Above p.module f cs r)
    (origin : ∀ x t, r = unwind p.module x (f :: cs) t →
      isInstance p.module t.heap x w.plan.exception = .ok true →
        (f.place.index < w.old.code.size → source [.onEntry] x) ∧
          (f.place = w.exitCall → source [.onEntry, .onExit] x)) :
    Under p w a cs source visits r := by
  have body : f.activation.body = new := by rw [activation, act.body]
  cases above with
  | failed fault t => exact .finished pause.ordered (.inr (below_error _ _ _))
  | below top between t => exact .waiting going activation filled pause
  | returned value t =>
    have beside := f.beside_receive value
    rcases Program.goAhead_cases (f.receive value) cs t with ⟨fault, failed⟩ | ⟨place, behind, goes⟩
    · rw [failed]
      exact .finished pause.ordered (.inr (below_error _ _ _))
    · rw [beside.activation, beside.place] at behind
      rw [goes]
      exact .top going (beside.activation.trans activation) (filled.receive value)
        (pause.next act.yields body behind rfl beside.active)
  | threw x t => exact .thrown act going activation filled pause (origin x t rfl)

end Turns

/-! ### One instruction of the activation -/

section Instructions

variable {r : Stage} {s t : Machine} {i j : Instruction}

/-- An instruction that does not return does not end the activation. -/
theorem visit_going (p : Program) (cs : List Frame) (found : f.activation.body.code.get? f.place = some j) (stays : j.opcode.action ≠ .exit)
    (s : Machine) : (p.visit f cs s).ends cs.length = false := by
  have other : j.opcode ≠ .ret := fun same => stays (Opcode.action_eq_exit_iff.mpr same)
  simp [Visit.ends, Visit.returns, Program.visit, found, other]

theorem going_snoc {v : Visit} {level : Nat} (going : ∀ v ∈ visits, v.ends level = false)
    (last : v.ends level = false) : ∀ u ∈ visits ++ [v], u.ends level = false := by
  intro u member
  rcases List.mem_append.mp member with earlier | now
  · exact going u earlier
  · rw [List.mem_singleton.mp now]
    exact last

/-- The hook calls of an activation with one more instruction of it. -/
theorem hookCalls_visit (going : ∀ v ∈ visits, v.ends cs.length = false)
    (last : (p.visit f cs s).ends cs.length = false) :
    w.hookCalls cs.length (visits ++ [p.visit f cs s]) =
      w.hookCalls cs.length visits ++ (w.hookCall? f).toList := by
  rw [Weave.hookCalls_snoc going last]
  simp [Program.visit]

/-- The calls stay as they are where the instruction calls no hook. -/
theorem hookCalls_visit_other (going : ∀ v ∈ visits, v.ends cs.length = false)
    (last : (p.visit f cs s).ends cs.length = false) (none : w.hookCall? f = none) :
    w.hookCalls cs.length (visits ++ [p.visit f cs s]) = w.hookCalls cs.length visits := by
  rw [hookCalls_visit going last, none, Option.toList_none, List.append_nil]

theorem Weave.prologue_straight (fetches : w.plan.FetchesStraight) : ∀ i ∈ w.prologue, i.Straight := by
  obtain ⟨front, parts, straight⟩ := w.prologue_eq fetches
  intro i member
  rw [parts] at member
  rcases List.mem_append.mp member with before | last
  · exact straight i before
  · rw [List.mem_singleton.mp last]
    trivial

theorem Instruction.Straight.ne_exit (straight : i.Straight) : i.opcode.action ≠ .exit := by
  intro action
  simp [Instruction.Straight, action] at straight

/-- What the steps of an activation say about exceptions that get to it. -/
def Tells (p : Program) (w : Weave) (a : Activation) (cs : List Frame) (source : List HookCall → HeapRef → Prop)
    (r : Stage) : Prop :=
  ∀ f x t, f.activation = a → r = unwind p.module x (f :: cs) t →
    isInstance p.module t.heap x w.plan.exception = .ok true →
      (f.place.index < w.old.code.size → source [.onEntry] x) ∧
        (f.place = w.exitCall → source [.onEntry, .onExit] x)

/-- A straight instruction of an activation. -/
theorem Under.straight (act : WovenActivation w new a) (going : ∀ v ∈ visits, v.ends cs.length = false)
    (activation : f.activation = a) (filled : f.Filled) (found : f.activation.body.code.get? f.place = some j)
    (straight : j.Straight) (tells : Tells p w a cs source (p.after f cs s))
    (pause : ∀ g, f.Beside g → Pausing w source (w.hookCalls cs.length visits ++ (w.hookCall? f).toList) g) :
    Under p w a cs source (visits ++ [p.visit f cs s]) (p.after f cs s) := by
  have last := visit_going p cs found straight.ne_exit s
  obtain ⟨g, beside, kept, above⟩ := p.after_straight found straight cs s
  have activation := beside.activation.trans activation
  refine .turn act (going_snoc going last) activation (kept filled) ?_ above fun x t threw takes =>
    tells g x t activation threw takes
  rw [hookCalls_visit going last]
  exact pause g beside

/-- A quiet instruction of an activation that is not a hook call. -/
theorem Under.quiet (act : WovenActivation w new a) (going : ∀ v ∈ visits, v.ends cs.length = false)
    (activation : f.activation = a) (filled : f.Filled) (found : f.activation.body.code.get? f.place = some j)
    (quiet : j.Quiet) (none : w.hookCall? f = none) (order : Ordered source (w.hookCalls cs.length visits))
    (rest : ∀ g, g.place.index = f.place.index + 1 → Resting w source (w.hookCalls cs.length visits) g)
    (behind : ∃ k : Nat, new.code.order[k]? = some f.place ∧ new.code.order[k + 1]? = some ⟨f.place.index + 1⟩) :
    Under p w a cs source (visits ++ [p.visit f cs s]) (p.after f cs s) := by
  have last := visit_going p cs found quiet.straight.ne_exit s
  have calls := hookCalls_visit_other going last none
  rcases p.after_quiet found quiet cs s with ⟨fault, t, failed⟩ | ⟨g, t, beside, kept, goes⟩
  · rw [failed]
    exact .finished (calls ▸ order) (.inr (below_error _ _ _))
  · rw [goes]
    rcases Program.goAhead_cases g cs t with ⟨fault, failed⟩ | ⟨place, next, ahead⟩
    · rw [failed]
      exact .finished (calls ▸ order) (.inr (below_error _ _ _))
    · rw [ahead]
      obtain ⟨k, here, there⟩ := behind
      have body : g.activation.body = new := by rw [beside.activation, activation, act.body]
      rw [Activation.next_eq (body ▸ beside.place ▸ here) (body ▸ there)] at next
      refine .top (going_snoc going last) (beside.activation.trans activation) (kept filled) ?_
      rw [calls]
      exact rest _ (by rw [← Except.ok.inj next])

/-- An instruction of the prologue. -/
theorem Under.entering_step {n : Nat} (act : WovenActivation w new a)
    (going : ∀ v ∈ visits, v.ends cs.length = false) (activation : f.activation = a) (filled : f.Filled)
    (place : f.place = ⟨w.old.code.size + n⟩) (inside : n < w.prologue.length)
    (made : w.hookCalls cs.length visits = []) (tells : Tells p w a cs source (p.after f cs s)) :
    Under p w a cs source (visits ++ [p.visit f cs s]) (p.after f cs s) := by
  obtain ⟨-, j, found, alike⟩ := act.yields.prologue n _ (List.getElem?_eq_getElem inside)
  have straight := w.prologue_straight act.fetches _ (List.getElem_mem inside)
  have called : [] ++ (w.hookCall? f).toList = if n + 1 = w.prologue.length then [HookCall.onEntry] else [] := by
    rw [w.hookCall?_eq, place]
    have epilogue := w.two_le_length_epilogue
    simp only [List.nil_append]
    split
    · rw [if_pos (by omega), Option.toList_some]
    · rw [if_neg (by omega), if_neg (by omega), if_neg (by omega), Option.toList_none]
  refine .straight act going activation filled (by rw [activation, act.body, place]; exact found)
    (alike.straight straight) tells fun g beside => ?_
  rw [made, called]
  exact .entering (beside.place.trans place) inside

/-- A return of the old code has become a branch, so no instruction of it ends the activation. -/
theorem redirectReturn_ne_exit (epilogue : Handle) (alike : (redirectReturn epilogue i).Alike j) : j.opcode.action ≠ .exit := by
  rw [← alike.action]
  unfold redirectReturn
  split
  · nofun
  · rename_i stays
    exact fun action => stays (Opcode.action_eq_exit_iff.mp action)

/-- A branch of the old code stays in it, and one that was a return leads to the epilogue. -/
theorem WovenActivation.goal (act : WovenActivation w new a) {h target : Handle} (old : w.old.code.get? h = some i)
    (alike : (redirectReturn w.places.epilogue i).Alike j) (leads : j.target? = some target) :
    target.index < w.old.code.size ∨ target = w.places.epilogue := by
  rw [← alike.target?] at leads
  unfold redirectReturn at leads
  split at leads
  · exact .inr (Option.some.inj leads).symm
  · exact .inl (act.targets old leads)

/-- Where a branch of the old code leads to. -/
theorem Under.lands (going : ∀ v ∈ visits, v.ends cs.length = false) (activation : g.activation = a) (filled : g.Filled)
    (made : w.hookCalls cs.length visits = [.onEntry]) (goal : g.place.index < w.old.code.size ∨ g.place = w.places.epilogue) :
    Under p w a cs source visits (.ok (.running g cs) t) := by
  refine .top going activation filled ?_
  rw [made]
  rcases goal with inside | out
  · exact .old inside
  · have epilogue := w.two_le_length_epilogue
    exact .exiting (n := 0) out (by omega)

/-- An instruction of the old code. -/
theorem Under.old_step (act : WovenActivation w new a) (going : ∀ v ∈ visits, v.ends cs.length = false)
    (activation : f.activation = a) (filled : f.Filled) (place : f.place.index < w.old.code.size)
    (made : w.hookCalls cs.length visits = [.onEntry]) (tells : Tells p w a cs source (p.after f cs s)) :
    Under p w a cs source (visits ++ [p.visit f cs s]) (p.after f cs s) := by
  obtain ⟨i, old⟩ := Option.isSome_iff_exists.mp (Code.get?_isSome_iff.mpr place)
  obtain ⟨j, there, alike⟩ := act.yields.instruction old
  have found : f.activation.body.code.get? f.place = some j := by rw [activation, act.body, there]
  have other := redirectReturn_ne_exit _ alike
  have last := visit_going p cs found other s
  have epilogue := w.two_le_length_epilogue
  have prologue := w.prologue_pos
  have calls := (hookCalls_visit_other going last (w.hookCall?_eq_none (by omega) (by omega) (by omega))).trans made
  have going := going_snoc going last
  have pauses : ∀ g, f.Beside g → (f.Filled → g.Filled) → Above p.module g cs (p.after f cs s) →
      Under p w a cs source (visits ++ [p.visit f cs s]) (p.after f cs s) := by
    intro g beside kept above
    have activation := beside.activation.trans activation
    exact .turn act going activation (kept filled) (calls ▸ .old (beside.place ▸ place)) above
      fun x t threw takes => tells g x t activation threw takes
  have after := p.after_eq cs found s
  cases stepped : step p.module f j { s with executed := s.executed + 1 } with
  | error fault t =>
    simp only [stepped] at after
    refine pauses f (.refl f) id ?_
    rw [after]
    rcases raise_cases p.module fault (f :: cs) t with ⟨u, ended⟩ | ⟨x, u, raised, -⟩
    · rw [ended]
      exact .failed _ _
    · rw [raised]
      exact .threw x u
  | ok result t =>
    obtain ⟨stack, effect⟩ := result
    simp only [stepped] at after
    have makes := ensures_step p.module f j _ _ _ stepped
    have beside := f.beside_stack stack
    cases effect with
    | next => exact pauses _ beside id (after ▸ .returned .void t)
    | store slot value =>
      exact pauses _ (beside.trans (Frame.beside_store _ slot value)) (fun filled => Frame.Filled.store filled slot value)
        (after ▸ .returned .void t)
    | jump target =>
      rw [after]
      exact .lands going activation filled calls (act.goal old alike makes.1)
    | leave target =>
      rw [after]
      simp only [perform]
      cases left : Frame.leave { f with stack } target with
      | error cause => exact .finished (calls ▸ .inl ⟨[.onExit], rfl⟩) (.inr (below_error _ _ _))
      | ok g =>
        obtain ⟨active, rfl⟩ := Frame.leave_eq_ok left
        exact .lands going activation filled calls (act.goal old alike makes.1)
    | exit value => exact (other makes).elim
    | throw x => exact pauses _ beside id (after ▸ .threw x t)
    | call target arguments dynamic =>
      exact pauses _ beside id (after ▸ above_settleAttempt p.module [] _ cs _ t)
    | construct target arguments => exact pauses _ beside id (after ▸ above_settleAttempt p.module [] _ cs _ t)

/-- An instruction of the epilogue, up to the call of the hook. -/
theorem Under.exiting_step {n : Nat} (act : WovenActivation w new a)
    (going : ∀ v ∈ visits, v.ends cs.length = false) (activation : f.activation = a) (filled : f.Filled)
    (place : f.place = ⟨w.places.epilogue.index + n⟩) (inside : n + 1 < w.epilogue.length)
    (made : w.hookCalls cs.length visits = [.onEntry]) (tells : Tells p w a cs source (p.after f cs s)) :
    Under p w a cs source (visits ++ [p.visit f cs s]) (p.after f cs s) := by
  have prologue := w.prologue_pos
  have index : f.place.index = w.old.code.size + w.prologue.length + n := congrArg Handle.index place
  obtain ⟨front, parts, quiet⟩ := w.epilogue_eq
  have length : w.epilogue.length = front.length + 2 := by rw [parts]; simp
  obtain ⟨stands, j, there, alike⟩ := act.yields.epilogue n _ (List.getElem?_eq_getElem (by omega))
  have found : f.activation.body.code.get? f.place = some j := by rw [activation, act.body, place, there]
  by_cases last : n = front.length
  · have call : w.epilogue[n] = ⟨.callvirt, .method w.plan.onExit⟩ := by simp [parts, last]
    have straight : w.epilogue[n].Straight := by
      rw [call]
      trivial
    refine .straight act going activation filled found (alike.straight straight) tells fun g beside => ?_
    have called : w.hookCall? f = some .onExit := by
      rw [w.hookCall?_eq, if_neg (by omega), if_pos (by omega)]
    rw [made, called]
    refine .exiting (beside.place.trans (place.trans ?_))
    rw [Weave.exitCall, length, last, Nat.add_sub_cancel]
  · have early : n < front.length := by omega
    have calm : w.epilogue[n].Quiet := by
      simp only [parts, List.getElem_append_left early]
      exact quiet _ (List.getElem_mem early)
    have none := w.hookCall?_eq_none (f := f) (by omega) (by omega) (by omega)
    have following := (act.yields.epilogue (n + 1) _ (List.getElem?_eq_getElem (by omega))).1
    refine .quiet act going activation filled found (alike.quiet calm) none (made ▸ .inl ⟨[.onExit], rfl⟩) ?_
      ⟨_, place ▸ stands, ?_⟩
    · intro g further
      rw [made]
      exact .exiting (n := n + 1) (Handle.eq_iff.mpr (by rw [further, place, Nat.add_assoc])) (by omega)
    · rw [place]
      exact following

/-- The instruction behind the call of the hook in the epilogue. -/
theorem Under.leaving_step (act : WovenActivation w new a) (going : ∀ v ∈ visits, v.ends cs.length = false)
    (activation : f.activation = a) (filled : f.Filled)
    (place : f.place = ⟨w.places.epilogue.index + (w.epilogue.length - 1)⟩)
    (made : w.hookCalls cs.length visits = [.onEntry, .onExit]) :
    Under p w a cs source (visits ++ [p.visit f cs s]) (p.after f cs s) := by
  have prologue := w.prologue_pos
  have index : f.place.index = w.old.code.size + w.prologue.length + (w.epilogue.length - 1) := congrArg Handle.index place
  obtain ⟨front, parts, quiet⟩ := w.epilogue_eq
  have length : w.epilogue.length = front.length + 2 := by rw [parts]; simp
  have last : w.epilogue[w.epilogue.length - 1]? = some ⟨.leave, .target w.places.returnBlock⟩ := by
    rw [parts]
    simp
  obtain ⟨-, j, there, alike⟩ := act.yields.epilogue _ _ last
  have found : f.activation.body.code.get? f.place = some j := by rw [activation, act.body, place, there]
  have leaves : j.opcode.action = .leave := alike.action.symm
  have goal : j.target? = some w.places.returnBlock := alike.target?.symm
  have under := visit_going p cs found (by rw [leaves]; nofun) s
  have calls := (hookCalls_visit_other going under (w.hookCall?_eq_none (by omega) (by omega) (by omega))).trans made
  have after := p.after_eq cs found s
  have stepped : step p.module f j { s with executed := s.executed + 1 } =
      .ok (f.stack, .leave w.places.returnBlock) { s with executed := s.executed + 1 } := by
    simp only [step, leaves, Instruction.branchTarget, goal]
    rfl
  simp only [stepped, perform] at after
  rw [after]
  cases left : Frame.leave { f with stack := f.stack } w.places.returnBlock with
  | error cause => exact .finished (calls ▸ .inl (List.prefix_refl _)) (.inr (below_error _ _ _))
  | ok g =>
    obtain ⟨active, rfl⟩ := Frame.leave_eq_ok left
    refine .top (going_snoc going under) activation filled ?_
    rw [calls]
    refine .returning (n := 0) rfl ?_
    unfold Weave.returnBlock WeavePlan.returnBlock
    split <;> simp

theorem Weave.hookCall?_of_behind (behind : w.places.handler.index + 5 < f.place.index) : w.hookCall? f = none := by
  have prologue := w.prologue_pos
  have epilogue := w.two_le_length_epilogue
  rw [index_handler, index_epilogue] at behind
  exact w.hookCall?_eq_none (by omega) (by omega) (by omega)

/-- An instruction of the return block. -/
theorem Under.returning_step {n : Nat} (act : WovenActivation w new a)
    (going : ∀ v ∈ visits, v.ends cs.length = false) (activation : f.activation = a) (filled : f.Filled)
    (place : f.place = ⟨w.places.returnBlock.index + n⟩) (inside : n < w.returnBlock.length)
    (made : w.hookCalls cs.length visits = [.onEntry, .onExit]) :
    Under p w a cs source (visits ++ [p.visit f cs s]) (p.after f cs s) := by
  obtain ⟨stands, j, there, alike⟩ := act.yields.returnBlock n _ (List.getElem?_eq_getElem inside)
  have found : f.activation.body.code.get? f.place = some j := by rw [activation, act.body, place, there]
  have parts : w.returnBlock[n] = ⟨.ret, .none⟩ ∨
      w.returnBlock[n] = Instruction.loadSlot w.slots.result ∧ n + 1 < w.returnBlock.length := by
    have block : w.returnBlock = if w.plan.result.isVoid then [⟨.ret, .none⟩] else
      [Instruction.loadSlot w.slots.result, ⟨.ret, .none⟩] := rfl
    simp only [block] at inside ⊢
    split at inside <;> rename_i void <;> simp only [void, ↓reduceIte, Bool.false_eq_true]
    · left
      simp
    · simp only [List.length_cons, List.length_nil] at inside
      match n, inside with
      | 0, _ => exact .inr ⟨rfl, by simp⟩
      | 1, _ => exact .inl rfl
  rcases parts with ret | ⟨load, more⟩
  · rw [ret] at alike
    have returns : j.opcode = .ret := Opcode.action_eq_exit_iff.mp alike.action.symm
    have ended : (p.visit f cs s).ends cs.length = true := by
      simp [Visit.ends, Visit.returns, Program.visit, found, returns]
    refine .finished ?_ (.inl ⟨_, List.mem_append_right _ (List.mem_singleton.mpr rfl), ended⟩)
    rw [Weave.hookCalls_ended (.inr ended), made]
    exact .inl (List.prefix_refl _)
  · rw [load] at alike
    have following := (act.yields.returnBlock (n + 1) _ (List.getElem?_eq_getElem more)).1
    have behind : w.places.handler.index + 5 < f.place.index := by
      rw [place, Weave.places_returnBlock, w.length_handler]
      simp only
      omega
    refine .quiet act going activation filled found (alike.quiet (Instruction.quiet_loadSlot _))
      (Weave.hookCall?_of_behind behind) (made ▸ .inl (List.prefix_refl _)) ?_ ⟨_, place ▸ stands, ?_⟩
    · intro g further
      rw [made]
      exact .returning (n := n + 1) (Handle.eq_iff.mpr (by rw [further, place, Nat.add_assoc])) more
    · rw [place]
      exact following

/-- An instruction of the handler before the call of the hook has left the frame at the next one. -/
theorem Under.handling_onward {n : Nat} (act : WovenActivation w new a)
    (going : ∀ v ∈ visits, v.ends cs.length = false) (activation : f.activation = a)
    (place : f.place = ⟨w.places.handler.index + n⟩) (inside : n < 5) (origin : source (w.hookCalls cs.length visits) x)
    (active : ∃ index rest, f.active = ⟨index, x⟩ :: rest) (found : f.activation.body.code.get? f.place = some j)
    (stays : j.opcode.action ≠ .exit) (beside : f.Beside g) (filled : g.Filled) (stack : w.HandlerStack x g (n + 1))
    (goes : p.after f cs s = goAhead g cs t) :
    Under p w a cs source (visits ++ [p.visit f cs s]) (p.after f cs s) := by
  have body : g.activation.body = new := by rw [beside.activation, activation, act.body]
  have stands := (act.yields.handler n _ (List.getElem?_eq_getElem (by rw [w.length_handler]; omega))).1
  have following := (act.yields.handler (n + 1) _ (List.getElem?_eq_getElem (by rw [w.length_handler]; omega))).1
  have next : g.activation.next g.place = .ok ⟨w.places.handler.index + (n + 1)⟩ :=
    Activation.next_eq (body ▸ beside.place ▸ place ▸ stands) (body ▸ following)
  have under := visit_going p cs found stays s
  have prologue := w.prologue_pos
  have epilogue := w.two_le_length_epilogue
  have index : f.place.index = w.old.code.size + w.prologue.length + w.epilogue.length + n := by
    rw [place, w.index_handler, w.index_epilogue]
  have calls := hookCalls_visit_other going under (w.hookCall?_eq_none (by omega) (by omega) (by omega))
  rw [goes]
  unfold goAhead Frame.ahead
  rw [next]
  refine .top (going_snoc going under) (beside.activation.trans activation) filled ?_
  rw [calls]
  refine .handling (n := n + 1) rfl (by omega) origin ?_ (beside.active ▸ active)
  match n, inside, stack with
  | 0, _, stack => exact stack
  | 1, _, stack => exact stack
  | 2, _, stack => exact stack
  | 3, _, stack => exact stack
  | 4, _, stack => exact stack

/-- The call of the hook in the handler raises an exception that leaves, and the other instructions
    before it take the exception there. -/
theorem Under.handling_step {n : Nat} (act : WovenActivation w new a)
    (going : ∀ v ∈ visits, v.ends cs.length = false) (activation : f.activation = a) (filled : f.Filled)
    (place : f.place = ⟨w.places.handler.index + n⟩) (inside : n ≤ 5)
    (origin : source (w.hookCalls cs.length visits) x) (stack : w.HandlerStack x f n)
    (active : ∃ index rest, f.active = ⟨index, x⟩ :: rest) (tells : Tells p w a cs source (p.after f cs s)) :
    Under p w a cs source (visits ++ [p.visit f cs s]) (p.after f cs s) := by
  have body : f.activation.body = new := by rw [activation, act.body]
  obtain ⟨stands, j, there, alike⟩ := act.yields.handler n _ (List.getElem?_eq_getElem (by rw [w.length_handler]; omega))
  have found : f.activation.body.code.get? f.place = some j := by rw [body, place, there]
  obtain ⟨method, attr, exception, arguments, -⟩ := act.yields.toNat_slots
  have size : f.activation.body.slots.size = w.old.slots.size + 5 := by rw [body, act.yields.size_slots]
  have load : ∀ slot : UInt16, slot.toNat < w.old.slots.size + 5 → n < 5 → (Instruction.loadSlot slot).Alike j →
      (∀ value, f.slot slot.toNat = .ok value → w.HandlerStack x { f with stack := value :: f.stack } (n + 1)) →
        Under p w a cs source (visits ++ [p.visit f cs s]) (p.after f cs s) := by
    intro slot bound early alike stack
    obtain ⟨value, here⟩ := filled.slot _ (size ▸ bound)
    have quiet := alike.quiet (Instruction.quiet_loadSlot slot)
    exact .handling_onward act going activation place early origin active found quiet.straight.ne_exit
      (f.beside_stack (value :: f.stack)) filled (stack value here) (Program.after_loadSlot found alike here cs s)
  match n, inside, stack, place, alike with
  | 0, _, stack, place, alike =>
    have bound : w.slots.exception.toNat < f.slots.size := by rw [filled.1]; omega
    have quiet := alike.quiet (Instruction.quiet_storeSlot w.slots.exception)
    have beside := (f.beside_stack []).trans (Frame.beside_store _ w.slots.exception.toNat (.ref x))
    exact .handling_onward act going activation place (by omega) origin active found quiet.straight.ne_exit beside
      (Frame.Filled.store filled _ _) (Frame.slot_store_self _ bound _) (Program.after_storeSlot found alike stack bound cs s)
  | 1, _, stack, place, alike => exact load w.slots.attr (by omega) (by omega) alike fun value here => stack
  | 2, _, stack, place, alike =>
    refine load w.slots.exception (by omega) (by omega) alike fun value here => ?_
    rw [Except.ok.inj (here.symm.trans stack)]
    rfl
  | 3, _, stack, place, alike => exact load w.slots.method (by omega) (by omega) alike fun value here => stack
  | 4, _, stack, place, alike => exact load w.slots.arguments (by omega) (by omega) alike fun value here => stack
  | 5, _, stack, place, alike =>
    have straight : (Instruction.mk .callvirt (.method w.plan.onException)).Straight := trivial
    refine .straight act going activation filled found (alike.straight straight) tells fun g beside => ?_
    have called : w.hookCall? f = some (.onException (.ref x)) := by
      have third : f.stack.getD 2 .null = .ref x := by
        rw [List.getD_eq_getElem?_getD, show f.stack[2]? = some (.ref x) from stack]
        rfl
      have prologue := w.prologue_pos
      have epilogue := w.two_le_length_epilogue
      have index : f.place.index = w.old.code.size + w.prologue.length + w.epilogue.length + 5 := by
        rw [place, w.index_handler, w.index_epilogue]
      rw [w.hookCall?_eq, if_neg (by omega), if_neg (by omega), if_pos index, third]
    rw [called]
    exact .handling (beside.place.trans place) origin (beside.active ▸ active)

/-- The last instruction of the handler. -/
theorem Under.rethrowing_step (act : WovenActivation w new a)
    (going : ∀ v ∈ visits, v.ends cs.length = false) (activation : f.activation = a)
    (place : f.place = ⟨w.places.handler.index + 6⟩) (order : Ordered source (w.hookCalls cs.length visits))
    (active : ∃ index rest, f.active = ⟨index, x⟩ :: rest) :
    Under p w a cs source (visits ++ [p.visit f cs s]) (p.after f cs s) := by
  obtain ⟨stands, j, there, alike⟩ := act.yields.handler 6 _ rfl
  have found : f.activation.body.code.get? f.place = some j := by rw [activation, act.body, place, there]
  have rethrows : j.opcode.action = .rethrow := alike.action.symm
  have under := visit_going p cs found (by rw [rethrows]; nofun) s
  have calls := hookCalls_visit_other going under (w.hookCall?_of_behind (by rw [place]; simp only; omega))
  have after := p.after_eq cs found s
  obtain ⟨index, rest, clause⟩ := active
  have stepped : step p.module f j { s with executed := s.executed + 1 } =
      .ok (f.stack, .throw x) { s with executed := s.executed + 1 } := by
    simp only [step, rethrows, clause]
    rfl
  simp only [stepped, perform] at after
  have body : f.activation.body = new := by rw [activation, act.body]
  rw [after, unwind_cons, act.yields.catch?_outside (f := { f with stack := f.stack }) act.live body (place ▸ stands)
    (.inr (Nat.le_add_right _ _))]
  exact .finished (calls ▸ order) (.inr (below_unwind p.module x cs _))

end Instructions

/-! ### Runs of the activation -/

section Runs

variable {start r : Stage} {top : Frame} {callers : List Frame} {s : Machine}

theorem Program.Source.mono {more : List Visit} (source : p.Source w a cs start visits calls x) :
    p.Source w a cs start (visits ++ more) calls x := by
  have further : ∀ place, p.Escapes w a cs start visits place x → p.Escapes w a cs start (visits ++ more) place x := by
    rintro place ⟨before, top, callers, s, behind, f, t, rfl, escape⟩
    exact ⟨before, top, callers, s, behind ++ more, f, t, by simp, escape⟩
  rcases source with ⟨made, escape⟩ | ⟨made, escape⟩
  · exact .inl ⟨made, further _ escape⟩
  · exact .inr ⟨made, further _ escape⟩

theorem Program.Source.early (source : p.Source w a cs start visits calls x) : calls <+: [.onEntry, .onExit] := by
  rcases source with ⟨rfl, -⟩ | ⟨rfl, -⟩
  · exact ⟨[.onExit], rfl⟩
  · exact List.prefix_refl _

/-- One instruction takes an activation from phase to phase, until it is over. -/
theorem Under.step (act : WovenActivation w new a) (leads : p.Leads start visits (.ok (.running top callers) s))
    (state : Under p w a cs (p.Source w a cs start visits) visits (.ok (.running top callers) s)) :
    Under p w a cs (p.Source w a cs start (visits ++ [p.visit top callers s])) (visits ++ [p.visit top callers s])
      (p.after top callers s) := by
  have tells : Tells p w a cs (p.Source w a cs start (visits ++ [p.visit top callers s])) (p.after top callers s) :=
    fun f x t activation threw takes =>
      ⟨fun place => .inl ⟨rfl, visits, top, callers, s, [], f, t, rfl, leads, threw, activation, place, takes⟩,
        fun place => .inr ⟨rfl, visits, top, callers, s, [], f, t, rfl, leads, threw, activation, place, takes⟩⟩
  have more : ∀ c x, p.Source w a cs start visits c x →
      p.Source w a cs start (visits ++ [p.visit top callers s]) c x := fun _ _ source => source.mono
  cases state with
  | top going activation filled rest =>
    generalize made : w.hookCalls cs.length visits = calls at rest
    cases rest with
    | entering place inside => exact .entering_step act going activation filled place inside made tells
    | old place => exact .old_step act going activation filled place made tells
    | exiting place inside => exact .exiting_step act going activation filled place inside made tells
    | leaving place => exact .leaving_step act going activation filled place made
    | returning place inside => exact .returning_step act going activation filled place inside made
    | handling place inside origin stack active =>
      exact .handling_step act going activation filled place inside (made ▸ more _ _ origin) stack active tells
    | rethrowing place origin active =>
      exact .rethrowing_step act going activation place (made ▸ .inr ⟨_, _, more _ _ origin, rfl⟩) active
  | @waiting _ between f _ going activation filled pause =>
    have higher : (p.visit top (between ++ f :: cs) s).callers.length ≠ cs.length := by
      simp only [Program.visit, List.length_append, List.length_cons]
      omega
    have under : (p.visit top (between ++ f :: cs) s).ends cs.length = false := by
      simp only [Visit.ends, Program.visit, List.length_append, List.length_cons, Bool.or_eq_false_iff,
        Bool.and_eq_false_iff, decide_eq_false_iff_not, beq_eq_false_iff_ne]
      omega
    have calls := Weave.hookCalls_snoc (w := w) going under
    rw [if_neg higher, List.append_nil] at calls
    exact .turn act (going_snoc going under) activation filled (calls ▸ pause.mono more) (p.after_above ..)
      fun x t threw takes => tells f x t activation threw takes
  | finished order closed =>
    have ended : (∃ v ∈ visits, v.ends cs.length = true) ∨ (p.visit top callers s).ends cs.length = true := by
      rcases closed with last | below
      · exact .inl last
      · have lower : callers.length < cs.length := below top callers s rfl
        exact .inr (by simp [Visit.ends, Program.visit, lower])
    refine .finished ?_ (.inl ?_)
    · rw [Weave.hookCalls_ended ended]
      exact order.mono more
    · rcases ended with ⟨v, member, last⟩ | last
      · exact ⟨v, List.mem_append_left _ member, last⟩
      · exact ⟨_, List.mem_append_right _ (List.mem_singleton.mpr rfl), last⟩

/-- A run keeps an activation to its phases. -/
theorem Under.run (act : WovenActivation w new a) {r' : Stage} {before : List Visit}
    (leads : p.Leads start before r) (state : Under p w a cs (p.Source w a cs start before) before r)
    (onward : p.Leads r visits r') :
    Under p w a cs (p.Source w a cs start (before ++ visits)) (before ++ visits) r' := by
  induction onward generalizing before with
  | stay => simpa using state
  | @step f callers s visits r' rest ih =>
    rw [List.append_cons]
    exact ih (leads.trans (p.leads_after f callers s)) (state.step act leads)

/-- An activation starts in the prologue. -/
theorem Under.first (act : WovenActivation w new a) (pending : List Pending) {first : Handle}
    (begins : new.code.first? = some first) (source : List HookCall → HeapRef → Prop) :
    Under p w a cs source [] (.ok (.running (.start a pending first) cs) s) := by
  have stands := (act.yields.prologue 0 _ (List.getElem?_eq_getElem w.prologue_pos)).1
  have same : first = ⟨w.old.code.size + 0⟩ := Option.some.inj (begins.symm.trans stands)
  refine .top nofun rfl ⟨by simp [Frame.start, Activation.slots], fun o member => ?_⟩
    (.entering (n := 0) same w.prologue_pos)
  simp only [Frame.start, Activation.slots, act.body, act.yields.initSlots, Array.mem_map] at member
  obtain ⟨slot, -, rfl⟩ := member
  rfl

end Runs

end AspectWeaving

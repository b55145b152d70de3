import AspectWeaving.Proofs.HookPhases
import AspectWeaving.Proofs.Walks

/-!
What becomes of an activation of a woven body at the calls of its hooks (`Weave.Outcomes`). What the hook
before the code throws leaves the activation, and so does what the hook for failures throws. Behind the
hook after the code the activation returns, and what that hook throws gets to the hook for failures; so
does an exception that the old code neither catches. When the hook for failures returns, the exception
it was called with leaves the activation.
-/
namespace AspectWeaving

open Running (compute)

variable {p : Program} {w : Weave} {new : Body} {a : Activation} {cs : List Frame} {f g : Frame} {x : HeapRef}
  {s t : Machine} {lo : Nat}

/-- A stage goes on to the call of the hook for failures, with an exception. -/
def Weave.Handles (w : Weave) (p : Program) (cs : List Frame) (x : HeapRef) (r : Stage) : Prop :=
  ∃ f g s t, r = .ok (.running f cs) s ∧ p.Walks cs w.places.handler.index f s g t ∧
    g.place = w.exceptionCall ∧ w.hookCall? g = some (.onException (.ref x))

/-- What becomes of an activation at a hook call of it. -/
structure Weave.Outcomes (w : Weave) (p : Program) (cs : List Frame) (calls : List HookCall) (f : Frame) : Prop where
  /-- What the hook before the code throws leaves the activation. -/
  entryThrows : f.place = w.entryCall → ∀ stack x t,
    unwind p.module x ({ f with stack } :: cs) t = unwind p.module x cs t
  /-- When the hook after the code returns, so does the activation. -/
  exitReturns : f.place = w.exitCall → ∀ stack value t, ∃ g h u result,
    goAhead ({ f with stack }.receive value) cs t = .ok (.running g cs) t ∧
      p.Walks cs w.places.epilogue.index g t h u ∧
        p.after h cs u = settleAttempt p.module cs (complete p cs.length f.pending (.returned result)) u.counted ∧
          if w.plan.result.isVoid then result = .void else f.slot w.slots.result.toNat = .ok result
  /-- An exception of the hook after the code gets to the hook for failures. -/
  exitThrows : f.place = w.exitCall → ∀ stack x t, isInstance p.module t.heap x w.plan.exception = .ok true →
    w.Handles p cs x (unwind p.module x ({ f with stack } :: cs) t)
  /-- So does an exception of the old code that the old code does not catch. -/
  escapes : f.place.index < w.old.code.size → ∀ stack x t,
    isInstance p.module t.heap x w.plan.exception = .ok true →
      (∃ fault, unwind p.module x ({ f with stack } :: cs) t = .error fault t) ∨
        (∃ g, unwind p.module x ({ f with stack } :: cs) t = .ok (.running g cs) t ∧
          g.activation = f.activation ∧ g.place.index < w.old.code.size) ∨
          w.Handles p cs x (unwind p.module x ({ f with stack } :: cs) t)
  /-- When the hook for failures returns, the exception that it was called with leaves the activation. -/
  exceptionReturns : f.place = w.exceptionCall → ∃ x,
    (calls.getLast? = some (.onException (.ref x)) ∨ w.hookCall? f = some (.onException (.ref x))) ∧
      ∀ stack value t, ∃ g, goAhead ({ f with stack }.receive value) cs t = .ok (.running g cs) t ∧
        p.after g cs t = unwind p.module x cs t.counted
  /-- What the hook for failures throws leaves the activation. -/
  exceptionThrows : f.place = w.exceptionCall → ∀ stack y t,
    unwind p.module y ({ f with stack } :: cs) t = unwind p.module y cs t

theorem Program.Walks.mono {lower : Nat} (walks : p.Walks cs lo f s g t) (below : lower ≤ lo) :
    p.Walks cs lower f s g t := by
  obtain ⟨visits, leads, bounds⟩ := walks
  exact ⟨visits, leads, fun v member => ⟨(bounds v member).1, (bounds v member).2.1,
    Nat.le_trans below (bounds v member).2.2⟩⟩

/-- An exception that nothing takes goes on below. -/
theorem unwind_of_uncaught {m : Module} (none : f.catch? m t.heap x = .ok none) :
    unwind m x (f :: cs) t = unwind m x cs t := by
  rw [unwind_cons, none]

/-- A frame at a return hands on its result. -/
theorem Frame.At.after_return {position first : Nat} {done : List Instruction} {stack : List Value}
    {void : Bool} {result : Value} (inside : f.At position first done [⟨.ret, .none⟩])
    (returns : f.activation.returnsValue = !void) (top : f.stack = if void then stack else result :: stack)
    (cs : List Frame) (s : Machine) :
    p.after f cs s =
      settleAttempt p.module cs
        (complete p cs.length f.pending (.returned (if void then .void else result))) s.counted := by
  obtain ⟨j, found, alike⟩ := inside.fetch
  have action : j.opcode.action = .exit := alike.action.symm
  rw [Program.after_eq p cs found]
  simp only [step, action, returns, top]
  cases void <;> rfl

/-! ### Outcomes -/

section Outcomes

variable (act : WovenActivation w new a)

include act

/-- The clause of the weave takes an exception to the call of the hook for failures. -/
theorem WovenActivation.handles (activation : f.activation = a) (filled : f.Filled) (active : List ActiveClause)
    (t : Machine) :
    w.Handles p cs x (.ok (.running (f.entering w.clause w.old.handlers.length x active) cs) t) := by
  have body : f.activation.body = new := by rw [activation, act.body]
  have size : f.slots.size = w.old.slots.size + 5 := by rw [filled.1, body, act.yields.size_slots]
  have value : ∀ index, index < w.old.slots.size + 5 → ∃ value, f.slot index = .ok value := fun index inside =>
    filled.slot index (by rw [body, act.yields.size_slots]; exact inside)
  obtain ⟨method, first⟩ := value (w.old.slots.size) (by omega)
  obtain ⟨attr, second⟩ := value (w.old.slots.size + 1) (by omega)
  obtain ⟨arguments, third⟩ := value (w.old.slots.size + 3) (by omega)
  have room := act.yields.slotsFit
  rw [Weave.length_slots] at room
  have inside : (f.entering w.clause w.old.handlers.length x active).At w.handlerPosition w.places.handler.index []
      (w.plan.handler (.startingAt w.old.slots.size)) := by
    refine ⟨?_, rfl⟩
    change f.activation.body.code.Holds _ _ _
    rw [body]
    exact act.yields.handler
  obtain ⟨g, u, walk, -, there, moves⟩ := inside.walks_handler p cs (x := x) room rfl
    ⟨Nat.le_of_eq size.symm, first, second, third⟩ t
  have place : g.place = w.exceptionCall := there.place
  have index : g.place.index = w.old.code.size + w.prologue.length + w.epilogue.length + 5 := by
    rw [place]
    simp only [Weave.exceptionCall, w.index_handler, w.index_epilogue]
  have epilogue := w.two_le_length_epilogue
  have prologue := w.prologue_pos
  refine ⟨_, g, t, u, rfl, walk, place, ?_⟩
  rw [w.hookCall?_eq, if_neg (by omega), if_neg (by omega), if_pos index, moves.stack]
  rfl

section AtHooks

variable (activation : f.activation = a)

include activation

/-- What the hook before the code throws leaves the activation. -/
theorem WovenActivation.unwind_entry (place : f.place = w.entryCall) (stack : List Value) :
    unwind p.module x ({ f with stack } :: cs) t = unwind p.module x cs t := by
  have body : f.activation.body = new := by rw [activation, act.body]
  have inside : w.prologue.length - 1 < w.prologue.length := by
    have := w.prologue_pos
    omega
  have stands := (act.yields.prologue _ _ (List.getElem?_eq_getElem inside)).1
  rw [Nat.zero_add] at stands
  exact unwind_of_uncaught (act.yields.catch?_outside (f := { f with stack }) act.live body
    (by rw [show ({ f with stack } : Frame).place = _ from place]; exact stands) (.inl inside))

/-- What the hook for failures throws leaves the activation. -/
theorem WovenActivation.unwind_exception (place : f.place = w.exceptionCall) (stack : List Value) :
    unwind p.module x ({ f with stack } :: cs) t = unwind p.module x cs t := by
  have body : f.activation.body = new := by rw [activation, act.body]
  have stands := (act.yields.handler 5 _ rfl).1
  exact unwind_of_uncaught (act.yields.catch?_outside (f := { f with stack }) act.live body
    (by rw [show ({ f with stack } : Frame).place = _ from place]; exact stands) (.inr (Nat.le_add_right _ _)))

/-- An exception that the clause of the weave is asked for, and takes, gets to the hook for failures. -/
theorem WovenActivation.handles_of_answer (filled : f.Filled) {stack : List Value} {active : List ActiveClause}
    (takes : isInstance p.module t.heap x w.plan.exception = .ok true)
    (asked : ({ f with stack } : Frame).catch? p.module t.heap x =
      w.answer { f with stack } x active (isInstance p.module t.heap x w.plan.exception)) :
    w.Handles p cs x (unwind p.module x ({ f with stack } :: cs) t) := by
  rw [takes] at asked
  rw [unwind_cons, asked]
  exact act.handles (f := { f with stack }) activation filled active t

/-- An exception of the hook behind the code gets to the hook for failures. -/
theorem WovenActivation.handles_exit (filled : f.Filled) (place : f.place = w.exitCall) (stack : List Value)
    (takes : isInstance p.module t.heap x w.plan.exception = .ok true) :
    w.Handles p cs x (unwind p.module x ({ f with stack } :: cs) t) := by
  have body : f.activation.body = new := by rw [activation, act.body]
  have epilogue := w.two_le_length_epilogue
  have stands := (act.yields.epilogue _ _ (List.getElem?_eq_getElem (show w.epilogue.length - 2 < _ by omega))).1
  obtain ⟨active, caught⟩ := act.yields.catch?_epilogue (f := { f with stack }) (m := p.module) (h := t.heap)
    (x := x) act.live body (by rw [show ({ f with stack } : Frame).place = _ from place]; exact stands)
    (Nat.le_add_right _ _) (by unfold Weave.handlerPosition; omega)
  exact act.handles_of_answer activation filled takes caught

/-- An exception of the old code is taken by the old code, or it gets to the hook for failures. -/
theorem WovenActivation.escapes_old (filled : f.Filled) (place : f.place.index < w.old.code.size) (stack : List Value)
    (takes : isInstance p.module t.heap x w.plan.exception = .ok true) :
    (∃ fault, unwind p.module x ({ f with stack } :: cs) t = .error fault t) ∨
      (∃ g, unwind p.module x ({ f with stack } :: cs) t = .ok (.running g cs) t ∧
        g.activation = f.activation ∧ g.place.index < w.old.code.size) ∨
        w.Handles p cs x (unwind p.module x ({ f with stack } :: cs) t) := by
  have body : f.activation.body = new := by rw [activation, act.body]
  obtain ⟨k, stands⟩ := Code.exists_position place
  have inside := (Array.getElem?_eq_some_iff.mp stands).1
  rw [w.old.code.size_order] at inside
  have before : w.prologue.length + k < w.epiloguePosition := by
    unfold Weave.epiloguePosition
    omega
  rcases act.yields.catch?_old (f := { f with stack }) (m := p.module) (h := t.heap) (x := x) act.live body
      (act.yields.order stands) (Nat.le_add_right _ _) before with
    ⟨fault, failed⟩ | ⟨n, c, active, member, caught⟩ | ⟨-, active, caught⟩
  · exact .inl ⟨fault, by rw [unwind_cons, failed]⟩
  · obtain ⟨-, handling, -, span⟩ := act.live member
    have start := (Body.span?_eq_some_iff.mp span).1
    exact .inr (.inl ⟨{ f with stack }.entering c n x active, by rw [unwind_cons, caught], rfl,
      (w.old.code.mem_order_iff _).mp (Array.mem_of_getElem? start)⟩)
  · exact .inr (.inr (act.handles_of_answer activation filled takes caught))

/-- When the hook behind the code returns, the activation leaves the protected code. -/
theorem WovenActivation.leaves_exit (p : Program) (cs : List Frame) (place : f.place = w.exitCall) (stack : List Value) (value : Value)
    (t : Machine) :
    ∃ g h, goAhead ({ f with stack }.receive value) cs t = .ok (.running g cs) t ∧
      p.Walks cs w.places.epilogue.index g t h t.counted ∧ h.activation = f.activation ∧ h.pending = f.pending ∧
        h.slots = f.slots ∧ h.stack = [] ∧ h.At w.returnPosition w.places.returnBlock.index []
          (w.plan.toReturn w.slots ++ [⟨.ret, .none⟩]) := by
  have body : f.activation.body = new := by rw [activation, act.body]
  have parts := w.plan.epilogue_eq w.slots w.places.returnBlock
  have long : w.epilogue.length = (w.plan.toExit w.slots).length + 2 := by
    rw [Weave.epilogue, parts, List.length_append]
    rfl
  have inside : ({ f with stack } : Frame).At w.epiloguePosition w.places.epilogue.index
      (w.plan.toExit w.slots) [w.plan.callOnExit, ⟨.leave, .target w.places.returnBlock⟩] := by
    refine ⟨?_, ?_⟩
    · change f.activation.body.code.Holds _ _ _
      rw [body, ← parts]
      exact act.yields.epilogue
    · change f.place = _
      rw [place, Weave.exitCall, long, Nat.add_sub_cancel]
  have beside := ({ f with stack } : Frame).beside_receive value
  have live : ({ f with stack }.receive value).activation.body.Live := by
    rw [beside.activation, body]
    exact act.yields.live act.live
  obtain ⟨active, leave⟩ := (inside.onward beside).walks_leave p cs (n := w.returnPosition) live
    (by change ({ f with stack }.receive value).activation.body.code.order[_]? = _
        rw [beside.activation, body]
        exact act.yields.order_returnBlock) t
  refine ⟨_, _, inside.goAhead cs (by simp) beside t, leave, beside.activation, beside.pending, ?_, rfl, ?_, rfl⟩
  · cases value <;> rfl
  · change ({ f with stack }.receive value).activation.body.code.Holds _ _ _
    rw [beside.activation, body, ← w.plan.returnBlock_eq w.slots]
    exact act.yields.returnBlock

/-- When the hook behind the code returns, so does the activation, with the result that is in its slot. -/
theorem WovenActivation.returns_exit (filled : f.Filled) (place : f.place = w.exitCall) (stack : List Value) (value : Value)
    (t : Machine) :
    ∃ g h u result, goAhead ({ f with stack }.receive value) cs t = .ok (.running g cs) t ∧
      p.Walks cs w.places.epilogue.index g t h u ∧
        p.after h cs u = settleAttempt p.module cs (complete p cs.length f.pending (.returned result)) u.counted ∧
          if w.plan.result.isVoid then result = .void else f.slot w.slots.result.toNat = .ok result := by
  have room := act.yields.slotsFit
  rw [Weave.length_slots] at room
  obtain ⟨result, slot⟩ := filled.slot (w.old.slots.size + 4)
    (by rw [activation, act.body, act.yields.size_slots]; omega)
  obtain ⟨g, h, ahead, leave, same, pending, slots, empty, lands⟩ :=
    act.leaves_exit activation p cs place stack value t
  obtain ⟨k, u, walk, agrees, there, moves⟩ := lands.walks_returnBlock p cs room
    (by rw [← slot, Frame.slot, Frame.slot, slots]) t.counted
  rw [empty] at moves
  refine ⟨g, k, u, if w.plan.result.isVoid then .void else result, ahead, leave.trans (walk.mono ?_), ?_, ?_⟩
  · rw [Weave.places_returnBlock, Weave.places_handler]
    simp only
    omega
  · rw [← pending, ← moves.pending]
    refine there.after_return ?_ moves.stack cs u
    rw [moves.activation, same, activation, act.returnsValue]
  · split
    · rfl
    · rw [act.yields.toNat_slots.2.2.2.2]
      exact slot

/-- When the hook for failures returns, the exception that has entered the handler leaves the activation. -/
theorem WovenActivation.rethrows_exception (place : f.place = w.exceptionCall) {index : Nat} {rest : List ActiveClause}
    (active : f.active = ⟨index, x⟩ :: rest) (stack : List Value) (value : Value) (t : Machine) :
    ∃ g, goAhead ({ f with stack }.receive value) cs t = .ok (.running g cs) t ∧
      p.after g cs t = unwind p.module x cs t.counted := by
  have body : f.activation.body = new := by rw [activation, act.body]
  have beside := ({ f with stack } : Frame).beside_receive value
  have inside : ({ f with stack } : Frame).At w.handlerPosition w.places.handler.index
      (WeavePlan.toException w.slots) [w.plan.callOnException, ⟨.rethrow, .none⟩] := by
    refine ⟨?_, place⟩
    change f.activation.body.code.Holds _ _ _
    rw [body, ← w.plan.handler_eq]
    exact act.yields.handler
  have there := inside.onward beside
  obtain ⟨j, found, alike⟩ := there.fetch
  have action : j.opcode.action = .rethrow := alike.action.symm
  have actives : ({ f with stack }.receive value).onward.active = ⟨index, x⟩ :: rest := beside.active.trans active
  have whole : ({ f with stack }.receive value).onward.activation.body = new := by
    change ({ f with stack }.receive value).activation.body = _
    rw [beside.activation, body]
  have stepped : step p.module ({ f with stack }.receive value).onward j t.counted =
      .ok (({ f with stack }.receive value).onward.stack, .throw x) t.counted := by
    simp only [step, action]
    rw [actives]
    rfl
  refine ⟨_, inside.goAhead cs (by simp) beside t, ?_⟩
  rw [Program.after_eq p cs found]
  unfold Machine.counted at stepped
  rw [stepped]
  have stands := there.stands
  rw [whole] at stands
  exact unwind_of_uncaught (act.yields.catch?_outside act.live whole stands (.inr (Nat.le_add_right _ _)))

/-- What becomes of an activation at the instruction of a frame that it stands at. -/
theorem WovenActivation.outcomes {calls : List HookCall} (filled : f.Filled)
    (returnsTo : f.place = w.exceptionCall → ∃ x index rest, f.active = ⟨index, x⟩ :: rest ∧
      (calls.getLast? = some (.onException (.ref x)) ∨ w.hookCall? f = some (.onException (.ref x)))) :
    w.Outcomes p cs calls f where
  entryThrows place stack _ _ := act.unwind_entry activation place stack
  exitReturns place stack value t := act.returns_exit activation filled place stack value t
  exitThrows place stack _ _ takes := act.handles_exit activation filled place stack takes
  escapes place stack _ _ takes := act.escapes_old activation filled place stack takes
  exceptionReturns place := by
    obtain ⟨x, index, rest, active, known⟩ := returnsTo place
    exact ⟨x, known, act.rethrows_exception activation place active⟩
  exceptionThrows place stack _ _ := act.unwind_exception activation place stack

end AtHooks

end Outcomes

end AspectWeaving

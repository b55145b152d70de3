import AspectWeaving.Proofs.ControlFlow
import AspectWeaving.Proofs.SoundRuns
import AspectWeaving.Proofs.Turns

/-!
What an instruction of a run does to one activation. It throws an exception or none (`Program.thrown?`). While an activation is
not over, its frame waits for a call, goes on to another instruction, leaves a region or enters a clause
(`Frame.Continues`), and it enters one just where an exception gets to it (`Program.moves`).
-/
namespace AspectWeaving

/-! ### Exceptions that are thrown -/

/-- The exception that a fault of the top one of some frames becomes, if the program may see it. -/
def raised? (frames : List Frame) (fault : Fault) (s : Machine) : Option HeapRef :=
  match frames with
  | [] => none
  | f :: _ =>
    if fault.exceptionName?.isSome && (f.activation.body.code.get? f.place).isSome then some s.heap.nextRef else none

/-- The exception that a call comes to for some frames. -/
def thrownBy? (frames : List Frame) (call : Running Progress) (s : Machine) : Option HeapRef :=
  match call s with
  | .ok (.done (.threw x)) _ => some x
  | .ok _ _ => none
  | .error fault t => raised? frames fault t

/-- The exception that the instruction of the top frame throws. -/
def Program.thrown? (p : Program) (f : Frame) (cs : List Frame) (s : Machine) : Option HeapRef :=
  (f.activation.body.code.get? f.place).bind fun i =>
    match step p.module f i { s with executed := s.executed + 1 } with
    | .error fault t => raised? (f :: cs) fault t
    | .ok (_, .throw x) _ => some x
    | .ok (_, .exit value) t => thrownBy? cs (complete p cs.length f.pending (.returned value)) t
    | .ok (_, .call target arguments dynamic) t => thrownBy? (f :: cs) (call p (cs.length + 1) target arguments dynamic) t
    | .ok (_, .construct target arguments) t => thrownBy? (f :: cs) (AspectWeaving.construct p (cs.length + 1) target arguments) t
    | .ok _ _ => none

section Thrown

variable {m : Module} {frames : List Frame} {fault : Fault} {call : Running Progress} {s : Machine} {x : HeapRef}

theorem raise_of_raised? (raised : raised? frames fault s = some x) : ∃ t, raise m fault frames s = unwind m x frames t := by
  unfold raised? at raised
  cases frames with
  | nil => cases raised
  | cons f callers =>
    dsimp only at raised
    split at raised
    · rename_i seen
      cases raised
      obtain ⟨named, there⟩ := Bool.and_eq_true_iff.mp seen
      obtain ⟨typeName, named⟩ := Option.isSome_iff_exists.mp named
      obtain ⟨i, there⟩ := Option.isSome_iff_exists.mp there
      exact ⟨_, by simp only [raise, named, there]; rfl⟩
    · cases raised

theorem raise_of_unraised (unraised : raised? frames fault s = none) : ∃ t, raise m fault frames s = .error fault t := by
  unfold raised? at unraised
  cases frames with
  | nil => exact ⟨s, rfl⟩
  | cons f callers =>
    cases named : fault.exceptionName? with
    | none => exact ⟨s, by simp only [raise, named]; rfl⟩
    | some typeName =>
      cases found : f.activation.body.code.get? f.place with
      | none => exact ⟨s, by simp only [raise, named, found]; rfl⟩
      | some i => simp [named, found] at unraised

theorem settleAttempt_of_thrown (thrown : thrownBy? frames call s = some x) :
    ∃ t, settleAttempt m frames call s = unwind m x frames t := by
  rw [settleAttempt_eq]
  unfold thrownBy? at thrown
  cases came : call s with
  | ok progress t =>
    rw [came] at thrown
    cases progress with
    | enter callee => cases thrown
    | done outcome =>
      cases outcome with
      | returned value => cases thrown
      | threw y =>
        cases thrown
        exact ⟨t, rfl⟩
  | error fault t =>
    rw [came] at thrown
    exact raise_of_raised? thrown

/-- A call that throws nothing fails for good, is entered or gives a value. -/
theorem settleAttempt_of_unthrown (unthrown : thrownBy? frames call s = none) :
    (∃ fault t, settleAttempt m frames call s = .error fault t) ∨
      (∃ callee t, settleAttempt m frames call s = .ok (.running callee frames) t) ∨
      ∃ value t, settleAttempt m frames call s = settle m frames (.done (.returned value)) t := by
  rw [settleAttempt_eq]
  unfold thrownBy? at unthrown
  cases came : call s with
  | ok progress t =>
    rw [came] at unthrown
    cases progress with
    | enter callee => exact .inr (.inl ⟨callee, t, rfl⟩)
    | done outcome =>
      cases outcome with
      | returned value => exact .inr (.inr ⟨value, t, rfl⟩)
      | threw y => cases unthrown
  | error fault t =>
    rw [came] at unthrown
    obtain ⟨u, failed⟩ := @raise_of_unraised m _ _ _ unthrown
    exact .inl ⟨fault, u, failed⟩

end Thrown

/-! ### Moves -/

/-- The handler of a clause holds an instruction. -/
def Body.inHandler (b : Body) (index : Nat) (h : Handle) : Bool :=
  ((b.handlers[index]?).bind fun c => b.span? c.handling).any fun s => (b.code.position? h).any s.contains

/-- Control goes on from an instruction to another one, with neither a leave nor an exception. -/
def Body.GoesOn (b : Body) (h g : Handle) : Prop :=
  ∃ i, b.code.get? h = some i ∧
    (i.opcode.fallsThrough = true ∧ b.code.next? h = some g ∨ i.opcode.action ≠ .leave ∧ i.target? = some g)

/-- Control leaves a region at an instruction for another one. -/
def Body.LeavesTo (b : Body) (h g : Handle) : Prop :=
  ∃ i, b.code.get? h = some i ∧ i.opcode.action = .leave ∧ i.target? = some g

/-- The clause that an exception enters at a frame. -/
def Frame.clauseFor? (m : Module) (h : Heap) (f : Frame) (x : HeapRef) : Option Nat :=
  match f.activation.position f.place with
  | .error _ => none
  | .ok n =>
    match findClause m h f.activation n x 0 f.activation.body.handlers with
    | .ok (some (index, _)) => some index
    | _ => none

/-- Control goes on behind the instruction of a frame. -/
def Frame.Falls (f : Frame) : Prop := ∃ i, f.activation.body.code.get? f.place = some i ∧ i.opcode.fallsThrough = true

/-- What becomes of the frame of an activation that is not over: it waits for a call that its instruction made, or control goes on,
    leaves a region or enters a clause. -/
inductive Frame.Continues (f : Frame) : Option ActiveClause → Frame → Prop
  | waits {g : Frame} (beside : f.Beside g) : Continues f none g
  | goes {g : Frame} (activation : g.activation = f.activation) (active : g.active = f.active)
      (onward : f.activation.body.GoesOn f.place g.place) : Continues f none g
  | leaves {g : Frame} {n : Nat} (activation : g.activation = f.activation) (onward : f.activation.body.LeavesTo f.place g.place)
      (stands : f.activation.position g.place = .ok n) (still : stillActive f.activation n f.active = .ok g.active) : Continues f none g
  | enters {g : Frame} {n index : Nat} {c : Handler} {x : HeapRef} {active : List ActiveClause} (activation : g.activation = f.activation)
      (stands : f.activation.position f.place = .ok n) (still : stillActive f.activation n f.active = .ok active)
      (clause : f.activation.body.handlers[index]? = some c) (place : g.place = c.handling.start)
      (entered : g.active = ⟨index, x⟩ :: active) : Continues f (some ⟨index, x⟩) g

namespace Frame

variable {m : Module} {heap : Heap} {a : Activation} {f g : Frame} {cs : List Frame} {x : HeapRef} {n index k : Nat} {c : Handler}

theorem Continues.activation {entered : Option ActiveClause} (continues : f.Continues entered g) : g.activation = f.activation := by
  cases continues with
  | waits beside => exact beside.activation
  | goes activation => exact activation
  | leaves activation => exact activation
  | enters activation => exact activation

/-- The stack and the slots of a frame do not matter for how it continues. -/
theorem Continues.of_beside {h : Frame} {entered : Option ActiveClause} (beside : f.Beside g) (continues : g.Continues entered h) :
    f.Continues entered h := by
  obtain ⟨activation, pending, place, active⟩ := beside
  cases continues with
  | waits further => exact .waits (Beside.trans ⟨activation, pending, place, active⟩ further)
  | goes activation' active' onward =>
    rw [activation, place] at onward
    exact .goes (activation'.trans activation) (active'.trans active) onward
  | leaves activation' onward stands still =>
    rw [activation, place] at onward
    rw [activation] at stands
    rw [activation, active] at still
    exact .leaves (activation'.trans activation) onward stands still
  | enters activation' stands still clause place' entered =>
    rw [activation, place] at stands
    rw [activation, active] at still
    rw [activation] at clause
    exact .enters (activation'.trans activation) stands still clause place' entered

theorem Beside.falls (beside : f.Beside g) (falls : f.Falls) : g.Falls := by
  unfold Falls
  rwa [beside.activation, beside.place]

theorem getElem?_of_findClause {clauses : List Handler} (found : findClause m heap a n x k clauses = .ok (some (index, c))) :
    k ≤ index ∧ clauses[index - k]? = some c := by
  induction clauses generalizing k with
  | nil => cases found
  | cons d rest ih =>
    rw [findClause] at found
    cases taken : catches m heap a n x d with
    | error fault =>
      rw [taken] at found
      cases found
    | ok takes =>
      rw [taken] at found
      cases takes with
      | true =>
        cases found
        exact ⟨Nat.le_refl _, by simp⟩
      | false =>
        obtain ⟨bound, here⟩ := ih found
        exact ⟨by omega, by rw [show index - k = index - (k + 1) + 1 by omega]; exact here⟩

/-- Where an exception is caught, it enters the clause for it. -/
theorem continues_of_catch? (caught : f.catch? m heap x = .ok (some g)) :
    ∃ index, f.clauseFor? m heap x = some index ∧ f.Continues (some ⟨index, x⟩) g := by
  unfold catch? at caught
  simp only [bind_eq_ok_iff, pure, Except.pure, Except.ok.injEq, Option.map_eq_some_iff] at caught
  obtain ⟨n, stands, active, still, found, clause, ⟨index, c⟩, rfl, rfl⟩ := caught
  cases placed : f.activation.position f.place with
  | error cause => simp [placed, Except.mapError] at stands
  | ok n' =>
    cases kept : stillActive f.activation n f.active with
    | error cause => simp [kept, Except.mapError] at still
    | ok active' =>
      obtain rfl : n' = n := by simpa [placed, Except.mapError] using stands
      obtain rfl : active' = active := by simpa [kept, Except.mapError] using still
      have looked : findClause m heap f.activation n' x 0 f.activation.body.handlers = .ok (some (index, c)) := clause
      refine ⟨index, ?_, .enters rfl placed kept (getElem?_of_findClause looked).2 rfl rfl⟩
      unfold clauseFor?
      rw [placed]
      dsimp only
      rw [looked]

theorem continues_of_leave {target : Handle} (onward : f.activation.body.LeavesTo f.place target) (left : f.leave target = .ok g) :
    f.Continues none g := by
  unfold leave at left
  simp only [bind_eq_ok_iff, pure, Except.pure, Except.ok.injEq] at left
  obtain ⟨n, stands, active, still, rfl⟩ := left
  exact .leaves rfl onward stands still

/-- A frame that goes on behind its instruction, perhaps with a result. -/
theorem continues_goAhead (beside : f.Beside g) (falls : f.Falls) (cs : List Frame) (t : Machine) :
    (∃ fault, goAhead g cs t = .error fault t) ∨ ∃ h, f.Continues none h ∧ goAhead g cs t = .ok (.running h cs) t := by
  rcases Program.goAhead_cases g cs t with failed | ⟨place, next, goes⟩
  · exact .inl failed
  · obtain ⟨i, found, falls⟩ := falls
    rw [beside.activation, beside.place] at next
    have behind : f.activation.body.code.next? f.place = some place := Code.next?_eq_some_iff.mpr (Activation.next_eq_ok next)
    exact .inr ⟨{ g with place }, .goes beside.activation beside.active ⟨i, found, .inl ⟨falls, behind⟩⟩, goes⟩

end Frame

/-! ### Instructions -/

section Instructions

variable {p : Program} {m : Module} {f g top top' : Frame} {cs callers callers' above frames : List Frame} {s t u : Machine} {x : HeapRef}
  {i : Instruction}

theorem length_of_unwind (unwound : unwind m x frames u = .ok (.running top callers) t) : callers.length < frames.length := by
  induction frames with
  | nil => cases unwound
  | cons f rest ih =>
    rw [unwind_cons] at unwound
    split at unwound
    · cases unwound
      exact Nat.lt_succ_self _
    · exact Nat.lt_succ_of_lt (ih unwound)
    · cases unwound

/-- An exception that gets no further than a frame is caught above it or there. -/
theorem unwind_reaches (unwound : unwind m x (above ++ f :: cs) u = .ok (.running top callers) t) (alive : cs.length ≤ callers.length) :
    (∃ between, callers = between ++ f :: cs) ∨ callers = cs ∧ t = u ∧ f.catch? m u.heap x = .ok (some top) := by
  induction above with
  | nil =>
    rw [List.nil_append, unwind_cons] at unwound
    split at unwound
    · rename_i caught
      cases unwound
      exact .inr ⟨rfl, rfl, caught⟩
    · have short := length_of_unwind unwound
      omega
    · cases unwound
  | cons g rest ih =>
    rw [List.cons_append, unwind_cons] at unwound
    split at unwound
    · cases unwound
      exact .inl ⟨rest, rfl⟩
    · exact ih unwound
    · cases unwound

/-- The instruction of a frame returns. -/
def Frame.Exits (f : Frame) : Prop := ∃ i, f.activation.body.code.get? f.place = some i ∧ i.opcode.action = .exit

theorem Program.after_of_thrown? (thrown : p.thrown? f cs s = some x) :
    (f.Exits ∧ ∃ t, p.after f cs s = unwind p.module x cs t) ∨ ∃ stack t, p.after f cs s = unwind p.module x ({ f with stack } :: cs) t := by
  obtain ⟨i, found, thrown⟩ := Option.bind_eq_some_iff.mp thrown
  rw [after_eq p cs found]
  cases stepped : step p.module f i { s with executed := s.executed + 1 } with
  | error fault t =>
    rw [stepped] at thrown
    obtain ⟨u, raised⟩ := @raise_of_raised? p.module _ _ _ _ thrown
    exact .inr ⟨f.stack, u, raised⟩
  | ok made t =>
    obtain ⟨stack, effect⟩ := made
    rw [stepped] at thrown
    have makes := ensures_step p.module f i _ _ _ stepped
    cases effect with
    | next => cases thrown
    | store slot value => cases thrown
    | jump target => cases thrown
    | leave target => cases thrown
    | exit value => exact .inl ⟨⟨i, found, makes⟩, settleAttempt_of_thrown thrown⟩
    | throw y =>
      cases thrown
      exact .inr ⟨stack, t, rfl⟩
    | call target arguments dynamic =>
      obtain ⟨u, thrown⟩ := @settleAttempt_of_thrown p.module ({ f with stack } :: cs) _ _ _ thrown
      exact .inr ⟨stack, u, thrown⟩
    | construct target arguments =>
      obtain ⟨u, thrown⟩ := @settleAttempt_of_thrown p.module ({ f with stack } :: cs) _ _ _ thrown
      exact .inr ⟨stack, u, thrown⟩

/-- What an instruction comes to that throws nothing. -/
inductive Calm (p : Program) (f : Frame) (cs : List Frame) : Stage → Prop
  | failed (fault : Fault) (t : Machine) : Calm p f cs (.error fault t)
  | runs {g : Frame} (continues : f.Continues none g) (t : Machine) : Calm p f cs (.ok (.running g cs) t)
  | calls {g : Frame} (callee : Frame) (beside : f.Beside g) (falls : f.Falls) (t : Machine) : Calm p f cs (.ok (.running callee (g :: cs)) t)
  | chains (callee : Frame) (exits : f.Exits) (t : Machine) : Calm p f cs (.ok (.running callee cs) t)
  | returns (value : Value) (exits : f.Exits) (t : Machine) : Calm p f cs (settle p.module cs (.done (.returned value)) t)

private theorem calm_goAhead (beside : f.Beside g) (falls : f.Falls) (t : Machine) : Calm p f cs (goAhead g cs t) := by
  rcases Frame.continues_goAhead beside falls cs t with ⟨fault, failed⟩ | ⟨h, continues, goes⟩
  · rw [failed]
    exact .failed fault t
  · rw [goes]
    exact .runs continues t

private theorem calm_settleAttempt {call : Running Progress} (beside : f.Beside g) (falls : f.Falls)
    (unthrown : thrownBy? (g :: cs) call s = none) : Calm p f cs (settleAttempt p.module (g :: cs) call s) := by
  rcases @settleAttempt_of_unthrown p.module _ _ _ unthrown with ⟨fault, t, failed⟩ | ⟨callee, t, entered⟩ | ⟨value, t, returned⟩
  · rw [failed]
    exact .failed fault t
  · rw [entered]
    exact .calls callee beside falls t
  · rw [returned]
    exact calm_goAhead (beside.trans (g.beside_receive value)) falls t

theorem Program.after_of_unthrown? (unthrown : p.thrown? f cs s = none) : Calm p f cs (p.after f cs s) := by
  cases found : f.activation.body.code.get? f.place with
  | none =>
    unfold Program.after
    rw [advance_of_missing found]
    exact .failed _ _
  | some i =>
    unfold Program.thrown? at unthrown
    rw [found, Option.bind_some] at unthrown
    rw [after_eq p cs found]
    cases stepped : step p.module f i { s with executed := s.executed + 1 } with
    | error fault t =>
      rw [stepped] at unthrown
      obtain ⟨u, failed⟩ := @raise_of_unraised p.module _ _ _ unthrown
      dsimp only
      rw [failed]
      exact .failed fault u
    | ok made t =>
      obtain ⟨stack, effect⟩ := made
      rw [stepped] at unthrown
      have makes := ensures_step p.module f i _ _ _ stepped
      have beside := f.beside_stack stack
      have falls : ∀ {action : Action}, i.opcode.action = action → action ∉ [Action.jump, .leave, .exit, .throw, .rethrow, .unsupported] →
          f.Falls := fun is goes => ⟨i, found, Opcode.fallsThrough_of_action is goes⟩
      cases effect with
      | next =>
        obtain ⟨jump, leave, exit, throw, rethrow, -, -⟩ := makes
        have supported : i.opcode.action ≠ .unsupported := fun none => by
          simp only [step, none] at stepped
          cases stepped
        exact calm_goAhead beside (falls rfl (by simp [jump, leave, exit, throw, rethrow, supported])) t
      | store slot value =>
        obtain ⟨fixed, stores⟩ := makes
        exact calm_goAhead (beside.trans (Frame.beside_store _ slot value)) (falls stores (by simp)) t
      | jump target =>
        obtain ⟨leads, action⟩ := makes
        have jumps : i.opcode.action ≠ .leave := by
          rcases action with action | ⟨truth, action⟩ | ⟨relation, action⟩ <;> simp [action]
        have continues : f.Continues none { f with stack, place := target } := .goes rfl rfl ⟨i, found, .inr ⟨jumps, leads⟩⟩
        exact .runs continues t
      | leave target =>
        simp only [perform]
        cases left : Frame.leave { f with stack } target with
        | error cause => exact .failed _ _
        | ok g =>
          have onward : f.activation.body.LeavesTo f.place target := ⟨i, found, makes.2, makes.1⟩
          have continues : f.Continues none g := Frame.Continues.of_beside beside (Frame.continues_of_leave onward left)
          exact .runs continues t
      | exit value =>
        rcases @settleAttempt_of_unthrown p.module _ _ _ unthrown with ⟨fault, t, failed⟩ | ⟨callee, t, entered⟩ | ⟨value, t, returned⟩
        · simp only [perform, failed]
          exact .failed fault t
        · simp only [perform, entered]
          exact .chains callee ⟨i, found, makes⟩ t
        · simp only [perform, returned]
          exact .returns value ⟨i, found, makes⟩ t
      | throw x => cases unthrown
      | call target arguments dynamic => exact calm_settleAttempt beside (falls makes (by simp)) unthrown
      | construct target arguments => exact calm_settleAttempt beside (falls makes (by simp)) unthrown

/-- How an instruction of the frame `top` continues an activation whose frame `f` stands above the frames `cs`: it enters a clause just
    where an exception is thrown that is not caught above it. -/
inductive Program.Continued (p : Program) (top : Frame) (callers : List Frame) (s : Machine) (f : Frame) (cs : List Frame) :
    Frame → List Frame → Machine → Prop
  | goes (above : List Frame) {g top' : Frame} {callers' : List Frame} {t : Machine} (whole : top' :: callers' = above ++ g :: cs)
      (calm : p.thrown? top callers s = none ∨ above ≠ []) (continues : f.Continues none g) (falls : above ≠ [] → g.Falls) :
      Continued p top callers s f cs top' callers' t
  | enters {g : Frame} {x : HeapRef} {index : Nat} {t : Machine} (thrown : p.thrown? top callers s = some x)
      (clause : f.clauseFor? p.module t.heap x = some index) (continues : f.Continues (some ⟨index, x⟩) g) :
      Continued p top callers s f cs g cs t

theorem Program.continued_of_unwind (above : List Frame) (beside : f.Beside g) (falls : above ≠ [] → f.Falls) (thrown : p.thrown? top callers s = some x)
    (unwound : unwind p.module x (above ++ g :: cs) u = .ok (.running top' callers') t) (alive : cs.length ≤ callers'.length) :
    p.Continued top callers s f cs top' callers' t := by
  have same : f.clauseFor? p.module u.heap x = g.clauseFor? p.module u.heap x := by
    unfold Frame.clauseFor?
    rw [beside.activation, beside.place]
  by_cases own : above = []
  · subst own
    rw [List.nil_append, unwind_cons] at unwound
    split at unwound
    · rename_i caught
      cases unwound
      obtain ⟨index, clause, continues⟩ := Frame.continues_of_catch? caught
      exact .enters thrown (same.trans clause) (continues.of_beside beside)
    · have short := length_of_unwind unwound
      omega
    · cases unwound
  · rcases unwind_reaches unwound alive with ⟨between, rfl⟩ | ⟨rfl, rfl, caught⟩
    · exact .goes (top' :: between) rfl (.inr nofun) (.waits beside) fun _ => beside.falls (falls own)
    · obtain ⟨index, clause, continues⟩ := Frame.continues_of_catch? caught
      exact .enters thrown (same.trans clause) (continues.of_beside beside)

/-- An instruction that throws, of the activation itself or above it, continues the activation where it is caught in time. -/
theorem Program.continued_of_thrown (whole : top :: callers = above ++ f :: cs) (stays : above = [] → ¬ f.Exits)
    (falls : above ≠ [] → f.Falls) (thrown : p.thrown? top callers s = some x)
    (after : p.after top callers s = .ok (.running top' callers') t) (alive : cs.length ≤ callers'.length) :
    p.Continued top callers s f cs top' callers' t := by
  rcases p.after_of_thrown? thrown with ⟨exits, u, unwound⟩ | ⟨stack, u, unwound⟩
  · cases above with
    | nil =>
      obtain ⟨rfl, rfl⟩ := List.cons.inj whole
      exact absurd exits (stays rfl)
    | cons first rest =>
      obtain ⟨rfl, rfl⟩ := List.cons.inj whole
      exact p.continued_of_unwind rest (.refl f) (fun _ => falls nofun) thrown (unwound.symm.trans after) alive
  · cases above with
    | nil =>
      obtain ⟨rfl, rfl⟩ := List.cons.inj whole
      have nothing : ([] : List Frame) ≠ [] → top.Falls := fun none => absurd rfl none
      exact p.continued_of_unwind [] (top.beside_stack stack) nothing thrown (unwound.symm.trans after) alive
    | cons first rest =>
      obtain ⟨rfl, rfl⟩ := List.cons.inj whole
      exact p.continued_of_unwind ({ top with stack } :: rest) (.refl f) (fun _ => falls nofun) thrown (unwound.symm.trans after) alive

/-- An instruction of the activation itself that throws nothing continues it. -/
theorem Program.continued_of_own (calm : p.thrown? f cs s = none) (stays : ¬ f.Exits)
    (after : p.after f cs s = .ok (.running top' callers') t) : p.Continued f cs s f cs top' callers' t := by
  have made := p.after_of_unthrown? calm
  rw [after] at made
  generalize came : EStateM.Result.ok (Execution.running top' callers') t = r at made
  cases made with
  | failed => cases came
  | runs continues =>
    cases came
    exact .goes [] rfl (.inl calm) continues fun none => absurd rfl none
  | calls callee beside falls =>
    cases came
    exact .goes [top'] rfl (.inl calm) (.waits beside) fun _ => beside.falls falls
  | chains callee exits => exact absurd exits stays
  | returns value exits => exact absurd exits stays

/-- The activation waits while an instruction above it throws nothing, and goes on where that is the return to it. -/
theorem Program.continued_of_above {rest : List Frame} (calm : p.thrown? top (rest ++ f :: cs) s = none) (waiting : f.Falls)
    (after : p.after top (rest ++ f :: cs) s = .ok (.running top' callers') t) :
    p.Continued top (rest ++ f :: cs) s f cs top' callers' t := by
  have made := p.after_of_unthrown? calm
  rw [after] at made
  generalize came : EStateM.Result.ok (Execution.running top' callers') t = r at made
  cases made with
  | failed => cases came
  | runs continues =>
    cases came
    exact .goes (top' :: rest) rfl (.inl calm) (.waits (.refl f)) fun _ => waiting
  | @calls g callee beside falls =>
    cases came
    exact .goes (top' :: g :: rest) rfl (.inl calm) (.waits (.refl f)) fun _ => waiting
  | chains callee exits =>
    cases came
    exact .goes (top' :: rest) rfl (.inl calm) (.waits (.refl f)) fun _ => waiting
  | returns value exits u =>
    cases rest with
    | nil =>
      rcases Frame.continues_goAhead (f.beside_receive value) waiting cs u with ⟨fault, failed⟩ | ⟨g, continues, goes⟩
      · cases came.trans failed
      · cases came.trans goes
        exact .goes [] rfl (.inl calm) continues fun none => absurd rfl none
    | cons caller rest =>
      rcases goAhead_cases (caller.receive value) (rest ++ f :: cs) u with ⟨fault, failed⟩ | ⟨place, -, goes⟩
      · cases came.trans failed
      · cases came.trans goes
        exact .goes (_ :: rest) rfl (.inl calm) (.waits (.refl f)) fun _ => waiting

/-- An instruction continues every activation that is not over. -/
theorem Program.continued (whole : top :: callers = above ++ f :: cs) (stays : above = [] → ¬ f.Exits) (falls : above ≠ [] → f.Falls)
    (after : p.after top callers s = .ok (.running top' callers') t) (alive : cs.length ≤ callers'.length) :
    p.Continued top callers s f cs top' callers' t := by
  cases thrown : p.thrown? top callers s with
  | some x => exact p.continued_of_thrown whole stays falls thrown after alive
  | none =>
    cases above with
    | nil =>
      obtain ⟨rfl, rfl⟩ := List.cons.inj whole
      exact p.continued_of_own thrown (stays rfl) after
    | cons first rest =>
      obtain ⟨rfl, rfl⟩ := List.cons.inj whole
      exact p.continued_of_above thrown (falls nofun) after

end Instructions

end AspectWeaving

import AspectWeaving.Interpreter
import AspectWeaving.Proofs.Requests

/-!
The counter of bodies and the frames. Where the interpreter counts as many bodies as there are frames, it does so as well after
each move: where a body is entered, where it is over, and where an exception or a fault gets out of it
(`Interpreting.advance_counting`). So it comes to what the machine comes to that goes by the frames, and the counter is at zero
whenever a call is over, whatever it has come to (`Interpreting.execute_counting`).
-/
namespace AspectWeaving

open Running (compute attempt)

/-! ### Counting frames -/

/-- The bodies under execution. -/
def Execution.frames : Execution → List Frame
  | .finished _ => []
  | .running top callers => top :: callers

/-- The machine on an interpreter that counts so many bodies. -/
def Machine.counting (s : Machine) (depth : Nat) : Interpreter := ⟨s, depth⟩

/-- What an execution comes to on an interpreter. -/
abbrev CountedStage := EStateM.Result Fault Interpreter Execution

/-- The stage on an interpreter that counts the bodies under execution. None is after a fault. -/
def Stage.counted : Stage → CountedStage
  | .ok e s => .ok e (s.counting e.frames.length)
  | .error fault s => .error fault (s.counting 0)

/-- What a call comes to on an interpreter that counts no body then. -/
def idleResult : EStateM.Result Fault Machine Outcome → EStateM.Result Fault Interpreter Outcome
  | .ok outcome s => .ok outcome (s.counting 0)
  | .error fault s => .error fault (s.counting 0)

namespace Interpreting

variable {α β : Type} {p : Program} {m : Module} {s : Machine} {frames callers : List Frame} {f : Frame}

theorem bind_onMachine (x : Running α) (next : α → Interpreting β) (s : Machine) (depth : Nat) :
    (onMachine x >>= next) (s.counting depth) =
      match x s with
      | .ok a t => next a (t.counting depth)
      | .error fault t => .error fault (t.counting depth) := by
  simp only [bind, EStateM.bind, onMachine, Machine.counting]
  cases x s <;> rfl

/-- A fault gives back the room of all the bodies that it gets out of. -/
theorem abandon_counting (fault : Fault) (frames : List Frame) (s : Machine) :
    (abandon fault frames : Interpreting α) (s.counting frames.length) = .error fault (s.counting 0) := by
  induction frames with
  | nil => rfl
  | cons f callers ih => exact ih

theorem bind_goOn (frames : List Frame) (e : Except Fault α) (next : α → Interpreting β) (s : Machine) :
    (goOn frames e >>= next) (s.counting frames.length) =
      match e with
      | .ok a => next a (s.counting frames.length)
      | .error fault => .error fault (s.counting 0) := by
  cases e with
  | ok a => rfl
  | error fault =>
    simp only [bind, EStateM.bind, goOn, abandon_counting]

theorem unwind_counting (m : Module) (x : HeapRef) (frames : List Frame) (s : Machine) :
    unwind m x frames (s.counting frames.length) = Stage.counted (AspectWeaving.unwind m x frames s) := by
  induction frames with
  | nil => rfl
  | cons f callers ih =>
    rw [AspectWeaving.unwind_cons]
    refine (bind_goOn (f :: callers) (f.catch? m s.heap x) _ s).trans ?_
    cases f.catch? m s.heap x with
    | error fault => rfl
    | ok found =>
      cases found with
      | some handling => rfl
      | none => exact ih

theorem raise_counting (m : Module) (fault : Fault) (frames : List Frame) (s : Machine) :
    raise m fault frames (s.counting frames.length) = Stage.counted (AspectWeaving.raise m fault frames s) := by
  cases frames with
  | nil => rfl
  | cons f callers =>
    cases seen : fault.exceptionName? with
    | none =>
      simp only [raise, AspectWeaving.raise, seen]
      exact abandon_counting fault (f :: callers) s
    | some typeName =>
      cases found : f.activation.body.code.get? f.place with
      | none =>
        simp only [raise, AspectWeaving.raise, seen, found]
        exact abandon_counting fault (f :: callers) s
      | some i =>
        simp only [raise, AspectWeaving.raise, seen, found]
        exact unwind_counting m _ (f :: callers) _

theorem goAhead_counting (f : Frame) (callers : List Frame) (s : Machine) :
    goAhead f callers (s.counting (callers.length + 1)) = Stage.counted (AspectWeaving.goAhead f callers s) := by
  refine (bind_goOn (f :: callers) (f.ahead.mapError .execution) _ s).trans ?_
  unfold AspectWeaving.goAhead
  cases f.ahead <;> rfl

theorem settle_counting (m : Module) (frames : List Frame) (progress : Progress) (s : Machine) :
    settle m frames progress (s.counting frames.length) = Stage.counted (AspectWeaving.settle m frames progress s) := by
  cases progress with
  | enter callee => rfl
  | done outcome =>
    cases outcome with
    | threw x => exact unwind_counting m x frames s
    | returned value =>
      cases frames with
      | nil => rfl
      | cons f callers => exact goAhead_counting (f.receive value) callers s

theorem settleAttempt_counting (m : Module) (frames : List Frame) (call : Nat → Running Progress) (s : Machine) :
    settleAttempt m frames call (s.counting frames.length) =
      Stage.counted (AspectWeaving.settleAttempt m frames (call frames.length) s) := by
  rw [AspectWeaving.settleAttempt_eq]
  refine (bind_onMachine (attempt (call frames.length)) _ s frames.length).trans ?_
  unfold attempt
  cases call frames.length s with
  | ok progress t => exact settle_counting m frames progress t
  | error fault t => exact raise_counting m fault frames t

theorem perform_counting (p : Program) (f : Frame) (callers : List Frame) (effect : Effect) (s : Machine) :
    perform p f callers effect (s.counting (callers.length + 1)) = Stage.counted (AspectWeaving.perform p f callers effect s) := by
  cases effect with
  | next => exact goAhead_counting f callers s
  | store slot value => exact goAhead_counting (f.store slot value) callers s
  | jump target => rfl
  | leave target =>
    refine (bind_goOn (f :: callers) ((f.leave target).mapError .execution) _ s).trans ?_
    simp only [AspectWeaving.perform]
    cases f.leave target <;> rfl
  | exit value => exact settleAttempt_counting p.module callers (complete p · f.pending (.returned value)) s
  | throw x => exact unwind_counting p.module x (f :: callers) s
  | call target arguments dynamic => exact settleAttempt_counting p.module (f :: callers) (call p · target arguments dynamic) s
  | construct target arguments =>
    exact settleAttempt_counting p.module (f :: callers) (AspectWeaving.construct p · target arguments) s

/-- Where as many bodies are counted as there are frames, they are after an instruction as well. -/
theorem advance_counting (p : Program) (f : Frame) (callers : List Frame) (s : Machine) :
    advance p f callers (s.counting (callers.length + 1)) = Stage.counted (AspectWeaving.advance p f callers s) := by
  refine (bind_goOn (f :: callers) ((f.activation.fetch f.place).mapError .execution) _ s).trans ?_
  unfold AspectWeaving.advance
  cases f.activation.fetch f.place with
  | error cause => rfl
  | ok i =>
    refine (bind_onMachine (attempt (step p.module f i)) _ s (callers.length + 1)).trans ?_
    simp only [bind, EStateM.bind, compute, pure, EStateM.pure, attempt]
    cases step p.module f i s with
    | ok result t => exact perform_counting p { f with stack := result.1 } callers result.2 t
    | error fault t => exact raise_counting p.module fault (f :: callers) t

theorem run_counting (p : Program) (budget : Nat) (e : Execution) (s : Machine) :
    run p budget e (s.counting e.frames.length) = idleResult (AspectWeaving.run p budget e s) := by
  induction budget generalizing e s with
  | zero =>
    cases e with
    | finished outcome => rfl
    | running top callers => exact abandon_counting _ (top :: callers) { s with executed := s.executed + 1 }
  | succ budget ih =>
    cases e with
    | finished outcome => rfl
    | running top callers =>
      have advanced := advance_counting p top callers { s with executed := s.executed + 1 }
      rw [Program.run_running]
      change EStateM.bind (advance p top callers) (run p budget)
        (Machine.counting { s with executed := s.executed + 1 } (callers.length + 1)) = _
      unfold EStateM.bind Program.after
      rw [advanced]
      cases AspectWeaving.advance p top callers { s with executed := s.executed + 1 } with
      | ok e t => exact ih e t
      | error fault t => rfl

theorem start_counting (p : Program) (call : Nat → Running Progress) (s : Machine) :
    start p call (s.counting 0) = Stage.counted (p.start (call 0) s) := by
  refine (bind_onMachine (call 0) _ s 0).trans ?_
  unfold Program.start
  simp only [bind, EStateM.bind]
  cases call 0 s with
  | ok progress t => exact settle_counting p.module [] progress t
  | error fault t => rfl

/-- A call comes to what it comes to on the machine, and no body is counted then. -/
theorem execute_counting (p : Program) (call : Nat → Running Progress) (s : Machine) :
    execute p call (s.counting 0) = idleResult (p.execute (call 0) s) := by
  rw [Program.execute_eq]
  unfold execute
  simp only [bind, EStateM.bind, start_counting]
  cases p.start (call 0) s with
  | ok e t => exact run_counting p _ e t
  | error fault t => rfl

/-- The stage after so many instructions, or when there are none left. -/
def goneOn (p : Program) : Nat → CountedStage → CountedStage
  | budget + 1, .ok (.running f callers) s => goneOn p budget (advance p f callers { s with executed := s.executed + 1 })
  | _, r => r

theorem goneOn_counted (p : Program) (budget : Nat) (r : Stage) : goneOn p budget r.counted = (p.trail budget r).2.counted := by
  induction budget generalizing r with
  | zero => cases r <;> rfl
  | succ budget ih =>
    match r with
    | .ok (.running f callers) s =>
      have advanced := advance_counting p f callers { s with executed := s.executed + 1 }
      change goneOn p budget (advance p f callers (Machine.counting { s with executed := s.executed + 1 } (callers.length + 1))) = _
      rw [advanced]
      exact ih _
    | .ok (.finished outcome) s => rfl
    | .error fault s => rfl

end Interpreting

/-! ### Requests -/

/-- The counter of a stage is the number of bodies under execution, which is no more than a limit. -/
def CountedStage.Counts (limit : Nat) : CountedStage → Prop
  | .ok e s => s.depth = e.frames.length ∧ s.depth ≤ limit
  | .error _ s => s.depth = 0

theorem Stage.counts {r : Stage} {limit : Nat} (few : r.depth ≤ limit) : r.counted.Counts limit := by
  match r with
  | .ok (.running f callers) s => exact ⟨rfl, few⟩
  | .ok (.finished outcome) s => exact ⟨rfl, Nat.zero_le _⟩
  | .error fault s => rfl

/-- The call that a request makes on an interpreter that counts so many bodies. -/
def HostRequest.callAt (p : Program) (depth : Nat) : HostRequest → Running Progress
  | .invoke target arguments => AspectWeaving.call p depth target arguments false
  | .construct target arguments => AspectWeaving.construct p depth target arguments

/-- What a request comes to on an interpreter. -/
def HostRequest.interpret (p : Program) : HostRequest → Interpreting Outcome
  | .invoke target arguments => Interpreting.invoke p target arguments
  | .construct target arguments => Interpreting.construct p target arguments

theorem HostRequest.interpret_counting (p : Program) (request : HostRequest) (s : Machine) :
    request.interpret p (s.counting 0) = idleResult (request.run p s) := by
  cases request <;> exact Interpreting.execute_counting p _ s

/-- What the host gets for its requests, one after another on one interpreter, and the interpreter that each of them leaves. -/
def Program.session (p : Program) : List HostAction → Interpreter → List (Except Fault Outcome × Interpreter)
  | [], _ => []
  | .register token method :: rest, s => (p.register token method).session rest s
  | .edit change :: rest, s => p.session rest { s with heap := change s.heap }
  | .request request :: rest, s =>
    match request.interpret p s with
    | .ok outcome t => (.ok outcome, t) :: p.session rest t
    | .error fault t => (.error fault, t) :: p.session rest t

/-- An interpreter that counts no body serves requests as the machine does, and counts none after each of them. -/
theorem Program.session_eq_map (p : Program) (actions : List HostAction) (s : Machine) :
    p.session actions (s.counting 0) = (p.services actions s).map fun x => (x.answer, x.after.counting 0) := by
  induction actions generalizing p s with
  | nil => rfl
  | cons action rest ih =>
    cases action with
    | register token method => exact ih _ s
    | edit change => exact ih p { s with heap := change s.heap }
    | request request =>
      have served : p.session (.request request :: rest) (s.counting 0) =
          (Service.answer ⟨p, request, s⟩, (Service.after ⟨p, request, s⟩).counting 0) ::
            p.session rest ((Service.after ⟨p, request, s⟩).counting 0) := by
        simp only [session, request.interpret_counting, Service.answer, Service.after, Service.result]
        cases request.run p s <;> rfl
      rw [served, ih]
      rfl

/-- The stage of a request on an interpreter that counts no body before, after so many instructions. -/
def Service.stage (x : Service) (instructions : Nat) : CountedStage :=
  Interpreting.goneOn x.program instructions (Interpreting.start x.program (x.request.callAt x.program) (x.machine.counting 0))

theorem Service.stage_eq (x : Service) (instructions : Nat) :
    x.stage instructions = (x.program.trail instructions x.start).2.counted := by
  unfold stage start
  rw [Interpreting.start_counting, Interpreting.goneOn_counted]
  cases x.request <;> rfl

end AspectWeaving

import AspectWeaving.Step

/-!
Execution of calls. The bodies under execution are a stack of frames, of which the top one makes a
step at a time (`advance`). A fault that the program may see becomes an exception at the frame that
made it (`raise`), and an exception leaves one frame after another until one catches it (`unwind`).
Every step takes from the number of instructions that may be executed, so every call comes to an end
(`run`), with a fault where it asks for a name that has no end; `Program.invoke` and
`Program.construct` make a call.
-/
namespace AspectWeaving

open Running (compute fail allocate note attempt)

/-- What an execution comes to after a step: it is over, or frames are left. -/
inductive Execution where
  | finished (outcome : Outcome)
  | running (top : Frame) (callers : List Frame)

/-- The exception that the program under execution sees in place of a fault. -/
def Fault.exceptionName? : Fault → Option String
  | .execution cause => cause.exceptionName?
  | _ => none

/-- Takes an exception through frames to the first that catches it. -/
def unwind (m : Module) (exception : HeapRef) : List Frame → Running Execution
  | [] => return .finished (.threw exception)
  | f :: callers => do
    match ← ofExcept (f.catch? m (← Running.heap) exception) with
    | some handling => return .running handling callers
    | none => unwind m exception callers

/-- Makes an exception of a fault of the top frame if the program may see it, and fails otherwise. -/
def raise (m : Module) (fault : Fault) : List Frame → Running Execution
  | [] => throw fault
  | f :: callers =>
    match fault.exceptionName?, f.activation.body.code.get? f.place with
    | some typeName, some i => do
      note (.raised i typeName)
      unwind m (← allocate (.exception typeName (some fault.message))) (f :: callers)
    | _, _ => throw fault

/-- Goes on behind the instruction of a frame. -/
def goAhead (f : Frame) (callers : List Frame) : Running Execution := do
  return .running (← compute f.ahead) callers

/-- Goes on with what a call of the top frame has come to. -/
def settle (m : Module) (frames : List Frame) : Progress → Running Execution
  | .enter callee => return .running callee frames
  | .done (.threw exception) => unwind m exception frames
  | .done (.returned value) =>
    match frames with
    | [] => return .finished (.returned value)
    | f :: callers => goAhead (f.receive value) callers

/-- Goes on with a call of the top frame, or raises its fault. -/
def settleAttempt (m : Module) (frames : List Frame) (call : Running Progress) : Running Execution := do
  match ← attempt call with
  | .ok progress => settle m frames progress
  | .error fault => raise m fault frames

/-- Lets an effect of the instruction of a frame happen. -/
def perform (p : Program) (f : Frame) (callers : List Frame) : Effect → Running Execution
  | .next => goAhead f callers
  | .store slot value => goAhead (f.store slot value) callers
  | .jump target => return .running { f with place := target } callers
  | .leave target => do return .running (← compute (f.leave target)) callers
  | .exit value =>
    settleAttempt p.module callers (complete p callers.length f.pending (.returned value))
  | .throw exception => unwind p.module exception (f :: callers)
  | .call target arguments dynamic =>
    settleAttempt p.module (f :: callers) (call p (callers.length + 1) target arguments dynamic)
  | .construct target arguments =>
    settleAttempt p.module (f :: callers) (construct p (callers.length + 1) target arguments)

/-- Executes the instruction of the top frame. -/
def advance (p : Program) (f : Frame) (callers : List Frame) : Running Execution := do
  let i ← compute (f.activation.fetch f.place)
  match ← attempt (step p.module f i) with
  | .error fault => raise p.module fault (f :: callers)
  | .ok (stack, effect) => perform p { f with stack } callers effect

/-- Executes instructions until a call is over, at most `budget` of them. One more is counted, though
    not executed, where they do not suffice. -/
def run (p : Program) : Nat → Execution → Running Outcome
  | _, .finished outcome => return outcome
  | 0, .running _ _ => do
    Running.count
    fail (.instructionLimitExceeded p.limits.instructions)
  | budget + 1, .running top callers => do
    Running.count
    run p budget (← advance p top callers)

namespace Program

/-- Brings a call to its end. -/
def execute (p : Program) (call : Running Progress) : Running Outcome := do
  let start ← settle p.module [] (← call)
  run p (p.limits.instructions - (← get).executed) start

/-- Calls a method. -/
def invoke (p : Program) (target : Token) (arguments : List Value) : Running Outcome :=
  p.execute (call p 0 target arguments false)

/-- Makes an object with a constructor. -/
def construct (p : Program) (target : Token) (arguments : List Value) : Running Outcome :=
  p.execute (AspectWeaving.construct p 0 target arguments)

end Program

end AspectWeaving

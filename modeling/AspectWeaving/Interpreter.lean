import AspectWeaving.Execution

/-!
The interpreter: a machine with a counter of the bodies under execution, which is kept from one
request to the next. A body that is entered takes room, and gives it back when it is over: with a
result, with an exception that gets out of it, or with a fault, which gets out of all the bodies under
execution (`Interpreting.abandon`). The limit for calls goes by the counter. Otherwise the interpreter
executes calls as `Program.execute` does, which has the number of frames in the place of the counter.
-/
namespace AspectWeaving

open Running (compute note allocate attempt)

/-- A machine, and the number of bodies under execution on it. -/
structure Interpreter extends Machine where
  depth : Nat := 0

/-- A computation on an interpreter that may fail; its changes stay if it does. -/
abbrev Interpreting := EStateM Fault Interpreter

namespace Interpreting

/-- A computation on the machine. -/
def onMachine {α : Type} (x : Running α) : Interpreting α := fun s =>
  match x s.toMachine with
  | .ok a m => .ok a { s with toMachine := m }
  | .error fault m => .error fault { s with toMachine := m }

/-- A body takes room. -/
def enter : Interpreting Unit := modify fun s => { s with depth := s.depth + 1 }

/-- A body gives its room back. -/
def leave : Interpreting Unit := modify fun s => { s with depth := s.depth - 1 }

/-- Fails, out of all the bodies under execution. -/
def abandon {α : Type} (fault : Fault) : List Frame → Interpreting α
  | [] => throw fault
  | _ :: callers => do
    leave
    abandon fault callers

/-- Goes on with a result in the top one of some frames. -/
def goOn {α : Type} (frames : List Frame) : Except Fault α → Interpreting α
  | .ok a => return a
  | .error fault => abandon fault frames

/-- Takes an exception through frames to the first that catches it. -/
def unwind (m : Module) (exception : HeapRef) : List Frame → Interpreting Execution
  | [] => return .finished (.threw exception)
  | f :: callers => do
    match ← goOn (f :: callers) (f.catch? m (← get).heap exception) with
    | some handling => return .running handling callers
    | none =>
      leave
      unwind m exception callers

/-- Makes an exception of a fault of the top frame if the program may see it, and fails otherwise. -/
def raise (m : Module) (fault : Fault) : List Frame → Interpreting Execution
  | [] => throw fault
  | f :: callers =>
    match fault.exceptionName?, f.activation.body.code.get? f.place with
    | some typeName, some i => do
      onMachine (note (.raised i typeName))
      unwind m (← onMachine (allocate (.exception typeName (some fault.message)))) (f :: callers)
    | _, _ => abandon fault (f :: callers)

/-- Goes on behind the instruction of a frame. -/
def goAhead (f : Frame) (callers : List Frame) : Interpreting Execution := do
  return .running (← goOn (f :: callers) (f.ahead.mapError .execution)) callers

/-- Goes on with what a call of the top frame has come to. -/
def settle (m : Module) (frames : List Frame) : Progress → Interpreting Execution
  | .enter callee => do
    enter
    return .running callee frames
  | .done (.threw exception) => unwind m exception frames
  | .done (.returned value) =>
    match frames with
    | [] => return .finished (.returned value)
    | f :: callers => goAhead (f.receive value) callers

/-- Goes on with a call of the top frame, or raises its fault. -/
def settleAttempt (m : Module) (frames : List Frame) (call : Nat → Running Progress) : Interpreting Execution := do
  match ← onMachine (attempt (call (← get).depth)) with
  | .ok progress => settle m frames progress
  | .error fault => raise m fault frames

/-- Lets an effect of the instruction of a frame happen. -/
def perform (p : Program) (f : Frame) (callers : List Frame) : Effect → Interpreting Execution
  | .next => goAhead f callers
  | .store slot value => goAhead (f.store slot value) callers
  | .jump target => return .running { f with place := target } callers
  | .leave target => do
    return .running (← goOn (f :: callers) ((f.leave target).mapError .execution)) callers
  | .exit value => do
    leave
    settleAttempt p.module callers (complete p · f.pending (.returned value))
  | .throw exception => unwind p.module exception (f :: callers)
  | .call target arguments dynamic => settleAttempt p.module (f :: callers) (call p · target arguments dynamic)
  | .construct target arguments => settleAttempt p.module (f :: callers) (AspectWeaving.construct p · target arguments)

/-- Executes the instruction of the top frame. -/
def advance (p : Program) (f : Frame) (callers : List Frame) : Interpreting Execution := do
  let i ← goOn (f :: callers) ((f.activation.fetch f.place).mapError .execution)
  match ← onMachine (attempt (step p.module f i)) with
  | .error fault => raise p.module fault (f :: callers)
  | .ok (stack, effect) => perform p { f with stack } callers effect

/-- Executes instructions until a call is over, at most `budget` of them. One more is counted, though
    not executed, where they do not suffice. -/
def run (p : Program) : Nat → Execution → Interpreting Outcome
  | _, .finished outcome => return outcome
  | 0, .running top callers => do
    onMachine Running.count
    abandon (.execution (.instructionLimitExceeded p.limits.instructions)) (top :: callers)
  | budget + 1, .running top callers => do
    onMachine Running.count
    run p budget (← advance p top callers)

/-- Starts a call. -/
def start (p : Program) (call : Nat → Running Progress) : Interpreting Execution := do
  settle p.module [] (← onMachine (call (← get).depth))

/-- Brings a call to its end. -/
def execute (p : Program) (call : Nat → Running Progress) : Interpreting Outcome := do
  let started ← start p call
  run p (p.limits.instructions - (← get).executed) started

/-- Calls a method. -/
def invoke (p : Program) (target : Token) (arguments : List Value) : Interpreting Outcome :=
  execute p (call p · target arguments false)

/-- Makes an object with a constructor. -/
def construct (p : Program) (target : Token) (arguments : List Value) : Interpreting Outcome :=
  execute p (AspectWeaving.construct p · target arguments)

end Interpreting

end AspectWeaving

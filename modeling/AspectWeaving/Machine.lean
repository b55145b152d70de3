import AspectWeaving.Heap
import AspectWeaving.Module

/-!
The machine that executes method bodies: what it runs (`Program`) and what it keeps from one call to
the next (`Machine`), that is the heap, the number of instructions executed, and a record of what
happened. A step of it is a computation in `Running`, which keeps its changes to the machine when it
fails. The host may stand in for methods by `HostMethod`s of its own.
-/
namespace AspectWeaving

/-- How a call ends. -/
inductive Outcome where
  | returned (value : Value)
  /-- An exception got out of the method. -/
  | threw (exception : HeapRef)

/-- How much may be executed. -/
structure Limits where
  /-- Instructions, over all calls on a machine. -/
  instructions : Nat := 1000000
  /-- Bodies under execution at the same time. -/
  callDepth : Nat := 128

/-- An implementation of a method by the host, on the arguments of a call, the object first. -/
abbrev HostMethod := List Value → EStateM Fault Heap Outcome

/-- What a machine runs. -/
structure Program where
  module : Module
  /-- The methods the host stands in for, the latest first. -/
  hostMethods : List (Token × HostMethod) := []
  limits : Limits := {}

namespace Program

/-- Lets the host stand in for a method, in the place of what it did for it before. -/
def register (p : Program) (token : Token) (method : HostMethod) : Program :=
  { p with hostMethods := (token, method) :: p.hostMethods }

/-- The host method for a token, with the token. -/
def hostMethod? (p : Program) (token : Token) : Option (Token × HostMethod) :=
  p.hostMethods.find? (·.1 == token)

end Program

/-- A call of a host method: the token it is registered for, and the arguments. -/
structure HostCall where
  method : Token
  arguments : List Value

/-- What a machine notes down while it executes. -/
inductive TraceEvent where
  | entered (method : Token)
  /-- An instruction failed, which the program sees as an exception of a type. -/
  | raised (instruction : Instruction) (typeName : String)

/-- A note as text. -/
def TraceEvent.text (m : Module) : TraceEvent → String
  | .entered method => "entering " ++ (m.methodFullName? method).getD ""
  | .raised instruction typeName => instruction.text ++ " raised " ++ typeName

/-- What is kept from one call to the next. -/
structure Machine where
  heap : Heap := {}
  executed : Nat := 0
  hostCalls : Array HostCall := #[]
  trace : Array TraceEvent := #[]

/-- A computation on a machine that may fail; its changes stay if it does. -/
abbrev Running := EStateM Fault Machine

namespace Running

/-- A computation on values and objects. -/
def compute {α : Type} : Except ExecutionFault α → Running α
  | .ok a => pure a
  | .error cause => throw (.execution cause)

/-- Fails. -/
def fail {α : Type} (cause : ExecutionFault) : Running α := throw (.execution cause)

/-- Runs a computation and gives its failure as a result. -/
def attempt {α : Type} (x : Running α) : Running (Except Fault α) := fun m =>
  match x m with
  | .ok a m => .ok (.ok a) m
  | .error fault m => .ok (.error fault) m

/-- The heap. -/
def heap : Running Heap := do return (← get).heap

/-- Makes an object, and gives the reference to it. -/
def allocate (object : HeapObject) : Running HeapRef := modifyGet fun m =>
  (m.heap.nextRef, { m with heap := m.heap.push object })

/-- Replaces the object of a reference by a function of it. -/
def modifyObject (r : HeapRef) (f : HeapObject → HeapObject) : Running Unit :=
  modify fun m => { m with heap := m.heap.modify r f }

/-- Counts an instruction. -/
def count : Running Unit := modify fun m => { m with executed := m.executed + 1 }

/-- Notes down an event. -/
def note (event : TraceEvent) : Running Unit := modify fun m => { m with trace := m.trace.push event }

/-- Calls a host method, and records the call. -/
def callHost (host : Token × HostMethod) (arguments : List Value) : Running Outcome := fun m =>
  let recorded := { m with hostCalls := m.hostCalls.push ⟨host.1, arguments⟩ }
  match host.2 arguments m.heap with
  | .ok outcome heap => .ok outcome { recorded with heap }
  | .error fault heap => .error fault { recorded with heap }

end Running

end AspectWeaving

import AspectWeaving.Inheritance
import AspectWeaving.Machine

/-!
Frames: a body under execution. What does not change meanwhile is the `Activation`, its method and
arguments; what does are the place, the slots, the evaluation stack and the catch clauses that are
under way. `Frame.catch?` looks for the clause that an exception enters: the first whose region holds
the place and whose type the exception is of.
-/
namespace AspectWeaving

/-- The execution of a body on arguments. -/
structure Activation where
  method : Token
  body : Body
  returnsValue : Bool
  arguments : Array Value
  /-- The places of the handles of the body. -/
  positions : Array Nat
  positions_eq : positions = body.code.positions

namespace Activation

/-- The execution of the body of a method on arguments. -/
def ofMethod (d : MethodDef) (body : Body) (arguments : List Value) : Activation where
  method := d.token
  body := body
  returnsValue := !d.result.isVoid
  arguments := arguments.toArray
  positions := body.code.positions
  positions_eq := rfl

/-- The instruction of a handle. -/
def fetch (a : Activation) (h : Handle) : Except ExecutionFault Instruction :=
  match a.body.code.get? h with
  | some i => .ok i
  | none => .error .invalidBranchTarget

/-- The place of a handle. -/
def position (a : Activation) (h : Handle) : Except ExecutionFault Nat :=
  match a.positions[h.index]? with
  | some position => .ok position
  | none => .error .invalidBranchTarget

/-- The handle behind a handle. -/
def next (a : Activation) (h : Handle) : Except ExecutionFault Handle :=
  match (a.positions[h.index]?).bind fun position => a.body.code.order[position + 1]? with
  | some h => .ok h
  | none => .error (.fellThroughEnd a.method)

/-- The place at which a region stops. -/
def stopPosition (a : Activation) (r : Region) : Except ExecutionFault Nat :=
  match r.stop with
  | some h => a.position h
  | none => .ok a.body.code.size

/-- A region holds a place. Where the region stops is only looked up behind its start. -/
def regionHolds (a : Activation) (r : Region) (position : Nat) : Except ExecutionFault Bool := do
  if (← a.position r.start) ≤ position then return position < (← a.stopPosition r)
  else return false

/-- The clause of an index handles exceptions at a place. -/
def handlesAt (a : Activation) (position index : Nat) : Except ExecutionFault Bool :=
  match a.body.handlers[index]? with
  | some handler => a.regionHolds handler.handling position
  | none => .ok false

/-- The value of an argument. -/
def argument (a : Activation) (index : Nat) : Except ExecutionFault Value :=
  match a.arguments[index]? with
  | some value => .ok value
  | none => .error (.argumentIndexOutOfBounds index a.arguments.size)

/-- The slots at the start. -/
def slots (a : Activation) : Array (Option Value) :=
  a.body.slots.map fun slot => if a.body.initSlots then some (Value.initial slot.sig) else none

end Activation

/-- What is to become of the outcome of a body before it gets to the code that made the call. -/
inductive Pending where
  /-- The result is the object that was initialized. -/
  | construct (object : HeapRef)
  /-- The result is one of the objects of an array; the attributes are still to become objects. -/
  | collect (objects : Array Value) (attributes : List Attribute)

/-- A catch clause under way, and the exception that entered it. -/
structure ActiveClause where
  index : Nat
  exception : HeapRef

/-- A body under execution, at an instruction. -/
structure Frame where
  activation : Activation
  /-- What is to become of the outcome, in this order. -/
  pending : List Pending
  place : Handle
  /-- The values of the slots that have one. -/
  slots : Array (Option Value)
  /-- The evaluation stack, its top first. -/
  stack : List Value := []
  /-- The catch clauses under way, the innermost first. -/
  active : List ActiveClause := []

namespace Frame

/-- The frame at the first instruction of a body. -/
def start (a : Activation) (pending : List Pending) (first : Handle) : Frame where
  activation := a
  pending := pending
  place := first
  slots := a.slots

/-- The value of a slot. -/
def slot (f : Frame) (index : Nat) : Except ExecutionFault Value :=
  match f.slots[index]? with
  | some (some value) => .ok value
  | some none => .error (.uninitializedLocal index)
  | none => .error (.localIndexOutOfBounds index f.slots.size)

/-- There is a slot of an index. -/
def checkSlot (f : Frame) (index : Nat) : Except ExecutionFault Unit :=
  if index < f.slots.size then .ok () else .error (.localIndexOutOfBounds index f.slots.size)

/-- The frame with a value in a slot. -/
def store (f : Frame) (index : Nat) (value : Value) : Frame :=
  { f with slots := f.slots.setIfInBounds index (some value) }

/-- The frame at the instruction behind its own. -/
def ahead (f : Frame) : Except ExecutionFault Frame :=
  (f.activation.next f.place).map fun h => { f with place := h }

/-- The frame with a result on its stack; a method without a result leaves the stack alone. -/
def receive (f : Frame) : Value → Frame
  | .void => f
  | value => { f with stack := value :: f.stack }

/-- Those of some clauses under way that still handle exceptions at a place. -/
def stillActive (a : Activation) (position : Nat) :
    List ActiveClause → Except ExecutionFault (List ActiveClause)
  | [] => .ok []
  | c :: rest => do
    let holds ← a.handlesAt position c.index
    let others ← stillActive a position rest
    return if holds then c :: others else others

/-- The frame at a target outside of a region, with an empty stack. -/
def leave (f : Frame) (target : Handle) : Except ExecutionFault Frame := do
  let active ← stillActive f.activation (← f.activation.position target) f.active
  return { f with place := target, stack := [], active }

/-- A clause catches an exception at a place. -/
def catches (m : Module) (h : Heap) (a : Activation) (position : Nat) (exception : HeapRef)
    (clause : Handler) : Except Fault Bool :=
  match a.regionHolds clause.guarded position with
  | .error cause => .error (.execution cause)
  | .ok false => .ok false
  | .ok true =>
    if clause.flags.isOtherClause then .error (.notSupported .clause)
    else
      match clause.catchType with
      | none => .ok true
      | some type => (isInstance m h exception type).mapError .execution

/-- The first clause with its index that catches an exception at a place, counted from `index`. -/
def findClause (m : Module) (h : Heap) (a : Activation) (position : Nat) (exception : HeapRef)
    (index : Nat) : List Handler → Except Fault (Option (Nat × Handler))
  | [] => .ok none
  | clause :: rest => do
    if ← catches m h a position exception clause then return some (index, clause)
    else findClause m h a position exception (index + 1) rest

/-- The frame in the clause that an exception at its instruction enters, if there is one. -/
def catch? (m : Module) (h : Heap) (f : Frame) (exception : HeapRef) : Except Fault (Option Frame) := do
  let a := f.activation
  let position ← (a.position f.place).mapError .execution
  let active ← (stillActive a position f.active).mapError .execution
  let found ← findClause m h a position exception 0 a.body.handlers
  return found.map fun (index, clause) =>
    { f with
      place := clause.handling.start
      stack := [.ref exception]
      active := ⟨index, exception⟩ :: active }

end Frame

end AspectWeaving

import AspectWeaving.Calculation
import AspectWeaving.Calls

/-!
The step of one instruction: from a frame to its next evaluation stack, and what is to happen next
(`Effect`). A step makes and changes objects, but it leaves the frame to the execution, and the calls
as well.
-/
namespace AspectWeaving

open Running (compute fail allocate modifyObject)

/-- What is to happen after an instruction. -/
inductive Effect where
  | next
  | store (slot : Nat) (value : Value)
  | jump (target : Handle)
  | leave (target : Handle)
  | exit (value : Value)
  | throw (exception : HeapRef)
  | call (target : Token) (arguments : List Value) (dynamic : Bool)
  | construct (target : Token) (arguments : List Value)

namespace Instruction

/-- An operand that the instruction needs. -/
def require {α : Type} (operand : MissingOperand) : Option α → Running α
  | some a => pure a
  | none => throw (.malformed (.missingOperand operand))

/-- The target of a branch. -/
def branchTarget (i : Instruction) : Running Handle :=
  match i.target? with
  | some target => pure target
  | none => fail .invalidBranchTarget

/-- The token of a call or a cast. -/
def requireToken (i : Instruction) : Running Token :=
  match i.token? with
  | some token => pure token
  | none => throw (.malformed (.missingToken i.opcode))

/-- The constant of an instruction that pushes a number. -/
def int32? (i : Instruction) : Option Int32 :=
  match i.operand with
  | .int32 value => some value
  | _ => none

/-- The constant of an instruction that pushes a long number. -/
def int64? (i : Instruction) : Option Int64 :=
  match i.operand with
  | .int64 value => some value
  | _ => none

/-- The constant of an instruction that pushes a floating-point number. -/
def real? (i : Instruction) : Option Float :=
  match i.operand with
  | .real value => some value
  | _ => none

/-- The text of an instruction that pushes one. -/
def string? (i : Instruction) : Option String :=
  match i.operand with
  | .string value => some value
  | _ => none

/-- The handle that an instruction makes of a token. -/
def handleValue? (i : Instruction) : Option Value :=
  match i.operand with
  | .method token => some (.methodHandle token)
  | .type token => some (.typeHandle token)
  | _ => none

end Instruction

/-- The top of a stack, and the rest. -/
def pop : List Value → Running (Value × List Value)
  | value :: rest => pure (value, rest)
  | [] => fail .stackUnderflow

/-- The top two values of a stack, the lower one first, and the rest. -/
def popPair (stack : List Value) : Running (Value × Value × List Value) := do
  let (b, stack) ← pop stack
  let (a, stack) ← pop stack
  return (a, b, stack)

/-- The top values of a stack, the lowest first, and the rest. -/
def popMany (count : Nat) (stack : List Value) : Running (List Value × List Value) :=
  if count ≤ stack.length then pure ((stack.take count).reverse, stack.drop count)
  else fail .stackUnderflow

/-- The value of a length that an array of it can be made with. -/
def arrayLength (value : Value) : Except ExecutionFault Nat := do
  let length ← value.asInt32
  if 0 ≤ length.toInt then return length.toInt.toNat
  else throw (.arrayIndexOutOfBounds length.toInt 0)

/-- The length of an array as a value. -/
def lengthValue (length : Nat) : Except ExecutionFault Value :=
  if length < 0x80000000 then .ok (.int32 (Int32.ofNat length))
  else .error (.stackTypeMismatch "int32" "native int")

/-- Puts a value into an array. -/
def storeElement (target : Value) (index : Int32) (value : Value) : Running Unit := do
  let some reference := target.ref? | fail .nullReference
  match ← compute ((← Running.heap).get reference) with
  | .array elements =>
    let place ← compute (Heap.elementIndex index elements.size)
    modifyObject reference fun
      | .array elements => .array (elements.setIfInBounds place value)
      | other => other
  | other => fail (Heap.mismatch "array" other)

/-- A value as an object. -/
def boxValue : Value → Running Value
  | .ref reference => return .ref reference
  | .null => return .null
  | value => return .ref (← allocate (.boxed value))

/-- The value in a box; another object stands for itself. -/
def unboxValue (h : Heap) (value : Value) : Except ExecutionFault Value := do
  match ← h.object value with
  | .boxed inner => return inner
  | _ => return value

/-- The exception that a value to throw is. -/
def thrownException : Value → Except ExecutionFault HeapRef
  | .ref exception => .ok exception
  | .null => .error .nullReference
  | other => .error (other.mismatch "object")

/-- The step of an instruction in a frame: the next stack, and what is to happen next. -/
def step (m : Module) (f : Frame) (i : Instruction) : Running (List Value × Effect) :=
  let push (value : Value) (stack : List Value) : Running (List Value × Effect) :=
    return (value :: stack, .next)
  match i.opcode.action with
  | .nothing => return (f.stack, .next)
  | .loadArgument _ => do
    let index ← Instruction.require .argument i.argument?
    push (← compute (f.activation.argument index.toNat)) f.stack
  | .loadLocal _ => do
    let index ← Instruction.require .slot i.slot?
    push (← compute (f.slot index.toNat)) f.stack
  | .storeLocal _ => do
    let index ← Instruction.require .slot i.slot?
    let (value, stack) ← pop f.stack
    compute (f.checkSlot index.toNat)
    return (stack, .store index.toNat value)
  | .pushNull => push .null f.stack
  | .pushConstant value => push (.int32 value) f.stack
  | .pushInt32 => do push (.int32 (← Instruction.require .int32 i.int32?)) f.stack
  | .pushInt64 => do push (.int64 (← Instruction.require .int64 i.int64?)) f.stack
  | .pushReal => do push (.real (← Instruction.require .float64 i.real?)) f.stack
  | .pushText => do
    let value ← Instruction.require .string i.string?
    push (.ref (← allocate (.string value))) f.stack
  | .duplicate => do
    let (value, stack) ← pop f.stack
    push value (value :: stack)
  | .discard => do
    let (_, stack) ← pop f.stack
    return (stack, .next)
  | .arithmetic operation => do
    let (a, b, stack) ← popPair f.stack
    push (← compute (operation.onValues a b)) stack
  | .negate => do
    let (value, stack) ← pop f.stack
    push (← compute (negateValue value)) stack
  | .compare relation => do
    let (a, b, stack) ← popPair f.stack
    let order ← compute (compareValues a b)
    push (.int32 (if relation.holdsIn order then 1 else 0)) stack
  | .jump => do return (f.stack, .jump (← i.branchTarget))
  | .jumpWhen truth => do
    let (value, stack) ← pop f.stack
    if (← compute value.isTrue) = truth then return (stack, .jump (← i.branchTarget))
    else return (stack, .next)
  | .jumpIf relation => do
    let (a, b, stack) ← popPair f.stack
    if relation.holdsIn (← compute (compareValues a b)) then return (stack, .jump (← i.branchTarget))
    else return (stack, .next)
  | .leave => do return (f.stack, .leave (← i.branchTarget))
  | .exit => do
    if f.activation.returnsValue then
      let (value, stack) ← pop f.stack
      return (stack, .exit value)
    else return (f.stack, .exit .void)
  | .throw => do
    let (value, stack) ← pop f.stack
    return (stack, .throw (← compute (thrownException value)))
  | .rethrow =>
    match f.active with
    | clause :: _ => return (f.stack, .throw clause.exception)
    | [] => fail .rethrowOutsideHandler
  | .call dynamic => do
    let target ← i.requireToken
    let shape ← compute (m.callShape target)
    let (arguments, stack) ← popMany shape.argumentCount f.stack
    if dynamic && (arguments.head?.map (·.isNull)).getD false then
      fail .nullReference
    return (stack, .call target arguments dynamic)
  | .construct => do
    let target ← i.requireToken
    let shape ← compute (m.callShape target)
    let (arguments, stack) ← popMany shape.parameters f.stack
    return (stack, .construct target arguments)
  | .newArray => do
    let (value, stack) ← pop f.stack
    let length ← compute (arrayLength value)
    push (.ref (← allocate (.array (Array.replicate length .null)))) stack
  | .arrayLength => do
    let (value, stack) ← pop f.stack
    let elements ← compute ((← Running.heap).array value)
    push (← compute (lengthValue elements.size)) stack
  | .loadElement => do
    let (index, stack) ← pop f.stack
    let index ← compute index.asInt32
    let (target, stack) ← pop stack
    let elements ← compute ((← Running.heap).array target)
    push (← compute (Heap.element elements index)) stack
  | .storeElement => do
    let (value, stack) ← pop f.stack
    let (index, stack) ← pop stack
    let index ← compute index.asInt32
    let (target, stack) ← pop stack
    storeElement target index value
    return (stack, .next)
  | .box => do
    let (value, stack) ← pop f.stack
    push (← boxValue value) stack
  | .unbox => do
    let (value, stack) ← pop f.stack
    push (← compute (unboxValue (← Running.heap) value)) stack
  | .cast => do
    let (value, stack) ← pop f.stack
    if let .ref reference := value then
      compute (checkCast m (← Running.heap) reference (← i.requireToken))
    push value stack
  | .loadToken => do push (← Instruction.require .token i.handleValue?) f.stack
  | .unsupported => throw (.notSupported (.opcode i.opcode))

end AspectWeaving

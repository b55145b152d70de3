import AspectWeaving.Instruction

/-!
What can go wrong, as causes. A `Malformation` is code that does not hang together, a `ShapeFault` a
method that cannot be woven, an `ExecutionFault` a run that cannot go on, and `Fault` is any of these
or a name that does not resolve. Each has its wording in one function `message`.
-/
namespace AspectWeaving

/-- An operand that an instruction needs. -/
inductive MissingOperand where
  | argument
  | slot
  | int64
  | int32
  | float64
  | string
  | token

/-- The words for an operand that is needed. -/
def MissingOperand.text : MissingOperand → String
  | .argument => "an argument index"
  | .slot => "a local index"
  | .int64 => "an int64 operand"
  | .int32 => "an int32 operand"
  | .float64 => "a float64 operand"
  | .string => "a string operand"
  | .token => "a token operand"

/-- Why code does not hang together. -/
inductive Malformation where
  | tooManySlots
  | labelMarkedTwice (label : Nat)
  | unknownLabel (label : Nat)
  | unmarkedLabel (label : Nat)
  | branchToEnd (opcode : Opcode)
  | noImplementation
  | unmarkedClauseLabel (label : Nat)
  | clauseStartsAtEnd
  | noInstructions
  | operandMismatch (instruction : Instruction)
  | deadTarget (instruction : Instruction) (place : Handle)
  | undeclaredSlot (instruction : Instruction) (slot declared : Nat)
  | deadHandlerBound (handler : Nat)
  | misorderedBounds (handler : Nat) (guarded handling : Nat × Nat)
  | returnInRegion (position : Nat)
  | fallsOffEnd (last : Instruction)
  | noInsertionPoint (anchor : Handle)
  | missingOperand (operand : MissingOperand)
  | missingToken (opcode : Opcode)

/-- A pair of positions as text. -/
def boundsText (bounds : Nat × Nat) : String := s!"({bounds.1}, {bounds.2})"

/-- The wording of a malformation. An instruction that lacks an operand of another kind than a token
    to call or to cast to is not named but stands as a placeholder. -/
def Malformation.message : Malformation → String
  | .tooManySlots => "Too many local variables"
  | .labelMarkedTwice label => s!"Label {label} marked twice"
  | .unknownLabel label => s!"Unknown label {label}"
  | .unmarkedLabel label => s!"Label {label} was never marked"
  | .branchToEnd opcode => opcode.mnemonic ++ " targets the end of the body, which holds no instruction"
  | .noImplementation => "Method body implementation is required"
  | .unmarkedClauseLabel label => s!"Catch clause label Label({label}) was never marked"
  | .clauseStartsAtEnd => "Catch clause region cannot start at the end of the body"
  | .noInstructions => "Method body has no instructions"
  | .operandMismatch instruction =>
    instruction.text ++ " carries an operand that does not match its opcode"
  | .deadTarget instruction place => instruction.text ++ " at " ++ place.text ++ " targets a dead handle"
  | .undeclaredSlot instruction slot declared =>
    instruction.text ++ s!" references local {slot} but the body declares {declared}"
  | .deadHandlerBound handler => s!"Exception handler {handler} references a dead handle"
  | .misorderedBounds handler guarded handling =>
    s!"Exception handler {handler} has misordered bounds: try {boundsText guarded}, handler {boundsText handling}"
  | .returnInRegion position => s!"`ret` at position {position} is inside a protected region or handler"
  | .fallsOffEnd last => "Control falls through the last instruction `" ++ last.text ++ "`"
  | .noInsertionPoint anchor => "Insertion point " ++ anchor.text ++ " is not part of the body"
  | .missingOperand operand => "\x7binstr\x7d without " ++ operand.text
  | .missingToken opcode => opcode.mnemonic ++ " without a token operand"

/-- Why a method cannot be woven. -/
inductive ShapeFault where
  | noBody
  | emptyBody
  | noChainedCall
  | returnsBeforeChainedCall
  | endsWithChainedCall
  | tooManyParameters
  deriving DecidableEq

/-- The wording of a shape fault. -/
def ShapeFault.message : ShapeFault → String
  | .noBody => "method has no body"
  | .emptyBody => "body has no instructions"
  | .noChainedCall => "constructor does not call a base or chained constructor"
  | .returnsBeforeChainedCall => "constructor returns before its chained constructor call"
  | .endsWithChainedCall => "constructor ends with its chained constructor call"
  | .tooManyParameters => "too many parameters"

/-- Why a run cannot go on. Those that `exceptionName?` names are exceptions of the program under
    execution; the others end the run. The last one is no failure, but stands in the place of a run that
    goes on without end. -/
inductive ExecutionFault where
  | stackUnderflow
  | stackTypeMismatch (expected found : String)
  | localIndexOutOfBounds (index count : Nat)
  | uninitializedLocal (index : Nat)
  | argumentIndexOutOfBounds (index count : Nat)
  | argumentCountMismatch (expected found : Nat)
  | invalidHeapReference (id : Nat)
  | heapTypeMismatch (expected found : String)
  | nullReference
  | divisionByZero
  | arrayIndexOutOfBounds (index : Int) (length : Nat)
  | invalidCast (expected found : String)
  | methodNotFound (token : Token)
  | invalidBranchTarget
  | fellThroughEnd (method : Token)
  | rethrowOutsideHandler
  | instructionLimitExceeded (limit : Nat)
  | callDepthExceeded (limit : Nat)
  /-- Naming the type of a token leads from row to row without end. -/
  | endlessName (type : Token)
  deriving DecidableEq

namespace ExecutionFault

/-- The name of the cause, without its circumstances. -/
def name : ExecutionFault → String
  | .stackUnderflow => "StackUnderflow"
  | .stackTypeMismatch _ _ => "StackTypeMismatch"
  | .localIndexOutOfBounds _ _ => "LocalIndexOutOfBounds"
  | .uninitializedLocal _ => "UninitializedLocal"
  | .argumentIndexOutOfBounds _ _ => "ArgumentIndexOutOfBounds"
  | .argumentCountMismatch _ _ => "ArgumentCountMismatch"
  | .invalidHeapReference _ => "InvalidHeapReference"
  | .heapTypeMismatch _ _ => "HeapTypeMismatch"
  | .nullReference => "NullReference"
  | .divisionByZero => "DivisionByZero"
  | .arrayIndexOutOfBounds _ _ => "ArrayIndexOutOfBounds"
  | .invalidCast _ _ => "InvalidCast"
  | .methodNotFound _ => "MethodNotFound"
  | .invalidBranchTarget => "InvalidBranchTarget"
  | .fellThroughEnd _ => "FellThroughEnd"
  | .rethrowOutsideHandler => "RethrowOutsideHandler"
  | .instructionLimitExceeded _ => "InstructionLimitExceeded"
  | .callDepthExceeded _ => "CallDepthExceeded"
  | .endlessName _ => "EndlessName"

/-- The wording of an execution fault. -/
def message : ExecutionFault → String
  | .stackUnderflow => "evaluation stack underflow"
  | .stackTypeMismatch expected found => s!"stack type mismatch: expected {expected}, found {found}"
  | .localIndexOutOfBounds index count => s!"local variable index {index} out of bounds (count: {count})"
  | .uninitializedLocal index => s!"local variable {index} read before being written"
  | .argumentIndexOutOfBounds index count => s!"argument index {index} out of bounds (count: {count})"
  | .argumentCountMismatch expected found => s!"expected {expected} arguments, got {found}"
  | .invalidHeapReference id => s!"invalid heap reference: {id}"
  | .heapTypeMismatch expected found => s!"heap object mismatch: expected {expected}, found {found}"
  | .nullReference => "null reference"
  | .divisionByZero => "division by zero"
  | .arrayIndexOutOfBounds index length => s!"array index {index} out of bounds (length: {length})"
  | .invalidCast expected found => s!"cannot cast {found} to {expected}"
  | .methodNotFound token => "no implementation for method " ++ token.text
  | .invalidBranchTarget => "invalid branch target"
  | .fellThroughEnd method => "execution ran past the end of method " ++ method.text
  | .rethrowOutsideHandler => "rethrow outside of a catch handler"
  | .instructionLimitExceeded limit => s!"instruction limit of {limit} exceeded"
  | .callDepthExceeded limit => s!"call depth limit of {limit} exceeded"
  | .endlessName type => "naming " ++ type.text ++ " does not end"

/-- The exception that the program under execution sees in place of the fault. -/
def exceptionName? : ExecutionFault → Option String
  | .nullReference => some "System.NullReferenceException"
  | .divisionByZero => some "System.DivideByZeroException"
  | .arrayIndexOutOfBounds _ _ => some "System.IndexOutOfRangeException"
  | .invalidCast _ _ => some "System.InvalidCastException"
  | _ => none

end ExecutionFault

/-- What the machine does not execute. -/
inductive Unsupported where
  /-- An object of a library type that is no exception. -/
  | construction (typeName : String)
  /-- A clause that is no catch clause. -/
  | clause
  | opcode (opcode : Opcode)
  /-- What a host method refuses, in its own words. -/
  | other (reason : String)

/-- The wording of something unsupported. -/
def Unsupported.message : Unsupported → String
  | .construction typeName => "cannot construct runtime type " ++ typeName
  | .clause => "finally, fault and filter clauses are not emulated"
  | .opcode o => o.mnemonic ++ " is not emulated"
  | .other reason => reason

/-- Any failure of an operation of this library. -/
inductive Fault where
  | malformed (cause : Malformation)
  | typeNotFound (name : String)
  | memberNotFound (host member : String)
  | invalidShape (method : String) (cause : ShapeFault)
  | weaveFailed (method : String) (source : Fault)
  | notSupported (cause : Unsupported)
  | execution (cause : ExecutionFault)

/-- The wording of a failure. -/
def Fault.message : Fault → String
  | .malformed cause => "Malformed - " ++ cause.message
  | .typeNotFound name => "Failed to resolve type - " ++ name
  | .memberNotFound host member => s!"Failed to resolve member `{member}` on `{host}`"
  | .invalidShape method cause => s!"Invalid method shape for `{method}` - " ++ cause.message
  | .weaveFailed method source => s!"Failed to weave `{method}` - " ++ source.message
  | .notSupported cause => "Not supported - " ++ cause.message
  | .execution cause => cause.message

end AspectWeaving

import AspectWeaving.Opcode
import AspectWeaving.Quoting
import AspectWeaving.RealText
import AspectWeaving.Token

/-!
Instructions: an opcode with an operand. A branch names its target by a handle, so code can move
without touching the branches that lead to it. Any operand may stand on any opcode;
`Instruction.operandMatches` says when the operand is of the kind the opcode takes.
-/
namespace AspectWeaving

/-- The name of an instruction within the code that holds it. -/
structure Handle where
  index : Nat
  deriving DecidableEq, Hashable, Inhabited

/-- A handle as text. -/
def Handle.text (h : Handle) : String := s!"IL#{h.index}"

/-- The operand of an instruction. -/
inductive Operand where
  | none
  | int32 (value : Int32)
  | int64 (value : Int64)
  | real (value : Float)
  | argument (index : UInt16)
  | slot (index : UInt16)
  | type (token : Token)
  | method (token : Token)
  | string (value : String)
  | target (handle : Handle)

/-- The text of an operand, led by a blank. -/
def Operand.text : Operand → String
  | .none => ""
  | .int32 value => s!" {value.toInt}"
  | .int64 value => s!" {value.toInt}"
  | .real value => " " ++ realText value
  | .argument index => s!" A_{index.toNat}"
  | .slot index => s!" V_{index.toNat}"
  | .type token | .method token => " " ++ token.text
  | .string value => " " ++ quoted value
  | .target handle => " " ++ handle.text

/-- The operand is of the kind asked for; a token may be of a type or of a method. -/
def Operand.fits : OperandKind → Operand → Bool
  | .none, .none => true
  | .int8, .int32 _ | .int32, .int32 _ => true
  | .int64, .int64 _ => true
  | .float64, .real _ => true
  | .argument8, .argument _ | .argument16, .argument _ => true
  | .local8, .slot _ | .local16, .slot _ => true
  | .target8, .target _ | .target32, .target _ => true
  | .token, .type _ | .token, .method _ => true
  | .string, .string _ => true
  | _, _ => false

/-- An opcode with its operand. -/
structure Instruction where
  opcode : Opcode
  operand : Operand := .none

namespace Instruction

/-- The assembly text. -/
def text (i : Instruction) : String := i.opcode.mnemonic ++ i.operand.text

/-- The encoded size in bytes, which depends on the opcode alone. -/
def size (i : Instruction) : Nat := i.opcode.size + i.opcode.operandKind.size

/-- Where control goes. -/
def flow (i : Instruction) : Flow := i.opcode.flow

/-- The handle an operand names, on any opcode. -/
def target? (i : Instruction) : Option Handle :=
  match i.operand with
  | .target handle => some handle
  | _ => none

/-- The token an operand names. -/
def token? (i : Instruction) : Option Token :=
  match i.operand with
  | .type token | .method token => some token
  | _ => none

/-- The argument a load reads. -/
def argument? (i : Instruction) : Option UInt16 :=
  match i.opcode.action, i.operand with
  | .loadArgument (some index), _ => some index
  | .loadArgument none, .argument index => some index
  | _, _ => none

/-- The local slot a load or a store works on. -/
def slot? (i : Instruction) : Option UInt16 :=
  match i.opcode.action, i.operand with
  | .loadLocal (some index), _ | .storeLocal (some index), _ => some index
  | .loadLocal none, .slot index | .storeLocal none, .slot index => some index
  | _, _ => none

/-- The operand is of the kind the opcode takes. -/
def operandMatches (i : Instruction) : Bool := i.operand.fits i.opcode.operandKind

/-- The instruction with the long form of its opcode, if it is a short branch. -/
def widened (i : Instruction) : Instruction :=
  match i.opcode.longForm? with
  | some long => { i with opcode := long }
  | none => i

end Instruction

end AspectWeaving

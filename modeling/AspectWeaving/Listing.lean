import AspectWeaving.Code
import AspectWeaving.Fault

/-!
Listings: code under construction, in which branches lead to labels. A label is allocated
(`Listing.newLabel`), may be marked once, at the instruction that is emitted next, and is named by
branches and catch clauses before or after it is marked. `Listing.finish` puts handles in the place
of labels; `Listing.place?` says where a label came to stand.
-/
namespace AspectWeaving

/-- What an instruction of a listing carries: an operand, or a label that is to become its target. -/
inductive PendingOperand where
  | ready (operand : Operand)
  | label (label : Nat)

/-- A catch clause between labels. -/
structure LabelledClause where
  guardedStart : Nat
  guardedStop : Nat
  handlingStart : Nat
  handlingStop : Nat
  catchType : Token

/-- Where a label stands: at an instruction, or behind the last one. -/
inductive LabelPlace where
  | instruction (handle : Handle)
  | bodyEnd
  deriving DecidableEq

/-- Code under construction. Labels are numbered in the order of their allocation, and a mark is the
    number of instructions that stand before it. -/
structure Listing where
  items : Array (Opcode × PendingOperand) := #[]
  marks : Array (Option Nat) := #[]
  clauses : Array LabelledClause := #[]

/-- A step in writing a listing. -/
inductive ListingStep where
  | label
  | mark (label : Nat)
  | emit (i : Instruction)
  | branch (opcode : Opcode) (label : Nat)
  | clause (clause : LabelledClause)

namespace Listing

/-- The label that is allocated next. -/
def nextLabel (l : Listing) : Nat := l.marks.size

/-- Allocates `nextLabel`. -/
def newLabel (l : Listing) : Listing := { l with marks := l.marks.push none }

/-- Why a label cannot be marked: it is marked already, or was never allocated. -/
def markFault? (l : Listing) (label : Nat) : Option Fault :=
  match l.marks[label]? with
  | some none => none
  | some (some _) => some (.malformed (.labelMarkedTwice label))
  | none => some (.malformed (.unknownLabel label))

/-- Puts the mark of a label at the instruction that is emitted next. -/
def setMark (l : Listing) (label : Nat) : Listing :=
  { l with marks := l.marks.setIfInBounds label (some l.items.size) }

/-- Marks a label at the instruction that is emitted next. -/
def mark (l : Listing) (label : Nat) : Except Fault Listing :=
  match l.markFault? label with
  | some fault => .error fault
  | none => .ok (l.setMark label)

/-- Adds an instruction. -/
def emit (l : Listing) (i : Instruction) : Listing :=
  { l with items := l.items.push (i.opcode, .ready i.operand) }

/-- Adds an instruction that leads to a label. -/
def branch (l : Listing) (opcode : Opcode) (label : Nat) : Listing :=
  { l with items := l.items.push (opcode, .label label) }

/-- Adds a catch clause. -/
def catchClause (l : Listing) (clause : LabelledClause) : Listing :=
  { l with clauses := l.clauses.push clause }

/-- Why a step cannot be taken; only marks fail. -/
def stepFault? (l : Listing) : ListingStep → Option Fault
  | .mark label => l.markFault? label
  | .label | .emit _ | .branch _ _ | .clause _ => none

/-- Takes a step that can be taken. -/
def perform (l : Listing) : ListingStep → Listing
  | .label => l.newLabel
  | .mark label => l.setMark label
  | .emit i => l.emit i
  | .branch opcode label => l.branch opcode label
  | .clause clause => l.catchClause clause

/-- Takes steps up to the first that fails, and gives its fault. -/
def performAll (l : Listing) : List ListingStep → Listing × Option Fault
  | [] => (l, none)
  | step :: rest =>
    match l.stepFault? step with
    | some fault => (l, some fault)
    | none => (l.perform step).performAll rest

/-- Where a label stands, if it is marked. The handle of an instruction is its place in the listing. -/
def place? (l : Listing) (label : Nat) : Option LabelPlace :=
  match l.marks[label]? with
  | some (some position) => some (if position < l.items.size then .instruction ⟨position⟩ else .bodyEnd)
  | _ => none

/-- The instruction of an item, with a handle in the place of a label. -/
def resolve (l : Listing) : Opcode × PendingOperand → Except Fault Instruction
  | (opcode, .ready operand) => .ok ⟨opcode, operand⟩
  | (opcode, .label label) =>
    match l.place? label with
    | some (.instruction handle) => .ok ⟨opcode, .target handle⟩
    | some .bodyEnd => .error (.malformed (.branchToEnd opcode))
    | none => .error (.malformed (.unmarkedLabel label))

/-- The code of a listing, or the fault of the first branch that leads nowhere. -/
def finish (l : Listing) : Except Fault Code := do
  return Code.ofList (← l.items.toList.mapM l.resolve)

end Listing

end AspectWeaving

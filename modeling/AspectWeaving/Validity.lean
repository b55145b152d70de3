import AspectWeaving.Body

/-!
Validity of method bodies. `Body.validate` looks at the instructions one by one (operand, target,
slot), then at the handlers (live and ordered bounds), then for a return inside a region, and last
for control that runs off the end; it gives the fault it meets first.
-/
namespace AspectWeaving

/-- A stretch of positions, without its last. -/
structure Span where
  start : Nat
  stop : Nat
  deriving DecidableEq

/-- The span holds a position. -/
def Span.contains (s : Span) (position : Nat) : Bool := s.start ≤ position && position < s.stop

namespace Body

/-- The positions of a region, if its bounds are live. -/
def span? (b : Body) (r : Region) : Option Span := do
  let start ← b.code.position? r.start
  let stop ← match r.stop with
    | some h => b.code.position? h
    | none => some b.code.size
  return ⟨start, stop⟩

/-- An instruction has an operand of the right kind, a live target and a declared slot. -/
def validateInstruction (b : Body) (h : Handle) (i : Instruction) : Except Fault Unit := do
  unless i.operandMatches do
    throw (.malformed (.operandMismatch i))
  if let some target := i.target? then
    unless b.code.contains target do
      throw (.malformed (.deadTarget i h))
  if let some slot := i.slot? then
    unless slot.toNat < b.slots.size do
      throw (.malformed (.undeclaredSlot i slot.toNat b.slots.size))

/-- The spans of a handler, of which neither is empty and the guarded one comes first. -/
def validateHandler (b : Body) (index : Nat) (h : Handler) : Except Fault (List Span) := do
  let (some guarded, some handling) := (b.span? h.guarded, b.span? h.handling)
    | throw (.malformed (.deadHandlerBound index))
  unless guarded.start < guarded.stop ∧ guarded.stop ≤ handling.start ∧ handling.start < handling.stop do
    throw (.malformed (.misorderedBounds index (guarded.start, guarded.stop) (handling.start, handling.stop)))
  return [guarded, handling]

/-- An instruction that returns stands outside of all spans. -/
def validateReturn (spans : List Span) (i : Instruction) (position : Nat) : Except Fault Unit :=
  if i.opcode = .ret ∧ spans.any (·.contains position) then .error (.malformed (.returnInRegion position))
  else .ok ()

/-- Finds the first fault of a body. -/
def validate (b : Body) : Except Fault Unit := do
  let entries := b.code.entries
  let some last := entries.getLast? | throw (.malformed .noInstructions)
  entries.forM fun (h, i) => b.validateInstruction h i
  let spans ← b.handlers.zipIdx.mapM fun (h, index) => b.validateHandler index h
  entries.zipIdx.forM fun ((_, i), position) => validateReturn spans.flatten i position
  if last.2.opcode.fallsThrough then
    throw (.malformed (.fallsOffEnd last.2))

end Body

end AspectWeaving

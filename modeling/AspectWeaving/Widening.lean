import AspectWeaving.Body

/-!
Widening of short branches. A short branch reaches a target at most 128 bytes back or 127 bytes ahead
of its end; `Code.widen` replaces those that do not reach theirs by the long form. A longer branch
moves the code behind it, so it goes on until every short branch left reaches its target.
-/
namespace AspectWeaving

namespace Code

/-- How far the target of a branch lies ahead of the end of the branch, in bytes, if it is in the code. -/
def displacement? (offsets : Array Nat) (h : Handle) (i : Instruction) : Option Int := do
  let place ← offsets[h.index]?
  let target ← i.target?
  let goal ← offsets[target.index]?
  return (goal : Int) - (place + i.size)

/-- A displacement fits a short branch. -/
def inShortReach (displacement : Int) : Bool := -128 ≤ displacement && displacement ≤ 127

/-- The short branches that do not reach their targets, in order. -/
def outOfReach (c : Code) : List Handle :=
  let offsets := c.offsets
  c.entries.filterMap fun (h, i) =>
    if i.opcode.isShortBranch && (displacement? offsets h i).any (!inShortReach ·) then some h else none

/-- The number of short branches. -/
def shortBranchCount (c : Code) : Nat := c.entries.countP (·.2.opcode.isShortBranch)

/-- Widens the branches of some handles. -/
def widenEach (c : Code) (handles : List Handle) : Code :=
  handles.foldl (fun c h => c.modify h Instruction.widened) c

/-- Widens branches that do not reach their targets, up to `fuel` times over, and counts them. -/
def widenRounds : Nat → Code → Code × Nat
  | 0, c => (c, 0)
  | fuel + 1, c =>
    match c.outOfReach with
    | [] => (c, 0)
    | handles =>
      let (widened, count) := widenRounds fuel (c.widenEach handles)
      (widened, handles.length + count)

/-- Widens every short branch that does not reach its target, and counts them. Each round but the last
    widens a branch, so there are no more rounds than short branches. -/
def widen (c : Code) : Code × Nat := widenRounds c.shortBranchCount c

end Code

/-- A body with its short branches widened where they have to be, and how many were. -/
def Body.widen (b : Body) : Body × Nat :=
  let (code, count) := b.code.widen
  ({ b with code }, count)

end AspectWeaving

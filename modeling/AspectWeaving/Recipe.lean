import AspectWeaving.Body
import AspectWeaving.Listing

/-!
Recipes: how to build a method body from slots and a listing. `Recipe.build` writes the listing,
puts handles in the place of its labels and turns its catch clauses into exception handlers.
-/
namespace AspectWeaving

/-- A method body to be. -/
structure Recipe where
  maxStack : Nat := defaultMaxStack
  initSlots : Bool := true
  slots : Array LocalSlot := #[]
  /-- Writes the code, if there is to be any. -/
  implementation : Option (Listing → Except Fault Listing) := none

/-- An implementation that takes steps. -/
def writing (steps : List ListingStep) (l : Listing) : Except Fault Listing :=
  match l.performAll steps with
  | (l, none) => .ok l
  | (_, some fault) => .error fault

namespace Listing

/-- Where a label of a clause stands. -/
def clauseBound (l : Listing) (label : Nat) : Except Fault (Option Handle) :=
  match l.place? label with
  | some (.instruction handle) => .ok (some handle)
  | some .bodyEnd => .ok none
  | none => .error (.malformed (.unmarkedClauseLabel label))

/-- The instruction at which a region of a clause starts. -/
def clauseStart (l : Listing) (label : Nat) : Except Fault Handle := do
  match ← l.clauseBound label with
  | some handle => return handle
  | none => throw (.malformed .clauseStartsAtEnd)

/-- The handler of a catch clause. -/
def handler (l : Listing) (clause : LabelledClause) : Except Fault Handler := do
  let guardedStart ← l.clauseStart clause.guardedStart
  let guardedStop ← l.clauseBound clause.guardedStop
  let handlingStart ← l.clauseStart clause.handlingStart
  let handlingStop ← l.clauseBound clause.handlingStop
  return { guarded := ⟨guardedStart, guardedStop⟩
           handling := ⟨handlingStart, handlingStop⟩
           catchType := some clause.catchType }

end Listing

/-- The body of a recipe. -/
def Recipe.build (r : Recipe) : Except Fault Body := do
  let some write := r.implementation | throw (.malformed .noImplementation)
  let listing ← write {}
  let code ← listing.finish
  let handlers ← listing.clauses.toList.mapM listing.handler
  return { code, handlers, slots := r.slots, initSlots := r.initSlots, maxStack := r.maxStack }

end AspectWeaving

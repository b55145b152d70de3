import AspectWeaving.Proofs.Catching
import AspectWeaving.Proofs.CompactSteps

/-!
The hook calls of an activation. Woven code calls each hook at one place (`Weave.entryCall`,
`Weave.exitCall`, `Weave.exceptionCall`). What an activation of the woven body executes are the visits
at its level, up to its return or to the first visit below (`Weave.hookCalls`). Around the calls the
woven code runs straight on, and most of it raises nothing.
-/
namespace AspectWeaving

open Running (compute fail)

/-- A call of a hook by woven code; the hook for failures gets an exception. -/
inductive HookCall where
  | onEntry
  | onExit
  | onException (exception : Value)

namespace Visit

/-- The instruction returns. -/
def returns (v : Visit) : Bool := (v.frame.activation.body.code.get? v.frame.place).any (·.opcode == .ret)

/-- An activation that has `level` frames below it is over: it returns, or a frame below goes on. -/
def ends (level : Nat) (v : Visit) : Bool :=
  v.callers.length < level || v.callers.length == level && v.returns

end Visit

/-- Fetching what a reference refers to goes straight on. -/
def WeavePlan.FetchesStraight (p : WeavePlan) : Prop := ∀ l ∈ p.parameters, ∀ i ∈ l.deref, i.Straight

namespace Weave

variable {w : Weave}

/-- The call of the hook before the old code. -/
def entryCall (w : Weave) : Handle := ⟨w.old.code.size + (w.prologue.length - 1)⟩

/-- The call of the hook behind the old code. -/
def exitCall (w : Weave) : Handle := ⟨w.places.epilogue.index + (w.epilogue.length - 2)⟩

/-- The call of the hook for failures. -/
def exceptionCall (w : Weave) : Handle := ⟨w.places.handler.index + 5⟩

/-- The hook that is called at the place of a frame. The exception lies below the method and the arguments. -/
def hookCall? (w : Weave) (f : Frame) : Option HookCall :=
  if f.place = w.entryCall then some .onEntry
  else if f.place = w.exitCall then some .onExit
  else if f.place = w.exceptionCall then some (.onException (f.stack.getD 2 .null))
  else none

/-- The hook calls of an activation that has `level` frames below it, while it is under way. -/
def hookCalls (w : Weave) (level : Nat) (visits : List Visit) : List HookCall :=
  ((visits.takeWhile fun v => !v.ends level).filter (·.callers.length == level)).filterMap (w.hookCall? ·.frame)

theorem hookCalls_snoc {level : Nat} {visits : List Visit} {v : Visit} (before : ∀ u ∈ visits, u.ends level = false)
    (under : v.ends level = false) :
    w.hookCalls level (visits ++ [v]) =
      w.hookCalls level visits ++ if v.callers.length = level then (w.hookCall? v.frame).toList else [] := by
  have going : ∀ others : List Visit, (visits ++ others).takeWhile (fun v => !v.ends level) =
      visits ++ others.takeWhile fun v => !v.ends level := fun others =>
    List.takeWhile_append_of_pos fun u member => by rw [before u member]; rfl
  have all : visits.takeWhile (fun v => !v.ends level) = visits := by simpa using going []
  unfold hookCalls
  rw [going, all, List.filter_append, List.filterMap_append]
  congr 1
  by_cases own : v.callers.length = level
  · cases called : w.hookCall? v.frame <;> simp [own, called, under]
  · simp [own, under]

/-- Nothing counts after the end of an activation. -/
theorem hookCalls_ended {level : Nat} {visits : List Visit} {v : Visit}
    (ended : (∃ u ∈ visits, u.ends level = true) ∨ v.ends level = true) :
    w.hookCalls level (visits ++ [v]) = w.hookCalls level visits := by
  unfold hookCalls
  congr 2
  induction visits with
  | nil =>
    obtain none | last := ended
    · obtain ⟨u, member, -⟩ := none
      cases member
    · simp [last]
  | cons u visits ih =>
    rw [List.cons_append, List.takeWhile_cons, List.takeWhile_cons]
    split
    · rename_i going
      have going : u.ends level = false := by simpa using going
      rw [ih]
      rcases ended with ⟨t, member, last⟩ | last
      · rcases List.mem_cons.mp member with rfl | later
        · rw [going] at last
          cases last
        · exact .inl ⟨t, later, last⟩
      · exact .inr last
    · rfl

/-! ### The parts of woven code -/

private theorem storeArgument_straight {s : WovenSlots} {l : ParameterLoad} (fetches : ∀ i ∈ l.deref, i.Straight)
    (position : Nat) : ∀ i ∈ WeavePlan.storeArgument s l position, i.Straight := by
  intro i member
  simp only [WeavePlan.storeArgument, List.mem_append, List.mem_cons, List.not_mem_nil, or_false,
    Option.mem_toList, Option.map_eq_some_iff] at member
  rcases member with (((rfl | rfl | rfl) | fetched) | ⟨type, -, rfl⟩) | rfl
  · exact (Instruction.quiet_loadSlot _).straight
  · exact Instruction.straight_pushInt32 _
  · exact Instruction.straight_loadArgument _
  · exact fetches i fetched
  · trivial
  · trivial

theorem prologue_eq (w : Weave) (fetches : w.plan.FetchesStraight) :
    ∃ front, w.prologue = front ++ [⟨.callvirt, .method w.plan.onEntry⟩] ∧ ∀ i ∈ front, i.Straight := by
  have quiet := fun index => (Instruction.quiet_loadSlot index).straight
  refine ⟨_, (List.append_assoc _ [Instruction.loadSlot w.slots.attr, Instruction.loadSlot w.slots.method,
    Instruction.loadSlot w.slots.arguments] [⟨.callvirt, .method w.plan.onEntry⟩]).symm, ?_⟩
  intro i member
  rcases List.mem_append.mp member with before | loaded
  · rcases List.mem_append.mp before with found | stored
    · simp only [List.mem_cons, List.not_mem_nil, or_false] at found
      rcases found with rfl | rfl | rfl | rfl | rfl | rfl | rfl | rfl | rfl | rfl | rfl | rfl | rfl | rfl | rfl | rfl
      all_goals first
        | trivial
        | exact quiet _
        | exact (Instruction.quiet_storeSlot _).straight
        | exact Instruction.straight_pushInt32 _
    · obtain ⟨⟨l, position⟩, listed, here⟩ := List.mem_flatMap.mp stored
      have member : l ∈ w.plan.parameters := by
        have place := List.mem_zipIdx_iff_getElem?.mp listed
        exact List.mem_of_getElem? place
      exact storeArgument_straight (fetches l member) position i here
  · simp only [List.mem_cons, List.not_mem_nil, or_false] at loaded
    rcases loaded with rfl | rfl | rfl <;> exact quiet _

theorem epilogue_eq (w : Weave) :
    ∃ front, w.epilogue = front ++ [⟨.callvirt, .method w.plan.onExit⟩, ⟨.leave, .target w.places.returnBlock⟩] ∧
      ∀ i ∈ front, i.Quiet := by
  refine ⟨(if w.plan.storesResult then [Instruction.storeSlot w.slots.result] else []) ++
      [Instruction.loadSlot w.slots.attr, Instruction.loadSlot w.slots.result] ++
      (w.plan.resultBox.map fun type => (⟨.box, .type type⟩ : Instruction)).toList ++
      [Instruction.loadSlot w.slots.method, Instruction.loadSlot w.slots.arguments], ?_, ?_⟩
  · simp [epilogue, WeavePlan.epilogue]
  · intro i member
    simp only [List.mem_append, List.mem_cons, List.not_mem_nil, or_false, Option.mem_toList, Option.map_eq_some_iff] at member
    rcases member with ((stored | rfl | rfl) | ⟨type, -, rfl⟩) | rfl | rfl
    · split at stored
      · rw [List.mem_singleton.mp stored]
        exact Instruction.quiet_storeSlot _
      · cases stored
    · exact Instruction.quiet_loadSlot _
    · exact Instruction.quiet_loadSlot _
    · exact .inr (.inr rfl)
    · exact Instruction.quiet_loadSlot _
    · exact Instruction.quiet_loadSlot _

end Weave

end AspectWeaving

import AspectWeaving.Proofs.CompactSteps
import AspectWeaving.Proofs.Housing

/-!
Walks: a frame goes through instructions that stand one after another and calls nothing meanwhile
(`Program.Walks`). The handler of a weave walks up to the call of its hook (`Weave.walks_handler`), the
epilogue up to its own (`Weave.walks_epilogue`), and from there to the return (`Weave.walks_return`).
-/
namespace AspectWeaving

open Running (compute)

variable {p : Program} {cs : List Frame} {f g h : Frame} {s t u : Machine} {lo : Nat}

/-- A frame goes from one instruction to another on its own, through handles from `lo` on, and the host
    is not called. -/
def Program.Walks (p : Program) (cs : List Frame) (lo : Nat) (f : Frame) (s : Machine) (g : Frame)
    (t : Machine) : Prop :=
  ∃ visits, p.Leads (.ok (.running f cs) s) visits (.ok (.running g cs) t) ∧
    ∀ v ∈ visits, v.callers = cs ∧ v.calls = [] ∧ lo ≤ v.frame.place.index

namespace Program

theorem Walks.refl (p : Program) (cs : List Frame) (lo : Nat) (f : Frame) (s : Machine) :
    p.Walks cs lo f s f s := ⟨[], .stay _, nofun⟩

theorem Walks.trans (first : p.Walks cs lo f s g t) (second : p.Walks cs lo g t h u) :
    p.Walks cs lo f s h u := by
  obtain ⟨visits, leads, bounds⟩ := first
  obtain ⟨others, onward, limits⟩ := second
  refine ⟨visits ++ others, leads.trans onward, fun v member => ?_⟩
  rcases List.mem_append.mp member with earlier | later
  · exact bounds v earlier
  · exact limits v later

theorem calls_of_hostCalls {r : Stage} (same : r.machine.hostCalls = s.hostCalls) : r.machine.callsSince s = [] := by
  unfold Machine.callsSince
  rw [same, ← Array.length_toList, List.drop_length]

/-- One instruction on a walk. -/
theorem Walks.one (goes : p.after f cs s = .ok (.running g cs) t) (same : t.hostCalls = s.hostCalls)
    (above : lo ≤ f.place.index) : p.Walks cs lo f s g t := by
  refine ⟨_, goes ▸ p.leads_after f cs s, fun v member => ?_⟩
  obtain rfl := List.mem_singleton.mp member
  exact ⟨rfl, calls_of_hostCalls (by rw [goes]; exact same), above⟩

end Program

/-- A frame further on in its code, with other values. -/
structure Frame.Moves (f g : Frame) (slots : Array (Option Value)) (stack : List Value) : Prop where
  activation : g.activation = f.activation
  pending : g.pending = f.pending
  active : g.active = f.active
  slots : g.slots = slots
  stack : g.stack = stack

theorem Frame.Moves.slot {slots : Array (Option Value)} {stack : List Value} (moves : f.Moves g slots stack)
    (same : h.slots = slots) (index : Nat) : g.slot index = h.slot index := by
  unfold Frame.slot
  rw [moves.slots, same]

/-! ### Instructions in a row -/

section Rows

variable (p : Program) (cs : List Frame) {position first : Nat} {done ahead : List Instruction} {i j : Instruction}

/-- A frame is at an instruction of some that stand in a row: those that are done, and those ahead. -/
structure Frame.At (f : Frame) (position first : Nat) (done ahead : List Instruction) : Prop where
  holds : f.activation.body.code.Holds position first (done ++ ahead)
  place : f.place = ⟨first + done.length⟩

/-- The frame at the next instruction of a row. -/
def Frame.onward (f : Frame) : Frame := { f with place := ⟨f.place.index + 1⟩ }

/-- A machine that has counted an instruction. -/
def Machine.counted (s : Machine) : Machine := { s with executed := s.executed + 1 }

namespace Frame.At

theorem stands (inside : f.At position first done (i :: ahead)) :
    f.activation.body.code.order[position + done.length]? = some f.place := by
  rw [inside.place]
  exact (inside.holds done.length i (by simp)).1

theorem fetch (inside : f.At position first done (i :: ahead)) :
    ∃ j, f.activation.body.code.get? f.place = some j ∧ i.Alike j := by
  obtain ⟨-, j, found, alike⟩ := inside.holds done.length i (by simp)
  exact ⟨j, inside.place ▸ found, alike⟩

theorem goAhead (inside : f.At position first done (i :: ahead)) (more : ahead ≠ []) (beside : f.Beside g)
    (s : Machine) : goAhead g cs s = .ok (.running g.onward cs) s := by
  obtain ⟨j, rest, rfl⟩ := List.exists_cons_of_ne_nil more
  have there := (inside.holds (done.length + 1) j (by simp)).1
  have next : g.activation.next g.place = .ok ⟨g.place.index + 1⟩ := by
    rw [beside.activation, beside.place]
    exact Activation.next_eq inside.stands (by rw [inside.place]; exact there)
  unfold AspectWeaving.goAhead Frame.ahead
  rw [next]
  rfl

theorem onward (inside : f.At position first done (i :: ahead)) (beside : f.Beside g) :
    g.onward.At position first (done ++ [i]) ahead where
  holds := by
    change g.activation.body.code.Holds position first (done ++ [i] ++ ahead)
    rw [beside.activation, List.append_assoc]
    exact inside.holds
  place := by
    change Handle.mk (g.place.index + 1) = _
    rw [beside.place, inside.place, List.length_append]
    rfl

/-- An instruction in a row that control goes on behind. -/
theorem walk (inside : f.At position first done (i :: ahead)) (more : ahead ≠ []) (beside : f.Beside g)
    (same : t.hostCalls = s.hostCalls) (goes : p.after f cs s = AspectWeaving.goAhead g cs t) :
    p.Walks cs first f s g.onward t := by
  refine .one (goes.trans (inside.goAhead cs more beside t)) same ?_
  rw [inside.place]
  exact Nat.le_add_right _ _

/-- An instruction in a row whose step goes on. -/
theorem next (inside : f.At position first done (i :: ahead)) (more : ahead ≠ []) (stack : List Value)
    (same : t.hostCalls = s.hostCalls)
    (steps : ∀ k, i.Alike k → step p.module f k s.counted = .ok (stack, .next) t) :
    p.Walks cs first f s { f with stack }.onward t ∧
      { f with stack }.onward.At position first (done ++ [i]) ahead := by
  obtain ⟨k, found, alike⟩ := inside.fetch
  have beside := f.beside_stack stack
  refine ⟨inside.walk p cs more beside same ?_, inside.onward beside⟩
  have stepped := steps k alike
  unfold Machine.counted at stepped
  rw [Program.after_eq p cs found, stepped]
  rfl

theorem load {slot : UInt16} (inside : f.At position first done (Instruction.loadSlot slot :: ahead))
    (more : ahead ≠ []) {v : Value} (here : f.slot slot.toNat = .ok v) (s : Machine) :
    p.Walks cs first f s { f with stack := v :: f.stack }.onward s.counted ∧
      { f with stack := v :: f.stack }.onward.At position first (done ++ [Instruction.loadSlot slot]) ahead := by
  refine inside.next p cs more _ rfl fun k alike => ?_
  rw [Instruction.step_loadSlot alike, here]
  rfl

theorem store {slot : UInt16} (inside : f.At position first done (Instruction.storeSlot slot :: ahead))
    (more : ahead ≠ []) {value : Value} {stack : List Value} (top : f.stack = value :: stack)
    (bound : slot.toNat < f.slots.size) (s : Machine) :
    p.Walks cs first f s ({ f with stack }.store slot.toNat value).onward s.counted ∧
      ({ f with stack }.store slot.toNat value).onward.At position first (done ++ [Instruction.storeSlot slot])
        ahead := by
  obtain ⟨k, found, alike⟩ := inside.fetch
  have beside := (f.beside_stack stack).trans (Frame.beside_store _ slot.toNat value)
  exact ⟨inside.walk p cs more beside rfl (Program.after_storeSlot found alike top bound cs s), inside.onward beside⟩

end Frame.At

end Rows

/-! ### Boxes -/

/-- A value as an object, with the heap that the object is in. -/
def Heap.boxed (h : Heap) : Value → Value × Heap
  | .ref r => (.ref r, h)
  | .null => (.null, h)
  | value => (.ref h.nextRef, h.push (.boxed value))

/-- A value as an object where it is to be one. -/
def Heap.boxedIf (h : Heap) (boxes : Bool) (value : Value) : Value × Heap := if boxes then h.boxed value else (value, h)

/-- The instruction that boxes a value of a type, if there is a type. -/
def boxing (type : Option Token) : List Instruction := (type.map fun t => ⟨.box, .type t⟩).toList

theorem boxValue_eq (value : Value) (s : Machine) :
    boxValue value s = .ok (s.heap.boxed value).1 { s with heap := (s.heap.boxed value).2 } := by
  cases value <;> rfl

/-- Boxing a value on the stack, where it is to be boxed. -/
theorem Frame.At.box (p : Program) (cs : List Frame) {position first : Nat} {done ahead : List Instruction} {type : Option Token}
    (inside : f.At position first done (boxing type ++ ahead)) (more : ahead ≠ []) {value : Value} {stack : List Value}
    (top : f.stack = value :: stack) (s : Machine) :
    ∃ g t, p.Walks cs first f s g t ∧
      g.At position first (done ++ boxing type) ahead ∧ t.hostCalls = s.hostCalls ∧
        t.heap = (s.heap.boxedIf type.isSome value).2 ∧
          f.Moves g f.slots ((s.heap.boxedIf type.isSome value).1 :: stack) := by
  cases type with
  | none =>
    exact ⟨f, s, .refl .., by simpa [boxing] using inside, rfl, rfl, rfl, rfl, rfl, rfl, top⟩
  | some type =>
    obtain ⟨walk, there⟩ := inside.next p cs more ((s.heap.boxed value).1 :: stack) (s := s)
      (t := { s.counted with heap := (s.heap.boxed value).2 }) rfl fun k alike => by
        have action : k.opcode.action = .box := alike.action.symm
        have boxes := boxValue_eq value s.counted
        simp only [step, action, top]
        change EStateM.bind (boxValue value) _ s.counted = _
        unfold EStateM.bind
        rw [boxes]
        rfl
    exact ⟨_, _, walk, there, rfl, rfl, rfl, rfl, rfl, rfl, rfl⟩

/-! ### The parts of woven code -/

section Parts

variable (p : Program) (cs : List Frame) {plan : WeavePlan} {k position first : Nat} {x : HeapRef} {attr method arguments value : Value}
  {stack : List Value}

/-- Two machines that differ in counts and notes only. -/
structure Machine.Agrees (s t : Machine) : Prop where
  heap : t.heap = s.heap
  hostCalls : t.hostCalls = s.hostCalls

/-- A frame keeps what the hooks are called with, in the slots from `k` on. -/
structure Frame.Keeps (f : Frame) (k : Nat) (attr method arguments : Value) : Prop where
  size : k + 5 ≤ f.slots.size
  method : f.slot k = .ok method
  attr : f.slot (k + 1) = .ok attr
  arguments : f.slot (k + 3) = .ok arguments

theorem Frame.Keeps.store (keeps : f.Keeps k attr method arguments) {index : Nat} (value : Value)
    (other : index < k ∨ index = k + 2 ∨ k + 4 ≤ index) : (f.store index value).Keeps k attr method arguments where
  size := by simpa [Frame.store] using keeps.size
  method := (Frame.slot_store_of_ne f (by omega) value).trans keeps.method
  attr := (Frame.slot_store_of_ne f (by omega) value).trans keeps.attr
  arguments := (Frame.slot_store_of_ne f (by omega) value).trans keeps.arguments

/-- The call of the hook in a handler. -/
def WeavePlan.callOnException (p : WeavePlan) : Instruction := ⟨.callvirt, .method p.onException⟩

/-- The handler up to the call of its hook. -/
def WeavePlan.toException (s : WovenSlots) : List Instruction :=
  [.storeSlot s.exception, .loadSlot s.attr, .loadSlot s.exception, .loadSlot s.method, .loadSlot s.arguments]

theorem WeavePlan.handler_eq (p : WeavePlan) (s : WovenSlots) :
    p.handler s = toException s ++ [p.callOnException, ⟨.rethrow, .none⟩] := rfl

/-- The handler walks up to the call of its hook, with the exception. -/
theorem Frame.At.walks_handler (fits : k + 5 ≤ Body.maxSlots)
    (inside : f.At position first [] (plan.handler (.startingAt k))) (top : f.stack = [.ref x])
    (keeps : f.Keeps k attr method arguments) (s : Machine) :
    ∃ g t, p.Walks cs first f s g t ∧ s.Agrees t ∧
      g.At position first (WeavePlan.toException (.startingAt k)) [plan.callOnException, ⟨.rethrow, .none⟩] ∧
        f.Moves g (f.store (k + 2) (.ref x)).slots [arguments, method, .ref x, attr] := by
  obtain ⟨m, a, e, r, -⟩ := WovenSlots.toNat_startingAt fits
  have size := keeps.size
  have kept := keeps.store (.ref x) (.inr (.inl rfl))
  have stored : (f.store (k + 2) (.ref x)).slot (k + 2) = .ok (.ref x) := f.slot_store_self (by omega) _
  obtain ⟨walk₀, inside₀⟩ := inside.store p cs (by simp) top (by rw [e]; omega) s
  obtain ⟨walk₁, inside₁⟩ := inside₀.load p cs (by simp) (v := attr) (by rw [a, e]; exact kept.attr) s.counted
  obtain ⟨walk₂, inside₂⟩ := inside₁.load p cs (by simp) (v := .ref x) (by rw [e]; exact stored)
    s.counted.counted
  obtain ⟨walk₃, inside₃⟩ := inside₂.load p cs (by simp) (v := method) (by rw [m, e]; exact kept.method)
    s.counted.counted.counted
  obtain ⟨walk₄, inside₄⟩ := inside₃.load p cs (by simp) (v := arguments)
    (by rw [r, e]; exact kept.arguments) s.counted.counted.counted.counted
  exact ⟨_, _, walk₀.trans (walk₁.trans (walk₂.trans (walk₃.trans walk₄))), ⟨rfl, rfl⟩, inside₄, rfl, rfl, rfl, by rw [e]; rfl, rfl⟩

/-- The call of the hook in an epilogue. -/
def WeavePlan.callOnExit (p : WeavePlan) : Instruction := ⟨.callvirt, .method p.onExit⟩

/-- The first instruction of an epilogue, where there is a result to store. -/
def WeavePlan.storing (p : WeavePlan) (s : WovenSlots) : List Instruction :=
  if p.storesResult then [.storeSlot s.result] else []

/-- The epilogue up to the call of its hook. -/
def WeavePlan.toExit (p : WeavePlan) (s : WovenSlots) : List Instruction :=
  p.storing s ++ [.loadSlot s.attr, .loadSlot s.result] ++ boxing p.resultBox ++
    [.loadSlot s.method, .loadSlot s.arguments]

theorem WeavePlan.epilogue_eq (p : WeavePlan) (s : WovenSlots) (goal : Handle) :
    p.epilogue s goal = p.toExit s ++ [p.callOnExit, ⟨.leave, .target goal⟩] := by
  simp [WeavePlan.epilogue, toExit, storing, boxing, callOnExit]

/-- What the epilogue finds: the result is on the stack, if it is to be stored, or in its slot. -/
def WeavePlan.Results (p : WeavePlan) (k : Nat) (f : Frame) (value : Value) (stack : List Value) : Prop :=
  if p.storesResult then f.stack = value :: stack else f.stack = stack ∧ f.slot (k + 4) = .ok value

/-- The frame that the epilogue starts from, with the result in its slot. -/
def WeavePlan.stored (p : WeavePlan) (k : Nat) (f : Frame) (value : Value) (stack : List Value) : Frame :=
  if p.storesResult then { f with stack }.store (k + 4) value else f

theorem WeavePlan.stored_slot (results : plan.Results k f value stack) (room : k + 4 < f.slots.size) :
    (plan.stored k f value stack).slot (k + 4) = .ok value ∧ (plan.stored k f value stack).stack = stack ∧
      f.Beside (plan.stored k f value stack) := by
  unfold Results at results
  unfold stored
  split at results
  · rename_i stores
    rw [if_pos stores]
    exact ⟨Frame.slot_store_self _ room value, rfl, (f.beside_stack stack).trans (Frame.beside_store _ _ value)⟩
  · rename_i stays
    rw [if_neg stays]
    exact ⟨results.2, results.1, .refl f⟩

theorem Frame.Keeps.stored (keeps : f.Keeps k attr method arguments) :
    (plan.stored k f value stack).Keeps k attr method arguments := by
  unfold WeavePlan.stored
  split
  · have beside : { f with stack }.Keeps k attr method arguments :=
      ⟨keeps.size, keeps.method, keeps.attr, keeps.arguments⟩
    exact beside.store value (.inr (.inr (Nat.le_refl _)))
  · exact keeps

/-- The epilogue walks up to the call of its hook, with the result. -/
theorem Frame.At.walks_epilogue {goal : Handle} (fits : k + 5 ≤ Body.maxSlots)
    (inside : f.At position first [] (plan.epilogue (.startingAt k) goal))
    (keeps : f.Keeps k attr method arguments) (results : plan.Results k f value stack) (s : Machine) :
    ∃ g t, p.Walks cs first f s g t ∧ t.hostCalls = s.hostCalls ∧
      t.heap = (s.heap.boxedIf plan.resultBox.isSome value).2 ∧
        g.At position first (plan.toExit (.startingAt k)) [plan.callOnExit, ⟨.leave, .target goal⟩] ∧
          (plan.stored k f value stack).Moves g (plan.stored k f value stack).slots
            (arguments :: method :: (s.heap.boxedIf plan.resultBox.isSome value).1 :: attr :: stack) := by
  obtain ⟨m, a, -, r, v⟩ := WovenSlots.toNat_startingAt fits
  obtain ⟨stored, left, beside⟩ := WeavePlan.stored_slot results keeps.size
  have kept : (plan.stored k f value stack).Keeps k attr method arguments := keeps.stored
  -- With the result in its slot, whether it had to be stored or not.
  obtain ⟨g, t, walk, inside, heap, calls, moves⟩ : ∃ g t, p.Walks cs first f s g t ∧
      g.At position first (plan.storing (.startingAt k))
        (.loadSlot (WovenSlots.startingAt k).attr :: .loadSlot (WovenSlots.startingAt k).result ::
          (boxing plan.resultBox ++ .loadSlot (WovenSlots.startingAt k).method ::
            .loadSlot (WovenSlots.startingAt k).arguments :: [plan.callOnExit, ⟨.leave, .target goal⟩])) ∧
        t.heap = s.heap ∧ t.hostCalls = s.hostCalls ∧
          (plan.stored k f value stack).Moves g (plan.stored k f value stack).slots stack := by
    simp only [WeavePlan.epilogue_eq, WeavePlan.toExit, WeavePlan.storing, WeavePlan.Results] at inside results
    simp only [WeavePlan.storing, WeavePlan.stored]
    split at inside
    · rename_i stores
      simp only [List.cons_append, List.nil_append, List.append_assoc] at inside
      simp only [stores, if_true] at results ⊢
      obtain ⟨walk, there⟩ := inside.store p cs (by simp) results
        (by rw [v]; have := keeps.size; omega) s
      exact ⟨_, _, walk, there, rfl, rfl, rfl, rfl, rfl, by rw [v]; rfl, rfl⟩
    · rename_i stays
      simp only [List.cons_append, List.nil_append, List.append_assoc] at inside
      simp only [stays, Bool.false_eq_true, if_false]
      simp only [stays, Bool.false_eq_true, if_false] at results
      exact ⟨f, s, .refl .., inside, rfl, rfl, rfl, rfl, rfl, rfl, results.1⟩
  have slot := moves.slot rfl
  obtain ⟨walk₁, inside₁⟩ := inside.load p cs (by simp) (v := attr) (by rw [a, slot]; exact kept.attr) t
  obtain ⟨walk₂, inside₂⟩ := inside₁.load p cs (by simp) (v := value) (by rw [v]; exact (slot _).trans stored)
    t.counted
  obtain ⟨g₃, t₃, walk₃, inside₃, calls₃, heap₃, moves₃⟩ := inside₂.box p cs (by simp) rfl
    t.counted.counted
  have slot₃ : ∀ index, g₃.slot index = (plan.stored k f value stack).slot index := moves₃.slot moves.slots.symm
  obtain ⟨walk₄, inside₄⟩ := inside₃.load p cs (by simp) (v := method)
    (by rw [m, slot₃]; exact kept.method) t₃
  obtain ⟨walk₅, inside₅⟩ := inside₄.load p cs (by simp) (v := arguments)
    (by rw [r]; exact (slot₃ _).trans kept.arguments) t₃.counted
  have unboxed : t.counted.counted.heap = s.heap := heap
  rw [unboxed] at heap₃ moves₃
  refine ⟨_, _, walk.trans (walk₁.trans (walk₂.trans (walk₃.trans (walk₄.trans walk₅)))), calls₃.trans calls, heap₃,
    by simpa [WeavePlan.toExit] using inside₅, ?_⟩
  exact
    { activation := moves₃.activation.trans moves.activation
      pending := moves₃.pending.trans moves.pending
      active := moves₃.active.trans moves.active
      slots := moves₃.slots.trans moves.slots
      stack := by
        change arguments :: method :: g₃.stack = _
        rw [moves₃.stack]
        change _ :: _ :: _ :: attr :: g.stack = _
        rw [moves.stack] }

/-- The return block up to its return. -/
def WeavePlan.toReturn (p : WeavePlan) (s : WovenSlots) : List Instruction :=
  if p.result.isVoid then [] else [.loadSlot s.result]

theorem WeavePlan.returnBlock_eq (p : WeavePlan) (s : WovenSlots) :
    p.returnBlock s = p.toReturn s ++ [⟨.ret, .none⟩] := by
  unfold WeavePlan.returnBlock toReturn
  split <;> rfl

/-- The return block walks up to its return, with the result if there is one. -/
theorem Frame.At.walks_returnBlock {last : Instruction} (fits : k + 5 ≤ Body.maxSlots)
    (inside : f.At position first [] (plan.toReturn (.startingAt k) ++ [last])) (slot : f.slot (k + 4) = .ok value)
    (s : Machine) :
    ∃ g t, p.Walks cs first f s g t ∧ s.Agrees t ∧ g.At position first (plan.toReturn (.startingAt k)) [last] ∧
      f.Moves g f.slots (if plan.result.isVoid then f.stack else value :: f.stack) := by
  obtain ⟨-, -, -, -, v⟩ := WovenSlots.toNat_startingAt fits
  unfold WeavePlan.toReturn at inside ⊢
  split at inside
  · rename_i void
    rw [if_pos void, if_pos void]
    exact ⟨f, s, .refl .., ⟨rfl, rfl⟩, inside, rfl, rfl, rfl, rfl, rfl⟩
  · rename_i results
    rw [if_neg results, if_neg results]
    obtain ⟨walk, there⟩ := inside.load p cs (by simp) (by rw [v]; exact slot) s
    exact ⟨_, _, walk, ⟨rfl, rfl⟩, there, rfl, rfl, rfl, rfl, rfl⟩

/-- Leaving for a place of the code, with an empty stack. -/
theorem Frame.At.walks_leave {done ahead : List Instruction} {goal : Handle} {n : Nat}
    (inside : f.At position first done (⟨.leave, .target goal⟩ :: ahead)) (live : f.activation.body.Live)
    (stands : f.activation.body.code.order[n]? = some goal) (s : Machine) :
    ∃ active, p.Walks cs first f s { f with place := goal, stack := [], active } s.counted := by
  obtain ⟨j, found, alike⟩ := inside.fetch
  obtain ⟨active, still⟩ := Frame.stillActive_isOk live n f.active
  have action : j.opcode.action = .leave := alike.action.symm
  have target : j.target? = some goal := alike.target?.symm
  have left : f.leave goal = .ok { f with place := goal, stack := [], active } := by
    unfold Frame.leave
    simp only [Activation.position_eq stands, bind, Except.bind, still]
    rfl
  refine ⟨active, .one ?_ rfl ?_⟩
  · rw [Program.after_eq p cs found]
    simp only [step, action, Instruction.branchTarget, target]
    change (do return Execution.running (← compute (f.leave goal)) cs : Running Execution) _ = _
    rw [left]
    rfl
  · rw [inside.place]
    exact Nat.le_add_right _ _

end Parts

end AspectWeaving

import AspectWeaving.Proofs.CodeOrder
import AspectWeaving.Weaving

/-!
The body that a weave makes. A `Weave` is a plan with the body it is for. The prologue goes in at some
place of the old code, which keeps its order around it; then come epilogue, handler and return block, and
one clause behind the old ones (`Weave.Splices`). For a method that is no constructor the prologue stands
first, and with its short branches widened the body is what the weave `Weave.Yields`.
-/
namespace AspectWeaving

/-- The slots of woven code from a first one on, as numbers. -/
theorem WovenSlots.toNat_startingAt {first : Nat} (room : first + 5 ≤ Body.maxSlots) :
    (startingAt first).method.toNat = first ∧ (startingAt first).attr.toNat = first + 1 ∧
      (startingAt first).exception.toNat = first + 2 ∧ (startingAt first).arguments.toNat = first + 3 ∧
        (startingAt first).result.toNat = first + 4 := by
  unfold Body.maxSlots at room
  simp only [startingAt, UInt16.toNat_ofNat']
  omega

/-- What a reference refers to is fetched by an instruction of its own. -/
def ParameterLoad.Fetches (l : ParameterLoad) : Prop :=
  ∀ i ∈ l.deref, i = ⟨.ldindRef, .none⟩ ∨ ∃ type, i = ⟨.ldobj, .type type⟩

/-- A plan and the body it is for. -/
structure Weave where
  plan : WeavePlan
  old : Body
  method : Token
  declaringType : Token

namespace Weave

/-- The slots of the woven code. -/
def slots (w : Weave) : WovenSlots := .startingAt w.old.slots.size

/-- The code before the old one. -/
def prologue (w : Weave) : List Instruction := w.plan.prologue w.slots w.method w.declaringType

/-- The places of the code behind the old one. -/
def places (w : Weave) : WovenPlaces := w.plan.places w.slots ⟨w.old.code.size + w.prologue.length⟩

/-- The code that returns come to. -/
def epilogue (w : Weave) : List Instruction := w.plan.epilogue w.slots w.places.returnBlock

/-- The code that handles exceptions. -/
def handler (w : Weave) : List Instruction := w.plan.handler w.slots

/-- The code that returns. -/
def returnBlock (w : Weave) : List Instruction := w.plan.returnBlock w.slots

/-- All that stands behind the old code. -/
def tail (w : Weave) : List Instruction := w.epilogue ++ w.handler ++ w.returnBlock

/-- The clause around the old code and the epilogue. -/
def clause (w : Weave) : Handler where
  guarded := ⟨w.plan.anchor, some w.places.handler⟩
  handling := ⟨w.places.handler, some w.places.returnBlock⟩
  catchType := some w.plan.exception

/-- The position of the epilogue. -/
def epiloguePosition (w : Weave) : Nat := w.prologue.length + w.old.code.size

/-- The position of the handler. -/
def handlerPosition (w : Weave) : Nat := w.epiloguePosition + w.epilogue.length

/-- The position of the return block. -/
def returnPosition (w : Weave) : Nat := w.handlerPosition + w.handler.length

/-- The position that a position of the old code becomes when the prologue goes in at a place. -/
def shift (w : Weave) (place n : Nat) : Nat := if n < place then n else w.prologue.length + n

/-- A body is what a weave makes of the old one with the prologue at a place, before branches are widened. -/
structure Splices (w : Weave) (place : Nat) (new : Body) : Prop where
  anchor : w.old.code.order[place]? = some w.plan.anchor
  prologue : new.code.Lists place w.old.code.size w.prologue
  order : ∀ {n h}, w.old.code.order[n]? = some h → new.code.order[w.shift place n]? = some h
  instruction : ∀ {h i}, w.old.code.get? h = some i → new.code.get? h = some (redirectReturn w.places.epilogue i)
  tail : new.code.Lists w.epiloguePosition w.places.epilogue.index w.tail
  size : new.code.size = w.returnPosition + w.returnBlock.length
  handlers : new.handlers = w.old.handlers.map (·.closedAt w.places.epilogue) ++ [w.clause]
  slots : new.slots.toList = w.old.slots.toList ++ w.plan.slots
  slotsFit : w.old.slots.size + w.plan.slots.length ≤ Body.maxSlots
  initSlots : new.initSlots = true

/-- A body is what a weave makes of the old one. -/
structure Yields (w : Weave) (new : Body) : Prop where
  /-- The protected code is all of the old code. -/
  anchor : w.old.code.first? = some w.plan.anchor
  prologue : new.code.Holds 0 w.old.code.size w.prologue
  order : ∀ {n h}, w.old.code.order[n]? = some h → new.code.order[w.prologue.length + n]? = some h
  instruction : ∀ {h i}, w.old.code.get? h = some i →
    ∃ j, new.code.get? h = some j ∧ (redirectReturn w.places.epilogue i).Alike j
  tail : new.code.Holds w.epiloguePosition w.places.epilogue.index (w.epilogue ++ w.handler ++ w.returnBlock)
  size : new.code.size = w.returnPosition + w.returnBlock.length
  handlers : new.handlers = w.old.handlers.map (·.closedAt w.places.epilogue) ++ [w.clause]
  slots : new.slots.toList = w.old.slots.toList ++ w.plan.slots
  slotsFit : w.old.slots.size + w.plan.slots.length ≤ Body.maxSlots
  initSlots : new.initSlots = true

theorem length_slots (p : WeavePlan) : p.slots.length = 5 := by simp [WeavePlan.slots]

theorem length_epilogue (p : WeavePlan) (s : WovenSlots) (goal other : Handle) :
    (p.epilogue s goal).length = (p.epilogue s other).length := by simp [WeavePlan.epilogue]

theorem places_epilogue (w : Weave) : w.places.epilogue = ⟨w.old.code.size + w.prologue.length⟩ := rfl

theorem places_handler (w : Weave) : w.places.handler = ⟨w.places.epilogue.index + w.epilogue.length⟩ := by
  unfold epilogue
  rw [length_epilogue _ _ _ ⟨w.old.code.size + w.prologue.length⟩]
  rfl

theorem places_returnBlock (w : Weave) : w.places.returnBlock = ⟨w.places.handler.index + w.handler.length⟩ := rfl

theorem length_tail (w : Weave) : w.tail.length = w.epilogue.length + w.handler.length + w.returnBlock.length := by
  simp [tail, Nat.add_assoc]

theorem length_handler (w : Weave) : w.handler.length = 7 := rfl

/-- The return block ends with its return. -/
theorem getElem?_returnBlock (w : Weave) : w.returnBlock[w.returnBlock.length - 1]? = some ⟨.ret, .none⟩ := by
  unfold returnBlock WeavePlan.returnBlock
  split <;> rfl

theorem returnBlock_pos (w : Weave) : 0 < w.returnBlock.length := by
  unfold returnBlock WeavePlan.returnBlock
  split <;> simp

theorem prologue_pos (w : Weave) : 0 < w.prologue.length := by
  simp only [prologue, WeavePlan.prologue, List.length_append, List.length_cons]
  omega

theorem epilogue_pos (w : Weave) : 0 < w.epilogue.length := by
  simp only [epilogue, WeavePlan.epilogue, List.length_append, List.length_cons]
  omega

end Weave

/-- Added slots come behind those that are there, and there is room for them. -/
theorem Body.foldlM_addSlot {b e : Body} {added : List LocalSlot} (enlarged : added.foldlM addSlot b = .ok e) :
    e.slots.toList = b.slots.toList ++ added ∧ (added = [] ∨ b.slots.size + added.length ≤ maxSlots) := by
  induction added generalizing b with
  | nil =>
    cases enlarged
    exact ⟨by simp, .inl rfl⟩
  | cons slot rest ih =>
    rw [List.foldlM_cons] at enlarged
    unfold addSlot at enlarged
    split at enlarged
    · obtain ⟨listed, room⟩ := ih enlarged
      rename_i below
      refine ⟨by simp [listed], .inr ?_⟩
      rcases room with rfl | bound
      · exact below
      · simp only [Array.size_push] at bound
        simp only [List.length_cons]
        omega
    · cases enlarged

theorem WeavePlan.maxStack_of_splice {plan : WeavePlan} {b spliced : Body} {method declaringType : Token}
    (done : plan.splice b method declaringType = .ok spliced) : spliced.maxStack = max b.maxStack wovenMaxStack := by
  unfold splice at done
  simp only [bind, Except.bind] at done
  split at done
  · cases done
  · split at done
    · cases done
      rfl
    · cases done

/-- Code that goes in at a place, and other code at the end. -/
private theorem lists_around {c : Code} {place : Nat} (before behind : List Instruction) (inside : place ≤ c.size) :
    ((c.insertAt place before).append behind).Lists place c.size before ∧
      (∀ {n : Nat} {h}, c.order[n]? = some h →
        ((c.insertAt place before).append behind).order[if n < place then n else before.length + n]? = some h) ∧
      (∀ {h i}, c.get? h = some i → ((c.insertAt place before).append behind).get? h = some i) ∧
      ((c.insertAt place before).append behind).Lists (before.length + c.size) (c.size + before.length) behind ∧
      ((c.insertAt place before).append behind).size = before.length + c.size + behind.length := by
  have instructions : ((c.insertAt place before).append behind).instructions.toList =
      c.instructions.toList ++ before ++ behind := by
    rw [Code.append_instructions]
    simp [Code.insertAt]
  have sizes : (c.insertAt place before).size = c.size + before.length := by simp [Code.size, Code.insertAt]
  have order : ((c.insertAt place before).append behind).order.toList =
      c.order.toList.take place ++ (((List.range before.length).map fun n => Handle.mk (c.size + n)) ++
        (c.order.toList.drop place ++ (List.range behind.length).map fun n => Handle.mk (c.size + before.length + n))) := by
    rw [Code.append_order, sizes]
    simp [Code.insertAt]
  have count : c.order.toList.length = c.size := by simpa using c.size_order
  have front : (c.order.toList.take place).length = place := by
    rw [List.length_take, count, Nat.min_eq_left inside]
  have middle : ((List.range before.length).map fun n => Handle.mk (c.size + n)).length = before.length := by simp
  have rest : (c.order.toList.drop place).length = c.size - place := by rw [List.length_drop, count]
  refine ⟨fun n i listed => ?_, fun {n h} stands => ?_, fun {h i} found => ?_, fun n i listed => ?_, ?_⟩
  · obtain ⟨bound, here⟩ := List.getElem?_eq_some_iff.mp listed
    constructor
    · rw [← Array.getElem?_toList, order, List.getElem?_append_right (by omega), front, Nat.add_sub_cancel_left,
        List.getElem?_append_left (by simpa using bound)]
      simp [bound]
    · rw [Code.get?, ← Array.getElem?_toList, instructions, List.append_assoc,
        List.getElem?_append_right (by simp [Code.size]), List.getElem?_append_left (by simpa [Code.size] using bound)]
      simpa [Code.size] using listed
  · rw [← Array.getElem?_toList] at stands ⊢
    have bound := (List.getElem?_eq_some_iff.mp stands).1
    rw [order]
    by_cases early : n < place
    · rw [if_pos early, List.getElem?_append_left (by omega), List.getElem?_take_of_lt early]
      exact stands
    · rw [if_neg early, List.getElem?_append_right (by omega), front,
        List.getElem?_append_right (by omega), middle, List.getElem?_append_left (by omega), List.getElem?_drop]
      rw [show place + (before.length + n - place - before.length) = n by omega]
      exact stands
  · rw [Code.get?, ← Array.getElem?_toList] at found ⊢
    rw [instructions, List.append_assoc, List.getElem?_append_left (List.getElem?_eq_some_iff.mp found).1]
    exact found
  · obtain ⟨bound, here⟩ := List.getElem?_eq_some_iff.mp listed
    constructor
    · rw [← Array.getElem?_toList, order, List.getElem?_append_right (by omega), front,
        List.getElem?_append_right (by omega), middle, List.getElem?_append_right (by omega), rest]
      rw [show before.length + c.size + n - place - before.length - (c.size - place) = n by omega]
      simp [bound]
    · rw [Code.get?, ← Array.getElem?_toList, instructions, List.getElem?_append_right (by simp [Code.size])]
      simpa [Code.size] using listed
  · have total := congrArg List.length instructions
    simp only [List.length_append, Array.length_toList] at total
    simp only [Code.size]
    omega

namespace Weave

variable {w : Weave} {place : Nat} {spliced : Body}

/-- The old code with its returns redirected. -/
def redirected (w : Weave) : Code := w.old.code.mapInstructions fun _ => redirectReturn w.places.epilogue

/-- The new code with the prologue at a place, before branches are widened. -/
def code (w : Weave) (place : Nat) : Code :=
  (w.redirected.insertAt place w.prologue).append w.tail

theorem size_redirected (w : Weave) : w.redirected.size = w.old.code.size := by
  simp [redirected, Code.size, Code.mapInstructions]

private theorem splice_eq (anchor : w.old.code.order[place]? = some w.plan.anchor)
    (done : w.plan.splice w.old w.method w.declaringType = .ok spliced) :
    spliced.code = w.code place ∧
      spliced.handlers = w.old.handlers.map (·.closedAt w.places.epilogue) ++ [w.clause] ∧
      spliced.slots.toList = w.old.slots.toList ++ w.plan.slots ∧
      w.old.slots.size + w.plan.slots.length ≤ Body.maxSlots ∧ spliced.initSlots = true := by
  have entered : w.redirected.insertAllBefore? w.plan.anchor w.prologue =
      some (w.redirected.insertAt place w.prologue) := by
    have stands : w.redirected.position? w.plan.anchor = some place := Code.position?_eq_some_iff.mpr anchor
    rw [Code.insertAllBefore?, stands]
    rfl
  unfold WeavePlan.splice at done
  simp only [bind, Except.bind] at done
  split at done
  · cases done
  · rename_i enlarged added
    obtain ⟨listed, room⟩ := Body.foldlM_addSlot added
    have room : w.old.slots.size + w.plan.slots.length ≤ Body.maxSlots := by
      rcases room with none | room
      · rw [← List.length_eq_zero_iff, length_slots] at none
        cases none
      · exact room
    split at done
    · rename_i code inserted
      obtain rfl : code = w.redirected.insertAt place w.prologue := Option.some.inj (inserted.symm.trans entered)
      obtain rfl := Except.ok.inj done
      exact ⟨rfl, rfl, listed, room, rfl⟩
    · rename_i missing
      exact (missing _ entered).elim

/-- What a plan makes of a body that holds its anchor. -/
theorem splices_of_splice (anchor : w.old.code.order[place]? = some w.plan.anchor)
    (done : w.plan.splice w.old w.method w.declaringType = .ok spliced) : w.Splices place spliced := by
  obtain ⟨code, handlers, slots, room, init⟩ := splice_eq anchor done
  have inside : place ≤ w.redirected.size := by
    have bound := (Array.getElem?_eq_some_iff.mp anchor).1
    rw [w.old.code.size_order] at bound
    rw [size_redirected]
    omega
  obtain ⟨prologue, order, instruction, tail, size⟩ := lists_around w.prologue w.tail inside
  rw [size_redirected] at prologue tail size
  exact
    { anchor
      prologue := code ▸ prologue
      order := fun stands => code ▸ order stands
      instruction := fun found =>
        code ▸ instruction (by rw [redirected, Code.get?_mapInstructions, found]; rfl)
      tail := code ▸ tail
      size := by
        rw [code]
        refine size.trans ?_
        simp only [Weave.tail, List.length_append, returnPosition, handlerPosition, epiloguePosition]
        omega
      handlers
      slots
      slotsFit := room
      initSlots := init }

/-- With the prologue first and its branches widened, a woven body is what the weave yields. -/
theorem Splices.yields (splices : w.Splices 0 spliced) : w.Yields spliced.widen.1 :=
  have widened : spliced.code.Alike spliced.widen.1.code := Code.alike_widen spliced.code
  { anchor := splices.anchor
    prologue := widened.lists splices.prologue
    order := fun stands => widened.stands (splices.order stands)
    instruction := fun found => widened.instruction (splices.instruction found)
    tail := widened.lists splices.tail
    size := widened.size.trans splices.size
    handlers := splices.handlers
    slots := splices.slots
    slotsFit := splices.slotsFit
    initSlots := splices.initSlots }

end Weave

end AspectWeaving

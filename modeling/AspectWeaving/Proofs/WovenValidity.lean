import AspectWeaving.Proofs.CompactSteps
import AspectWeaving.Proofs.Housing

/-!
Woven bodies are valid. Widening branches keeps a body valid (`Body.Valid.widen`), and so does putting the
code of a weave into it, wherever the prologue goes (`Weave.Splices.valid`): every bound of a region moves
to a later position, and none past another one (`Weave.shift_lt_shift`). What the code of a weave covers up of
an old body is not seen any more (`Weave.Splices.valid_iff`).
-/
namespace AspectWeaving

/-! ### Widening -/

section Widening

variable {b b' : Body}

theorem Code.Alike.back {c d : Code} {h : Handle} {j : Instruction} (alike : c.Alike d) (found : d.get? h = some j) :
    ∃ i, c.get? h = some i ∧ i.Alike j := by
  have inside : h.index < c.size := by
    rw [← alike.size]
    exact Code.get?_isSome_iff.mp (Option.isSome_of_eq_some found)
  obtain ⟨i, here⟩ := Option.isSome_iff_exists.mp (Code.get?_isSome_iff.mpr inside)
  obtain ⟨k, there, same⟩ := alike.instruction here
  cases found.symm.trans there
  exact ⟨i, here, same⟩

theorem Body.span?_of_alike (alike : b.code.Alike b'.code) (r : Region) : b'.span? r = b.span? r := by
  have positions : ∀ h, b'.code.position? h = b.code.position? h := fun h => by
    ext n
    rw [Code.position?_eq_some_iff, Code.position?_eq_some_iff, alike.order]
  unfold Body.span?
  rw [positions, alike.size]
  cases r.stop with
  | none => rfl
  | some h => simp only [positions]

theorem Instruction.Alike.fits {i j : Instruction} {slots size : Nat} (alike : i.Alike j) (fits : i.Fits slots size) :
    j.Fits slots size where
  operand := alike.matched ▸ fits.operand
  target goal := fits.target (alike.target?.trans goal)
  slot used := fits.slot (alike.slot?.trans used)

theorem Instruction.Alike.ret_iff {i j : Instruction} (alike : i.Alike j) : i.opcode = .ret ↔ j.opcode = .ret := by
  rw [← Opcode.action_eq_exit_iff, ← Opcode.action_eq_exit_iff, alike.action]

theorem Code.Alike.reverse {c d : Code} (alike : c.Alike d) : d.Alike c where
  order := alike.order.symm
  size := alike.size.symm
  instruction found := by
    obtain ⟨i, here, same⟩ := alike.back found
    exact ⟨i, here, same.symm⟩

/-- Bodies with the same clauses and slots are valid together, if their code is alike. -/
theorem Body.Valid.of_alike (alike : b.code.Alike b'.code) (slots : b'.slots = b.slots)
    (handlers : b'.handlers = b.handlers) (valid : b.Valid) : b'.Valid := by
  have encloses : ∀ {c guarded handling}, b.Encloses c guarded handling ↔ b'.Encloses c guarded handling := by
    intro c guarded handling
    constructor <;> intro ⟨first, second, guards, apart, handles⟩
    · exact ⟨(span?_of_alike alike _).trans first, (span?_of_alike alike _).trans second, guards, apart, handles⟩
    · exact ⟨(span?_of_alike alike _).symm.trans first, (span?_of_alike alike _).symm.trans second, guards, apart, handles⟩
  obtain ⟨h, i, ends, found, stops⟩ := valid.last
  refine ⟨?_, fun found => ?_, fun {c} member => ?_, fun {n h j c guarded handling} stands found ret member enclosed => ?_⟩
  · obtain ⟨j, there, same⟩ := alike.instruction found
    refine ⟨h, j, ?_, there, ?_⟩
    · rw [Code.last?, alike.order]
      exact ends
    · have flows : i.opcode.flow = j.opcode.flow := same.flow
      rw [Opcode.fallsThrough, ← flows]
      exact stops
  · obtain ⟨i, here, same⟩ := alike.back found
    have fits := same.fits (valid.instruction here)
    rw [alike.size, slots]
    exact fits
  · rw [handlers] at member
    obtain ⟨guarded, handling, enclosed⟩ := valid.clause member
    exact ⟨guarded, handling, encloses.mp enclosed⟩
  · rw [handlers] at member
    obtain ⟨i, here, same⟩ := alike.back found
    exact valid.returns (alike.order ▸ stands) here (same.ret_iff.mpr ret) member (encloses.mpr enclosed)

theorem Body.valid_widen_iff : b.widen.1.Valid ↔ b.Valid := by
  have alike : b.code.Alike b.widen.1.code := b.code.alike_widen
  exact ⟨.of_alike alike.reverse rfl rfl, .of_alike alike rfl rfl⟩

theorem Body.Valid.widen (valid : b.Valid) : b.widen.1.Valid := valid_widen_iff.mpr valid

end Widening

/-! ### Added instructions -/

namespace Instruction

variable {slots size : Nat} {index : UInt16}

theorem fits_plain {i : Instruction} (operand : i.operandMatches = true) (target : i.target? = none)
    (slot : i.slot? = none) : i.Fits slots size :=
  ⟨operand, fun goal => by simp [target] at goal, fun used => by simp [slot] at used⟩

theorem fits_leading {o : Opcode} {goal : Handle} (operand : (⟨o, .target goal⟩ : Instruction).operandMatches = true)
    (slot : (⟨o, .target goal⟩ : Instruction).slot? = none) (live : goal.index < size) :
    (⟨o, .target goal⟩ : Instruction).Fits slots size :=
  ⟨operand, fun same => Option.some.inj same ▸ live, fun used => by simp [slot] at used⟩

/-- An instruction of code without instructions leads nowhere. -/
theorem Fits.target?_eq_none {i : Instruction} (fits : i.Fits slots 0) : i.target? = none := by
  by_contra leads
  obtain ⟨goal, leads⟩ := Option.ne_none_iff_exists'.mp leads
  exact absurd (fits.target leads) (Nat.not_lt_zero _)

theorem fits_loadSlot (inside : index.toNat < slots) : (loadSlot index).Fits slots size := by
  have slot := (loadSlot_spec index).2
  refine ⟨?_, fun goal => ?_, fun used => by rw [slot] at used; cases used; exact inside⟩
  · unfold loadSlot
    split <;> first | rfl | (split <;> rfl)
  · unfold loadSlot at goal
    split at goal <;> cases goal

theorem fits_storeSlot (inside : index.toNat < slots) : (storeSlot index).Fits slots size := by
  have slot := (storeSlot_spec index).2
  refine ⟨?_, fun goal => ?_, fun used => by rw [slot] at used; cases used; exact inside⟩
  · unfold storeSlot
    split <;> first | rfl | (split <;> rfl)
  · unfold storeSlot at goal
    split at goal <;> cases goal

theorem fits_loadArgument : (loadArgument index).Fits slots size := by
  unfold loadArgument
  split <;> first | exact fits_plain rfl rfl rfl | (split <;> exact fits_plain rfl rfl rfl)

theorem fits_pushInt32 {value : Int32} : (pushInt32 value).Fits slots size := by
  unfold pushInt32
  split <;> first | exact fits_plain rfl rfl rfl | (split <;> exact fits_plain rfl rfl rfl)

end Instruction

/-! ### Parts of the woven code -/

/-- The slots of woven code are slots of a body. -/
structure WovenSlots.Inside (s : WovenSlots) (slots : Nat) : Prop where
  method : s.method.toNat < slots
  attr : s.attr.toNat < slots
  exception : s.exception.toNat < slots
  arguments : s.arguments.toNat < slots
  result : s.result.toNat < slots

/-- An instruction fits, and it does not return. -/
structure Instruction.Stays (i : Instruction) (slots size : Nat) : Prop where
  fits : i.Fits slots size
  ne_ret : i.opcode ≠ .ret

section Parts

open Instruction (loadArgument loadSlot storeSlot pushInt32 fits_plain)

variable {p : WeavePlan} {s : WovenSlots} {slots size : Nat} {index : UInt16}

private theorem stays_plain {i : Instruction} (operand : i.operandMatches = true) (target : i.target? = none)
    (slot : i.slot? = none) (ne : i.opcode ≠ .ret) : i.Stays slots size :=
  ⟨fits_plain operand target slot, ne⟩

private theorem stays_loadSlot (inside : index.toNat < slots) : (loadSlot index).Stays slots size := by
  obtain ⟨⟨fixed, action⟩, -⟩ := Instruction.loadSlot_spec index
  refine ⟨Instruction.fits_loadSlot inside, ?_⟩
  rw [Ne, ← Opcode.action_eq_exit_iff, action]
  nofun

private theorem stays_storeSlot (inside : index.toNat < slots) : (storeSlot index).Stays slots size := by
  obtain ⟨⟨fixed, action⟩, -⟩ := Instruction.storeSlot_spec index
  refine ⟨Instruction.fits_storeSlot inside, ?_⟩
  rw [Ne, ← Opcode.action_eq_exit_iff, action]
  nofun

private theorem stays_loadArgument : (loadArgument index).Stays slots size := by
  obtain ⟨⟨fixed, action⟩, -⟩ := Instruction.loadArgument_spec index
  refine ⟨Instruction.fits_loadArgument, ?_⟩
  rw [Ne, ← Opcode.action_eq_exit_iff, action]
  nofun

private theorem stays_pushInt32 {value : Int32} : (pushInt32 value).Stays slots size := by
  refine ⟨Instruction.fits_pushInt32, ?_⟩
  unfold pushInt32
  split <;> first | decide | (dsimp only; split <;> decide)

private theorem stays_box {type? : Option Token} :
    ∀ i ∈ (type?.map fun type => (⟨.box, .type type⟩ : Instruction)).toList, i.Stays slots size := by
  cases type? with
  | none => simp
  | some type =>
    have box : (⟨.box, .type type⟩ : Instruction).Stays slots size := stays_plain rfl rfl rfl (by simp)
    simpa using box

private theorem stays_storeArgument {l : ParameterLoad} (inside : s.Inside slots) (position : Nat)
    (fetches : l.Fetches) :
    ∀ i ∈ WeavePlan.storeArgument s l position, i.Stays slots size := by
  have fetch : ∀ i ∈ l.deref.toList, i.Stays slots size := by
    intro i member
    rcases fetches i (Option.mem_toList.mp member) with rfl | ⟨type, rfl⟩ <;>
      exact stays_plain rfl rfl rfl (by simp)
  simp only [WeavePlan.storeArgument, List.forall_mem_append, List.forall_mem_cons, List.not_mem_nil, false_implies, implies_true,
    and_true]
  exact ⟨⟨⟨⟨stays_loadSlot inside.arguments, stays_pushInt32, stays_loadArgument⟩, fetch⟩, stays_box⟩,
    stays_plain rfl rfl rfl (by simp)⟩

private theorem stays_prologue (fetches : ∀ l ∈ p.parameters, l.Fetches) (inside : s.Inside slots) (method declaringType : Token) :
    ∀ i ∈ p.prologue s method declaringType, i.Stays slots size := by
  have arguments : ∀ i ∈ p.parameters.zipIdx.flatMap fun e => WeavePlan.storeArgument s e.1 e.2,
      i.Stays slots size := by
    intro i member
    obtain ⟨e, listed, here⟩ := List.mem_flatMap.mp member
    exact stays_storeArgument inside e.2 (fetches e.1 (List.fst_mem_of_mem_zipIdx listed)) i here
  simp only [WeavePlan.prologue, List.forall_mem_append, List.forall_mem_cons, List.not_mem_nil, false_implies, implies_true,
    and_true]
  refine ⟨⟨?_, arguments⟩, ?_⟩
  all_goals
    and_intros
    all_goals first
      | exact stays_pushInt32
      | exact stays_plain rfl rfl rfl (by simp)
      | exact stays_loadSlot inside.attr
      | exact stays_loadSlot inside.method
      | exact stays_loadSlot inside.arguments
      | exact stays_storeSlot inside.attr
      | exact stays_storeSlot inside.method
      | exact stays_storeSlot inside.arguments

private theorem stays_epilogue (size : Nat) (inside : s.Inside slots) {goal : Handle} :
    ∀ i ∈ p.epilogue s goal, i.Stays slots size ∨ i = ⟨.leave, .target goal⟩ := by
  have store : ∀ i ∈ if p.storesResult then [storeSlot s.result] else [], i.Stays slots size := by
    split
    · simpa using stays_storeSlot inside.result
    · simp
  simp only [WeavePlan.epilogue, List.forall_mem_append, List.forall_mem_cons, List.not_mem_nil, false_implies, implies_true,
    and_true]
  exact ⟨⟨⟨fun i stored => .inl (store i stored), .inl (stays_loadSlot inside.attr), .inl (stays_loadSlot inside.result)⟩,
    fun i boxed => .inl (stays_box i boxed)⟩, .inl (stays_loadSlot inside.method), .inl (stays_loadSlot inside.arguments),
    .inl (stays_plain rfl rfl rfl (by simp)), .inr trivial⟩

private theorem stays_handler (inside : s.Inside slots) : ∀ i ∈ p.handler s, i.Stays slots size := by
  simp only [WeavePlan.handler, List.forall_mem_cons, List.not_mem_nil, false_implies, implies_true,
    and_true]
  exact ⟨stays_storeSlot inside.exception, stays_loadSlot inside.attr, stays_loadSlot inside.exception,
    stays_loadSlot inside.method, stays_loadSlot inside.arguments, stays_plain rfl rfl rfl (by simp),
    stays_plain rfl rfl rfl (by simp)⟩

private theorem fits_returnBlock (inside : s.Inside slots) : ∀ i ∈ p.returnBlock s, i.Fits slots size := by
  unfold WeavePlan.returnBlock
  split <;> simp only [List.forall_mem_cons, List.not_mem_nil, false_implies, implies_true,
    and_true]
  · exact fits_plain rfl rfl rfl
  · exact ⟨Instruction.fits_loadSlot inside.result, fits_plain rfl rfl rfl⟩

end Parts

/-! ### The woven body -/

namespace Weave

variable {w : Weave} {place n m : Nat}

theorem shift_lt_shift (before : n < m) : w.shift place n < w.shift place m := by
  unfold shift
  split <;> split <;> omega

theorem shift_le_shift (before : n ≤ m) : w.shift place n ≤ w.shift place m := by
  unfold shift
  split <;> split <;> omega

theorem shift_of_le (behind : place ≤ n) : w.shift place n = w.prologue.length + n := if_neg (Nat.not_lt.mpr behind)

/-- What the checks of a woven body see of the old one: instructions that do not return, and clauses. -/
structure Tolerates (w : Weave) (new : Body) : Prop where
  instruction : ∀ {h i}, w.old.code.get? h = some i → i.opcode ≠ .ret → i.Fits new.slots.size new.code.size
  clause : ∀ {c}, c ∈ w.old.handlers → ∃ guarded handling, new.Encloses (c.closedAt w.places.epilogue) guarded handling

/-- The return block returns at its end. -/
theorem returnBlock_ends {i : Instruction} (listed : w.returnBlock[n]? = some i) (ret : i.opcode = .ret) :
    n + 1 = w.returnBlock.length := by
  obtain ⟨⟨fixed, action⟩, -⟩ := Instruction.loadSlot_spec w.slots.result
  have stays : (Instruction.loadSlot w.slots.result).opcode ≠ .ret := by
    rw [Ne, ← Opcode.action_eq_exit_iff, action]
    nofun
  unfold returnBlock WeavePlan.returnBlock at listed ⊢
  by_cases none : w.plan.result.isVoid
  · rw [if_pos none] at listed ⊢
    match n, listed with
    | 0, _ => rfl
  · rw [if_neg none] at listed ⊢
    match n, listed with
    | 0, listed =>
      cases listed
      exact absurd ret stays
    | 1, _ => rfl

namespace Splices

variable {new : Body} {h : Handle} {i : Instruction} {r : Region} {s : Span}

theorem place_lt (splices : w.Splices place new) : place < w.old.code.size := by
  have bound := (Array.getElem?_eq_some_iff.mp splices.anchor).1
  rwa [w.old.code.size_order] at bound

theorem tail_order (splices : w.Splices place new) (inside : n < w.tail.length) :
    new.code.order[w.epiloguePosition + n]? = some ⟨w.places.epilogue.index + n⟩ :=
  (splices.tail n _ (List.getElem?_eq_getElem inside)).1

theorem order_epilogue (splices : w.Splices place new) :
    new.code.order[w.epiloguePosition]? = some w.places.epilogue :=
  splices.tail_order (n := 0) (by rw [length_tail]; have := w.epilogue_pos; omega)

theorem order_handler (splices : w.Splices place new) : new.code.order[w.handlerPosition]? = some w.places.handler := by
  rw [places_handler]
  exact splices.tail_order (by rw [length_tail]; have := w.length_handler; omega)

theorem order_returnBlock (splices : w.Splices place new) :
    new.code.order[w.returnPosition]? = some w.places.returnBlock := by
  have inside : w.epilogue.length + w.handler.length < w.tail.length := by
    rw [length_tail]
    have := w.returnBlock_pos
    omega
  have stands := splices.tail_order inside
  rw [← Nat.add_assoc, ← Nat.add_assoc] at stands
  rw [places_returnBlock, places_handler]
  exact stands

theorem order_anchor (splices : w.Splices place new) :
    new.code.order[w.prologue.length + place]? = some w.plan.anchor :=
  shift_of_le (w := w) (Nat.le_refl place) ▸ splices.order splices.anchor

theorem size_eq (splices : w.Splices place new) :
    new.code.size = w.prologue.length + w.old.code.size + w.tail.length := by
  rw [splices.size, length_tail, returnPosition, handlerPosition, epiloguePosition]
  omega

/-- Where an instruction of the new code comes from. -/
theorem instruction_cases (splices : w.Splices place new) (found : new.code.get? h = some i) :
    (∃ j, w.old.code.get? h = some j ∧ i = redirectReturn w.places.epilogue j) ∨
      (∃ n, h.index = w.old.code.size + n ∧ w.prologue[n]? = some i) ∨
        ∃ n, h.index = w.places.epilogue.index + n ∧ w.tail[n]? = some i := by
  have inside := Code.get?_isSome_iff.mp (Option.isSome_of_eq_some found)
  rw [splices.size_eq] at inside
  have start : w.places.epilogue.index = w.old.code.size + w.prologue.length := rfl
  by_cases old : h.index < w.old.code.size
  · obtain ⟨j, here⟩ := Option.isSome_iff_exists.mp (Code.get?_isSome_iff.mpr old)
    exact .inl ⟨j, here, Option.some.inj (found.symm.trans (splices.instruction here))⟩
  · right
    by_cases early : h.index < w.old.code.size + w.prologue.length
    · left
      obtain ⟨n, same⟩ := Nat.exists_eq_add_of_le (Nat.le_of_not_lt old)
      have bound : n < w.prologue.length := by omega
      have here := (splices.prologue n _ (List.getElem?_eq_getElem bound)).2
      rw [← same, found] at here
      exact ⟨n, same, by rw [List.getElem?_eq_getElem bound]; exact here.symm⟩
    · right
      rw [start]
      obtain ⟨n, same⟩ := Nat.exists_eq_add_of_le (Nat.le_of_not_lt early)
      have bound : n < w.tail.length := by omega
      have here := (splices.tail n _ (List.getElem?_eq_getElem bound)).2
      rw [start, ← same, found] at here
      exact ⟨n, same, by rw [List.getElem?_eq_getElem bound]; exact here.symm⟩

/-- A region holds the same instructions, and the prologue if it ran up to its place. -/
theorem span? (splices : w.Splices place new) (found : w.old.span? r = some s) :
    new.span? ⟨r.start, some (r.stop.getD w.places.epilogue)⟩ =
      some ⟨w.shift place s.start, w.shift place s.stop⟩ := by
  obtain ⟨start, stop⟩ := Body.span?_eq_some_iff.mp found
  refine Body.span?_eq_some_iff.mpr ⟨splices.order start, ?_⟩
  cases last : r.stop with
  | none =>
    rw [last] at stop
    have same : s.stop = w.old.code.size := stop
    change new.code.order[w.shift place s.stop]? = some w.places.epilogue
    rw [same, shift_of_le (Nat.le_of_lt splices.place_lt)]
    exact splices.order_epilogue
  | some h =>
    rw [last] at stop
    exact splices.order stop

theorem size_slots (splices : w.Splices place new) : new.slots.size = w.old.slots.size + 5 := by
  have listed := congrArg List.length splices.slots
  simpa [length_slots] using listed

theorem inside (splices : w.Splices place new) : w.slots.Inside new.slots.size := by
  have room := splices.slotsFit
  rw [length_slots] at room
  obtain ⟨method, attr, exception, arguments, result⟩ := WovenSlots.toNat_startingAt room
  rw [splices.size_slots]
  constructor <;> simp only [Weave.slots, method, attr, exception, arguments, result] <;> omega

/-- A clause of the old code keeps its order. -/
theorem encloses {c : Handler} {guarded handling : Span} (splices : w.Splices place new)
    (old : w.old.Encloses c guarded handling) :
    new.Encloses (c.closedAt w.places.epilogue) ⟨w.shift place guarded.start, w.shift place guarded.stop⟩
      ⟨w.shift place handling.start, w.shift place handling.stop⟩ :=
  ⟨splices.span? old.guarded_eq, splices.span? old.handling_eq, shift_lt_shift old.guards, shift_le_shift old.apart,
    shift_lt_shift old.handles⟩

theorem encloses_clause (splices : w.Splices place new) :
    new.Encloses w.clause ⟨w.prologue.length + place, w.handlerPosition⟩ ⟨w.handlerPosition, w.returnPosition⟩ := by
  refine ⟨Body.span?_eq_some_iff.mpr ⟨splices.order_anchor, splices.order_handler⟩,
    Body.span?_eq_some_iff.mpr ⟨splices.order_handler, splices.order_returnBlock⟩, ?_, Nat.le_refl _, ?_⟩
  · have := splices.place_lt
    have := w.epilogue_pos
    simp only [handlerPosition, epiloguePosition]
    omega
  · have := w.length_handler
    simp only [returnPosition]
    omega

/-- No region runs up to the end. -/
theorem stop_lt {c : Handler} {guarded handling : Span} (splices : w.Splices place new) (member : c ∈ new.handlers)
    (enclosed : new.Encloses c guarded handling) : guarded.stop < new.code.size ∧ handling.stop < new.code.size := by
  have bounded : ∀ {start stop s}, new.span? ⟨start, some stop⟩ = some s → s.stop < new.code.size := by
    intro start stop s found
    rw [← new.code.size_order]
    exact (Array.getElem?_eq_some_iff.mp (Body.span?_eq_some_iff.mp found).2).1
  rw [splices.handlers] at member
  rcases List.mem_append.mp member with before | last
  · obtain ⟨earlier, -, rfl⟩ := List.mem_map.mp before
    exact ⟨bounded enclosed.guarded_eq, bounded enclosed.handling_eq⟩
  · obtain rfl := List.mem_singleton.mp last
    exact ⟨bounded enclosed.guarded_eq, bounded enclosed.handling_eq⟩

/-- The new code ends with its return. -/
theorem last (splices : w.Splices place new) :
    ∃ h, new.code.last? = some h ∧ new.code.get? h = some ⟨.ret, .none⟩ := by
  have longer := w.returnBlock_pos
  have listed : w.tail[w.tail.length - 1]? = some ⟨.ret, .none⟩ := by
    rw [Weave.tail, List.getElem?_append_right (by simp; omega), ← w.getElem?_returnBlock]
    congr 1
    simp only [List.length_append]
    omega
  obtain ⟨stands, here⟩ := splices.tail _ _ listed
  refine ⟨_, ?_, here⟩
  rw [Code.last?, Array.back?_eq_getElem?, new.code.size_order, ← stands, splices.size_eq, epiloguePosition]
  congr 1
  rw [length_tail]
  omega

variable (splices : w.Splices place new) (fetches : ∀ l ∈ w.plan.parameters, l.Fetches)

include splices fetches

/-- No instruction of the prologue leads anywhere but on. -/
theorem target?_prologue (member : i ∈ w.prologue) : i.target? = none := by
  have stays : i.Stays new.slots.size 0 := stays_prologue fetches splices.inside _ _ i member
  exact stays.fits.target?_eq_none

omit fetches in
/-- Of the code behind the old one only the epilogue leads anywhere. -/
theorem target?_tail {goal : Handle} (member : i ∈ w.tail) (leads : i.target? = some goal) :
    goal = w.places.returnBlock := by
  have none : ∀ {j : Instruction}, j.Fits new.slots.size 0 → j = i → goal = w.places.returnBlock := by
    rintro _ fits rfl
    rw [fits.target?_eq_none] at leads
    cases leads
  rcases List.mem_append.mp member with before | last
  · rcases List.mem_append.mp before with first | second
    · rcases stays_epilogue 0 splices.inside i first with stays | rfl
      · exact none stays.fits rfl
      · exact (Option.some.inj leads).symm
    · exact none (stays_handler splices.inside i second).fits rfl
  · exact none (fits_returnBlock splices.inside i last) rfl

private theorem fits_added (found : new.code.get? h = some i)
    (old : ∀ {g j}, w.old.code.get? g = some j → j.opcode ≠ .ret → j.Fits new.slots.size new.code.size) :
    i.Fits new.slots.size new.code.size := by
  have live : ∀ {position : Nat} {g : Handle}, new.code.order[position]? = some g → g.index < new.code.size :=
    fun stands => (new.code.mem_order_iff _).mp (Array.mem_of_getElem? stands)
  rcases splices.instruction_cases found with ⟨j, here, rfl⟩ | ⟨n, -, listed⟩ | ⟨n, -, listed⟩
  · unfold redirectReturn
    split
    · exact Instruction.fits_leading rfl rfl (live splices.order_epilogue)
    · exact old here ‹_›
  · exact (stays_prologue fetches splices.inside _ _ i (List.mem_of_getElem? listed)).fits
  · rcases List.mem_append.mp (List.mem_of_getElem? listed) with before | last
    · rcases List.mem_append.mp before with first | second
      · rcases stays_epilogue _ splices.inside i first with stays | rfl
        · exact stays.fits
        · exact Instruction.fits_leading rfl rfl (live splices.order_returnBlock)
      · exact (stays_handler splices.inside i second).fits
    · exact fits_returnBlock splices.inside i last

omit splices in
/-- Of the code that a weave adds only the return block returns. -/
theorem ne_ret_added (member : i ∈ w.prologue ++ (w.epilogue ++ w.handler)) : i.opcode ≠ .ret := by
  have inside : w.slots.Inside UInt16.size :=
    ⟨UInt16.toNat_lt_size _, UInt16.toNat_lt_size _, UInt16.toNat_lt_size _, UInt16.toNat_lt_size _, UInt16.toNat_lt_size _⟩
  rcases List.mem_append.mp member with first | behind
  · have stays : i.Stays _ 0 := stays_prologue fetches inside _ _ i first
    exact stays.ne_ret
  · rcases List.mem_append.mp behind with second | third
    · rcases stays_epilogue 0 inside i second with stays | rfl
      · exact stays.ne_ret
      · simp
    · have stays : i.Stays _ 0 := stays_handler inside i third
      exact stays.ne_ret

/-- Only the last instruction returns. -/
theorem returns_last (found : new.code.get? h = some i) (stands : new.code.order[n]? = some h)
    (ret : i.opcode = .ret) : n + 1 = new.code.size := by
  rcases splices.instruction_cases found with ⟨j, -, rfl⟩ | ⟨k, -, listed⟩ | ⟨k, at_, listed⟩
  · unfold redirectReturn at ret
    split at ret
    · cases ret
    · exact absurd ret ‹_›
  · exact absurd ret (ne_ret_added fetches (List.mem_append_left _ (List.mem_of_getElem? listed)))
  · have bound := (List.getElem?_eq_some_iff.mp listed).1
    have there := splices.tail_order bound
    have same : h = ⟨w.places.epilogue.index + k⟩ := Handle.eq_iff.mpr at_
    obtain rfl := Code.order_inj (same ▸ stands) there
    have last : k + 1 = w.tail.length := by
      by_cases early : k < w.epilogue.length + w.handler.length
      · rw [Weave.tail, List.getElem?_append_left (by simpa using early)] at listed
        exact absurd ret (ne_ret_added fetches (List.mem_append_right _ (List.mem_of_getElem? listed)))
      · rw [Weave.tail, List.getElem?_append_right (by simpa using early)] at listed
        have ends := returnBlock_ends listed ret
        simp only [List.length_append] at ends
        rw [length_tail]
        omega
    rw [splices.size_eq, ← last, epiloguePosition]
    omega

/-- A weave makes a valid body, exactly if it does not show what is wrong with the old one. -/
theorem valid_iff : new.Valid ↔ w.Tolerates new := by
  constructor
  · intro valid
    constructor
    · intro h i found stays
      have kept := splices.instruction found
      rw [redirectReturn, if_neg stays] at kept
      exact valid.instruction kept
    · intro c member
      apply valid.clause
      rw [splices.handlers]
      exact List.mem_append_left _ (List.mem_map_of_mem member)
  · intro tolerates
    obtain ⟨h, ends, found⟩ := splices.last
    refine ⟨⟨h, _, ends, found, rfl⟩, fun found => splices.fits_added fetches found tolerates.instruction,
      fun {c} member => ?_, fun {n h i c guarded handling} stands found ret member enclosed => ?_⟩
    · rw [splices.handlers] at member
      rcases List.mem_append.mp member with before | last
      · obtain ⟨earlier, listed, rfl⟩ := List.mem_map.mp before
        exact tolerates.clause listed
      · obtain rfl := List.mem_singleton.mp last
        exact ⟨_, _, splices.encloses_clause⟩
    · have last := splices.returns_last fetches found stands ret
      obtain ⟨guards, handles⟩ := splices.stop_lt member enclosed
      simp only [Span.contains, Bool.and_eq_false_iff, decide_eq_false_iff_not]
      omega

omit fetches in
theorem tolerates (old : w.old.Valid) : w.Tolerates new := by
  have more : w.old.slots.size ≤ new.slots.size := by
    rw [splices.size_slots]
    omega
  have longer : w.old.code.size ≤ new.code.size := by
    rw [splices.size_eq]
    omega
  constructor
  · intro h i found _
    exact (old.instruction found).mono more longer
  · intro c member
    obtain ⟨guarded, handling, enclosed⟩ := old.clause member
    exact ⟨_, _, splices.encloses enclosed⟩

/-- A weave makes a valid body of a valid one. -/
theorem valid (old : w.old.Valid) : new.Valid := (splices.valid_iff fetches).mpr (splices.tolerates old)

end Splices

end Weave

end AspectWeaving

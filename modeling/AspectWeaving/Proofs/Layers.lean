import AspectWeaving.Proofs.HookDiscipline
import AspectWeaving.Proofs.WovenValidity

/-!
Layers. The code that a weave adds stays as it is when other weaves go around it: its rows are entered at
their first instruction only (`Body.Seals`), and nothing else stores in its slots (`Weave.Layer`).
-/
namespace AspectWeaving

/-! ### Sealed rows -/

/-- A handle comes behind the first of some consecutive ones. -/
def Handle.Inside (h : Handle) (first count : Nat) : Prop := first < h.index ∧ h.index < first + count

/-- Instructions that do not return stand in a row, and no jump leads to any of them but the first. -/
structure Body.Seals (b : Body) (first : Nat) (is : List Instruction) : Prop where
  row : ∃ position, b.code.Holds position first is
  stays : ∀ i ∈ is, i.opcode ≠ .ret
  target : ∀ {h i g}, b.code.get? h = some i → i.target? = some g → ¬ g.Inside first is.length
  handling : ∀ {c}, c ∈ b.handlers → ¬ c.handling.start.Inside first is.length

namespace Body.Seals

variable {b b' : Body} {first n k : Nat} {is : List Instruction} {i : Instruction}

theorem fetch (seals : b.Seals first is) (listed : is[n]? = some i) :
    ∃ j, b.code.get? ⟨first + n⟩ = some j ∧ i.Alike j := by
  obtain ⟨position, holds⟩ := seals.row
  exact (holds n i listed).2

theorem live (seals : b.Seals first is) (inside : n < is.length) : first + n < b.code.size := by
  obtain ⟨j, found, -⟩ := seals.fetch (List.getElem?_eq_getElem inside)
  exact Code.get?_isSome_iff.mp (Option.isSome_of_eq_some found)

theorem before (seals : b.Seals first is) (inside : n + 1 < is.length)
    (stands : b.code.order[k + 1]? = some ⟨first + (n + 1)⟩) : b.code.order[k]? = some ⟨first + n⟩ := by
  obtain ⟨position, holds⟩ := seals.row
  have here := Code.order_inj stands (holds (n + 1) _ (List.getElem?_eq_getElem inside)).1
  have place := (holds n _ (List.getElem?_eq_getElem (by omega))).1
  rwa [show position + n = k by omega] at place

/-- Code starts in a row at its first instruction only. -/
theorem not_inside_first {h : Handle} (seals : b.Seals first is) (starts : b.code.first? = some h) :
    ¬ h.Inside first is.length := by
  intro ⟨late, early⟩
  obtain ⟨position, holds⟩ := seals.row
  have listed := List.getElem?_eq_getElem (show h.index - first < is.length by omega)
  have stands := (holds (h.index - first) _ listed).1
  rw [show (⟨first + (h.index - first)⟩ : Handle) = h from Handle.eq_iff.mpr (by simp only; omega)] at stands
  have place := Code.order_inj starts stands
  omega

theorem of_alike (seals : b.Seals first is) (alike : b.code.Alike b'.code) (handlers : b'.handlers = b.handlers) :
    b'.Seals first is where
  row := by
    obtain ⟨position, holds⟩ := seals.row
    exact ⟨position, alike.holds holds⟩
  stays := seals.stays
  target found leads := by
    obtain ⟨i, here, same⟩ := alike.back found
    exact seals.target here (same.target?.trans leads)
  handling member := seals.handling (handlers ▸ member)

end Body.Seals

/-! ### Jumps in woven code -/

namespace Weave.Splices

variable {w : Weave} {place n first : Nat} {new : Body} {h g : Handle} {i : Instruction} {is : List Instruction}

theorem target_cases (splices : w.Splices place new) (fetches : ∀ l ∈ w.plan.parameters, l.Fetches)
    (found : new.code.get? h = some i) (leads : i.target? = some g) :
    (w.old.code.get? h = some i) ∨ g = w.places.epilogue ∨ g = w.places.returnBlock := by
  rcases splices.instruction_cases found with ⟨j, here, rfl⟩ | ⟨n, -, listed⟩ | ⟨n, -, listed⟩
  · unfold redirectReturn at leads ⊢
    split at leads
    · exact .inr (.inl (Option.some.inj leads).symm)
    · rw [if_neg ‹_›]
      exact .inl here
  · rw [splices.target?_prologue fetches (List.mem_of_getElem? listed)] at leads
    cases leads
  · exact .inr (.inr (splices.target?_tail (List.mem_of_getElem? listed) leads))

theorem handling_cases {c : Handler} (splices : w.Splices place new) (member : c ∈ new.handlers) :
    (∃ c' ∈ w.old.handlers, c.handling.start = c'.handling.start) ∨ c.handling.start = w.places.handler := by
  rw [splices.handlers] at member
  rcases List.mem_append.mp member with before | last
  · obtain ⟨c', listed, rfl⟩ := List.mem_map.mp before
    exact .inl ⟨c', listed, rfl⟩
  · rw [List.mem_singleton.mp last]
    exact .inr rfl

/-- A row stays sealed unless the prologue goes into it. -/
theorem seals (splices : w.Splices place new) (fetches : ∀ l ∈ w.plan.parameters, l.Fetches)
    (old : w.old.Seals first is) (apart : ¬ w.plan.anchor.Inside first is.length) : new.Seals first is := by
  have low : ∀ {g : Handle}, g.Inside first is.length → g.index < w.old.code.size := by
    intro g inside
    have last := old.live (n := is.length - 1) (by have := inside.2; have := inside.1; omega)
    have := inside.2
    omega
  have epilogue : w.places.epilogue.index = w.old.code.size + w.prologue.length := rfl
  have handler := w.index_handler
  have returnBlock : w.places.returnBlock.index = w.places.handler.index + w.handler.length := rfl
  refine ⟨?_, old.stays, fun found leads inside => ?_, fun member inside => ?_⟩
  · obtain ⟨position, holds⟩ := old.row
    refine ⟨w.shift place position, fun n i listed => ?_⟩
    obtain ⟨stands, j, found, alike⟩ := holds n i listed
    have moved := splices.order stands
    have same : w.shift place (position + n) = w.shift place position + n := by
      unfold shift
      split <;> split <;> try omega
      -- The prologue would go into the row.
      rename_i late early
      have here := (holds (place - position) _ (List.getElem?_eq_getElem
        (by have := (List.getElem?_eq_some_iff.mp listed).1; omega))).1
      rw [Nat.add_sub_cancel' (by omega), splices.anchor] at here
      have bound := (List.getElem?_eq_some_iff.mp listed).1
      refine absurd ?_ apart
      rw [Option.some.inj here]
      constructor <;> simp only <;> omega
    have other : j.opcode ≠ .ret := fun ret => old.stays i (List.mem_of_getElem? listed) (alike.ret_iff.mpr ret)
    refine ⟨same ▸ moved, j, ?_, alike⟩
    rw [splices.instruction found, redirectReturn, if_neg other]
  · have below := low inside
    rcases splices.target_cases fetches found leads with before | rfl | rfl
    · exact old.target before leads inside
    · omega
    · omega
  · rcases splices.handling_cases member with ⟨c', listed, same⟩ | same
    · exact old.handling listed (same ▸ inside)
    · have below := low inside
      rw [same] at below
      omega

/-- The code that a weave adds is sealed. -/
theorem seals_added (splices : w.Splices place new) (fetches : ∀ l ∈ w.plan.parameters, l.Fetches) (valid : w.old.Valid) :
    new.Seals w.old.code.size w.prologue ∧ new.Seals w.places.epilogue.index w.epilogue ∧
      new.Seals w.places.handler.index w.handler := by
  have epilogue : w.places.epilogue.index = w.old.code.size + w.prologue.length := rfl
  have handler := w.index_handler
  have returnBlock : w.places.returnBlock.index = w.places.handler.index + w.handler.length := rfl
  have row : ∀ {position first is}, new.code.Holds position first is → w.old.code.size ≤ first →
      (∀ i ∈ is, i ∈ w.prologue ++ (w.epilogue ++ w.handler)) →
      (∀ g ∈ [w.places.epilogue, w.places.handler, w.places.returnBlock], ¬ g.Inside first is.length) →
        new.Seals first is := by
    intro position first is holds behind part apart
    simp only [List.forall_mem_cons, List.not_mem_nil, false_implies, implies_true, and_true] at apart
    refine ⟨⟨position, holds⟩, fun i member => ne_ret_added fetches (part i member), fun found leads inside => ?_,
      fun member inside => ?_⟩
    · rcases splices.target_cases fetches found leads with before | rfl | rfl
      · have below := (valid.instruction before).target leads
        have := inside.1
        omega
      · exact apart.1 inside
      · exact apart.2.2 inside
    · rcases splices.handling_cases member with ⟨c', listed, same⟩ | same
      · obtain ⟨guarded, handling, encloses⟩ := valid.clause listed
        have start := (Body.span?_eq_some_iff.mp encloses.handling_eq).1
        have below := (w.old.code.mem_order_iff _).mp (Array.mem_of_getElem? start)
        have := inside.1
        rw [same] at this
        omega
      · exact apart.2.1 (same ▸ inside)
  have tail : new.code.Holds w.epiloguePosition w.places.epilogue.index w.tail :=
    (Code.Alike.refl new.code).lists splices.tail
  refine ⟨row ((Code.Alike.refl new.code).lists splices.prologue) (Nat.le_refl _) (by simp +contextual) ?_,
    row tail.left.left (by omega) (by simp +contextual) ?_,
    row (handler ▸ tail.left.right) (by omega) (by simp +contextual) ?_⟩
  all_goals
    simp only [List.forall_mem_cons, List.not_mem_nil, false_implies, implies_true, and_true, Handle.Inside]
    omega

end Weave.Splices

/-! ### Slots -/

/-- An instruction stores nothing in a slot. -/
def Instruction.Spares (i : Instruction) (slot : UInt16) : Prop :=
  (∃ fixed, i.opcode.action = .storeLocal fixed) → i.slot? ≠ some slot

section Slots

open Instruction (Spares loadSlot storeSlot loadArgument pushInt32)

variable {i j : Instruction} {slot other : UInt16} {s : WovenSlots} {plan : WeavePlan} {w : Weave} {n : Nat}

theorem Instruction.Alike.spares (alike : i.Alike j) (spares : i.Spares slot) : j.Spares slot := by
  intro stores
  rw [← alike.action] at stores
  rw [← alike.slot?]
  exact spares stores

theorem spares_of_action (quiet : ∀ fixed, i.opcode.action ≠ .storeLocal fixed) : i.Spares slot :=
  fun ⟨fixed, stores⟩ => absurd stores (quiet fixed)

theorem spares_storeSlot (differs : slot ≠ other) : (storeSlot other).Spares slot := by
  intro _ same
  rw [(Instruction.storeSlot_spec other).2] at same
  exact differs (Option.some.inj same).symm

theorem spares_loadSlot : (loadSlot other).Spares slot := by
  obtain ⟨⟨fixed, action⟩, -⟩ := Instruction.loadSlot_spec other
  exact spares_of_action (by simp [action])

theorem spares_loadArgument : (loadArgument other).Spares slot := by
  obtain ⟨⟨fixed, action⟩, -⟩ := Instruction.loadArgument_spec other
  exact spares_of_action (by simp [action])

theorem spares_pushInt32 {value : Int32} : (pushInt32 value).Spares slot := by
  rcases Instruction.pushInt32_spec value with action | ⟨action, -⟩ <;> exact spares_of_action (by simp [action])

private theorem spares_box {type? : Option Token} :
    ∀ i ∈ (type?.map fun type => (⟨.box, .type type⟩ : Instruction)).toList, i.Spares slot := by
  cases type? with
  | none => simp
  | some type =>
    have box : (⟨.box, .type type⟩ : Instruction).Spares slot := spares_of_action (by simp [Opcode.action])
    simpa using box

private theorem spares_storeArgument {l : ParameterLoad} (fetches : l.Fetches) (position : Nat) :
    ∀ i ∈ WeavePlan.storeArgument s l position, i.Spares slot := by
  have fetch : ∀ i ∈ l.deref.toList, i.Spares slot := by
    intro i member
    rcases fetches i (Option.mem_toList.mp member) with rfl | ⟨type, rfl⟩ <;>
      exact spares_of_action (by simp [Opcode.action])
  simp only [WeavePlan.storeArgument, List.forall_mem_append, List.forall_mem_cons, List.not_mem_nil, false_implies,
    implies_true, and_true]
  exact ⟨⟨⟨⟨spares_loadSlot, spares_pushInt32, spares_loadArgument⟩, fetch⟩, spares_box⟩,
    spares_of_action (by simp [Opcode.action])⟩

/-- The place in the prologue at which the attribute is stored. -/
def Weave.attrStore (w : Weave) : Handle := ⟨w.old.code.size + 12⟩

/-- Of its own slots the prologue stores once in that of the attribute. -/
theorem Weave.spares_prologue (fetches : ∀ l ∈ w.plan.parameters, l.Fetches) (method : slot ≠ w.slots.method)
    (arguments : slot ≠ w.slots.arguments) (listed : w.prologue[n]? = some i) :
    (n = 12 ∧ slot = w.slots.attr) ∨ i.Spares slot := by
  have parts : w.prologue = w.prologue.take 12 ++ storeSlot w.slots.attr :: w.prologue.drop 13 := rfl
  have stored : ∀ i ∈ w.plan.parameters.zipIdx.flatMap fun e => WeavePlan.storeArgument w.slots e.1 e.2,
      i.Spares slot := by
    intro i member
    obtain ⟨e, among, here⟩ := List.mem_flatMap.mp member
    exact spares_storeArgument (fetches e.1 (List.fst_mem_of_mem_zipIdx among)) e.2 i here
  have front : ∀ i ∈ w.prologue.take 12, i.Spares slot := by
    simp only [Weave.prologue, WeavePlan.prologue, List.cons_append, List.take_succ_cons, List.take_zero,
      List.forall_mem_cons, List.not_mem_nil, false_implies, implies_true, and_true]
    and_intros
    all_goals first
      | exact spares_storeSlot method
      | exact spares_loadSlot
      | exact spares_pushInt32
      | exact spares_of_action (by simp [Opcode.action])
  have back : ∀ i ∈ w.prologue.drop 13, i.Spares slot := by
    simp only [Weave.prologue, WeavePlan.prologue, List.cons_append, List.nil_append, List.drop_succ_cons, List.drop_zero,
      List.forall_mem_cons, List.forall_mem_append, List.not_mem_nil, false_implies, implies_true, and_true]
    refine ⟨spares_pushInt32, spares_of_action (by simp [Opcode.action]), spares_storeSlot arguments, stored, ?_⟩
    exact ⟨spares_loadSlot, spares_loadSlot, spares_loadSlot, spares_of_action (by simp [Opcode.action])⟩
  have twelve : (w.prologue.take 12).length = 12 := rfl
  rw [parts] at listed
  rcases Nat.lt_trichotomy n 12 with early | rfl | late
  · rw [List.getElem?_append_left (by omega)] at listed
    exact .inr (front i (List.mem_of_getElem? listed))
  · rw [List.getElem?_append_right (by omega), twelve, Nat.sub_self] at listed
    obtain rfl := Option.some.inj listed
    by_cases same : slot = w.slots.attr
    · exact .inl ⟨rfl, same⟩
    · exact .inr (spares_storeSlot same)
  · obtain ⟨k, rfl⟩ := Nat.exists_eq_add_of_lt late
    rw [List.getElem?_append_right (by omega), twelve, show 12 + k + 1 - 12 = k + 1 by omega,
      List.getElem?_cons_succ] at listed
    exact .inr (back i (List.mem_of_getElem? listed))

theorem Weave.spares_tail (exception : slot ≠ w.slots.exception) (result : slot ≠ w.slots.result) :
    ∀ i ∈ w.tail, i.Spares slot := by
  have store : ∀ i ∈ if w.plan.storesResult then [storeSlot w.slots.result] else [], i.Spares slot := by
    split
    · simpa using spares_storeSlot result
    · simp
  have returns : ∀ i ∈ w.plan.returnBlock w.slots, i.Spares slot := by
    unfold WeavePlan.returnBlock
    split <;> simp only [List.forall_mem_cons, List.not_mem_nil, false_implies, implies_true, and_true]
    · exact spares_of_action (by simp [Opcode.action])
    · exact ⟨spares_loadSlot, spares_of_action (by simp [Opcode.action])⟩
  simp only [Weave.tail, Weave.epilogue, WeavePlan.epilogue, Weave.handler, WeavePlan.handler, Weave.returnBlock,
    List.forall_mem_append, List.forall_mem_cons, List.not_mem_nil, false_implies, implies_true, and_true]
  refine ⟨⟨⟨⟨⟨store, spares_loadSlot, spares_loadSlot⟩, spares_box⟩, ?_⟩, ?_⟩, returns⟩
  · exact ⟨spares_loadSlot, spares_loadSlot, spares_of_action (by simp [Opcode.action]),
      spares_of_action (by simp [Opcode.action])⟩
  · exact ⟨spares_storeSlot exception, spares_loadSlot, spares_loadSlot, spares_loadSlot, spares_loadSlot,
      spares_of_action (by simp [Opcode.action]), spares_of_action (by simp [Opcode.action])⟩

end Slots

/-! ### Layers -/

/-- A body holds the code of a weave as it was added, and no other code stores in the slot of the attribute. -/
structure Weave.Layer (w : Weave) (b : Body) : Prop where
  prologue : b.Seals w.old.code.size w.prologue
  epilogue : b.Seals w.places.epilogue.index w.epilogue
  handler : b.Seals w.places.handler.index w.handler
  spares : ∀ {h i}, b.code.get? h = some i → h ≠ w.attrStore → i.Spares w.slots.attr
  slots : ∃ added, b.slots.toList = w.old.slots.toList ++ w.plan.slots ++ added
  slotsFit : w.old.slots.size + 5 ≤ Body.maxSlots
  initSlots : b.initSlots = true

namespace Weave

variable {w w' : Weave} {place : Nat} {b new : Body}

theorem Layer.of_alike {b' : Body} (layer : w.Layer b) (alike : b.code.Alike b'.code) (handlers : b'.handlers = b.handlers)
    (slots : b'.slots = b.slots) (init : b'.initSlots = b.initSlots) : w.Layer b' where
  prologue := layer.prologue.of_alike alike handlers
  epilogue := layer.epilogue.of_alike alike handlers
  handler := layer.handler.of_alike alike handlers
  spares found differs := by
    obtain ⟨i, here, same⟩ := alike.back found
    exact same.spares (layer.spares here differs)
  slots := slots ▸ layer.slots
  slotsFit := layer.slotsFit
  initSlots := init ▸ layer.initSlots

theorem Layer.size_slots (layer : w.Layer b) : w.old.slots.size + 5 ≤ b.slots.size := by
  obtain ⟨added, listed⟩ := layer.slots
  have lengths := congrArg List.length listed
  simp only [List.length_append, length_slots, Array.length_toList] at lengths
  omega

/-- A weave makes a layer. -/
theorem Splices.layer (splices : w.Splices place new) (fetches : ∀ l ∈ w.plan.parameters, l.Fetches)
    (valid : w.old.Valid) : w.Layer new := by
  have room := splices.slotsFit
  rw [length_slots] at room
  obtain ⟨method, attr, exception, arguments, result⟩ := WovenSlots.toNat_startingAt room
  have differs : ∀ {slot : UInt16} {k : Nat}, slot.toNat = w.old.slots.size + k → k ≠ 1 → w.slots.attr ≠ slot := by
    rintro _ k place other rfl
    have := attr.symm.trans place
    omega
  obtain ⟨prologue, epilogue, handler⟩ := splices.seals_added fetches valid
  refine ⟨prologue, epilogue, handler, fun {h i} found apart => ?_, ⟨[], by simp [splices.slots]⟩, room, splices.initSlots⟩
  rcases splices.instruction_cases found with ⟨j, here, rfl⟩ | ⟨n, at_, listed⟩ | ⟨n, -, listed⟩
  · unfold redirectReturn
    split
    · exact spares_of_action (by simp [Opcode.action])
    · intro _ used
      have below := (valid.instruction here).slot used
      rw [show w.slots.attr.toNat = w.old.slots.size + 1 from attr] at below
      omega
  · rcases w.spares_prologue fetches (differs (k := 0) method (by simp)) (differs arguments (by simp)) listed with
      ⟨rfl, -⟩ | spares
    · exact absurd (Handle.eq_iff.mpr at_) apart
    · exact spares
  · exact w.spares_tail (differs exception (by simp)) (differs result (by simp)) i (List.mem_of_getElem? listed)

/-- A weave that goes around a layer leaves it as it is, unless its prologue goes into the code of it. -/
theorem Layer.splice (layer : w.Layer w'.old) (splices : w'.Splices place new) (fetches : ∀ l ∈ w'.plan.parameters, l.Fetches)
    (prologue : ¬ w'.plan.anchor.Inside w.old.code.size w.prologue.length)
    (epilogue : ¬ w'.plan.anchor.Inside w.places.epilogue.index w.epilogue.length)
    (handler : ¬ w'.plan.anchor.Inside w.places.handler.index w.handler.length) : w.Layer new := by
  have room := splices.slotsFit
  rw [length_slots] at room
  obtain ⟨method, attr, exception, arguments, result⟩ := WovenSlots.toNat_startingAt room
  obtain ⟨-, own, -⟩ := WovenSlots.toNat_startingAt layer.slotsFit
  have size := layer.size_slots
  have differs : ∀ {slot : UInt16} {k : Nat}, slot.toNat = w'.old.slots.size + k → w.slots.attr ≠ slot := by
    rintro _ k place rfl
    have := own.symm.trans place
    omega
  refine ⟨splices.seals fetches layer.prologue prologue, splices.seals fetches layer.epilogue epilogue,
    splices.seals fetches layer.handler handler, fun {h i} found apart => ?_, ?_, layer.slotsFit, splices.initSlots⟩
  · rcases splices.instruction_cases found with ⟨j, here, rfl⟩ | ⟨n, -, listed⟩ | ⟨n, -, listed⟩
    · unfold redirectReturn
      split
      · exact spares_of_action (by simp [Opcode.action])
      · exact layer.spares here apart
    · rcases w'.spares_prologue fetches (differs (k := 0) method) (differs arguments) listed with ⟨-, same⟩ | spares
      · exact absurd same (differs attr)
      · exact spares
    · exact w'.spares_tail (differs exception) (differs result) i (List.mem_of_getElem? listed)
  · obtain ⟨added, listed⟩ := layer.slots
    exact ⟨added ++ w'.plan.slots, by simp [splices.slots, listed]⟩

end Weave

/-! ### Prologues beside rows -/

section Rows

variable {r : Resolver} {rows : ImportTable} {b : Body} {anchor : Handle} {first : Nat} {is : List Instruction}
  {i j : Instruction} {w : Weave}

/-- The anchor of a body is in no row that calls no constructor. -/
theorem Body.Seals.apart {constructor : Bool} (seals : b.Seals first is)
    (found : findAnchor r rows b constructor = .ok anchor)
    (plain : ∀ i ∈ is, ∀ j, i.Alike j → callsConstructor r rows j = false) : ¬ anchor.Inside first is.length := by
  intro within
  rcases findAnchor_cases found with starts | ⟨before, call, behind⟩
  · exact seals.not_inside_first starts within
  · obtain ⟨late, early⟩ := within
    obtain ⟨n, rfl⟩ : ∃ n, anchor = ⟨first + (n + 1)⟩ :=
      ⟨anchor.index - first - 1, Handle.eq_iff.mpr (by simp only; omega)⟩
    have inside : n + 1 < is.length := by
      simp only at early
      omega
    obtain ⟨stands, there, here⟩ := behind.order
    have same : call.1 = ⟨first + n⟩ := Option.some.inj (stands.symm.trans (seals.before inside here))
    have listed := List.getElem?_eq_getElem (show n < is.length by omega)
    obtain ⟨j, found, alike⟩ := seals.fetch listed
    obtain rfl := Option.some.inj (there.symm.trans (same ▸ found))
    have other := plain _ (List.mem_of_getElem? listed) _ alike
    rw [behind.calls] at other
    cases other

/-- What describes the method of a handle. -/
def getMethodQuery : MethodQuery :=
  ({ name := "GetMethodFromHandle" } : MethodQuery).withTypes [WellKnown.methodHandle.fullName, WellKnown.typeHandle.fullName]

/-- What describes the type of a handle. -/
def getTypeQuery : MethodQuery := ({ name := "GetTypeFromHandle" } : MethodQuery).withTypes [WellKnown.typeHandle.fullName]

/-- What finds the attributes of a method that are of a type. -/
def getAttributesQuery : MethodQuery :=
  ({ name := "GetCustomAttributes" } : MethodQuery).withTypes [WellKnown.type.fullName, WellKnown.boolean.fullName]

/-- The rows of the library methods that find the attribute. -/
structure WeavePlan.Finds (p : WeavePlan) (r : Resolver) (rows : ImportTable) : Prop where
  getMethodFromHandle : r.Imports WellKnown.methodBase getMethodQuery rows p.getMethodFromHandle
  getCustomAttributes : r.Imports WellKnown.methodBase getAttributesQuery rows p.getCustomAttributes
  getTypeFromHandle : r.Imports WellKnown.type getTypeQuery rows p.getTypeFromHandle

theorem WeavePlan.Finds.mono {p : WeavePlan} {rows' : ImportTable} (finds : p.Finds r rows) (grows : rows.Grows rows') :
    p.Finds r rows' :=
  ⟨finds.getMethodFromHandle.mono grows, finds.getCustomAttributes.mono grows, finds.getTypeFromHandle.mono grows⟩

/-- An instruction calls directly nothing but what finds the method and the type of the attribute. -/
def Weave.FindsOnly (w : Weave) (i : Instruction) : Prop :=
  i.opcode.action = .call false →
    i.operand = .method w.plan.getMethodFromHandle ∨ i.operand = .method w.plan.getTypeFromHandle

theorem Weave.findsOnly_added (fetches : ∀ l ∈ w.plan.parameters, l.Fetches) :
    ∀ i ∈ w.prologue ++ (w.epilogue ++ w.handler), w.FindsOnly i := by
  have other : ∀ {i : Instruction}, i.opcode.action ≠ .call false → w.FindsOnly i :=
    fun differs calls => absurd calls differs
  have loads : ∀ slot, w.FindsOnly (.loadSlot slot) := fun slot =>
    other (by obtain ⟨⟨fixed, action⟩, -⟩ := Instruction.loadSlot_spec slot; simp [action])
  have stores : ∀ slot, w.FindsOnly (.storeSlot slot) := fun slot =>
    other (by obtain ⟨⟨fixed, action⟩, -⟩ := Instruction.storeSlot_spec slot; simp [action])
  have argument : ∀ index, w.FindsOnly (.loadArgument index) := fun index =>
    other (by obtain ⟨⟨fixed, action⟩, -⟩ := Instruction.loadArgument_spec index; simp [action])
  have pushes : ∀ value, w.FindsOnly (.pushInt32 value) := fun value =>
    other (by rcases Instruction.pushInt32_spec value with action | ⟨action, -⟩ <;> simp [action])
  have boxes : ∀ (type? : Option Token), ∀ i ∈ (type?.map fun type => (⟨.box, .type type⟩ : Instruction)).toList,
      w.FindsOnly i := by
    intro type? i member
    obtain ⟨type, -, rfl⟩ := Option.map_eq_some_iff.mp (Option.mem_toList.mp member)
    exact other (by simp [Opcode.action])
  have stored : ∀ i ∈ w.plan.parameters.zipIdx.flatMap fun e => WeavePlan.storeArgument w.slots e.1 e.2,
      w.FindsOnly i := by
    intro i member
    obtain ⟨e, among, here⟩ := List.mem_flatMap.mp member
    have fetch := fetches e.1 (List.fst_mem_of_mem_zipIdx among)
    simp only [WeavePlan.storeArgument, List.mem_append, List.mem_cons, List.not_mem_nil, or_false] at here
    rcases here with (((rfl | rfl | rfl) | fetched) | boxed) | rfl
    · exact loads _
    · exact pushes _
    · exact argument _
    · rcases fetch i (Option.mem_toList.mp fetched) with rfl | ⟨type, rfl⟩ <;> exact other (by simp [Opcode.action])
    · exact boxes _ i boxed
    · exact other (by simp [Opcode.action])
  have store : ∀ i ∈ if w.plan.storesResult then [Instruction.storeSlot w.slots.result] else [], w.FindsOnly i := by
    split
    · simpa using stores _
    · simp
  simp only [Weave.prologue, WeavePlan.prologue, Weave.epilogue, WeavePlan.epilogue, Weave.handler, WeavePlan.handler,
    List.forall_mem_append, List.forall_mem_cons, List.not_mem_nil, false_implies, implies_true, and_true]
  and_intros
  all_goals first
    | exact loads _
    | exact stores _
    | exact pushes _
    | exact stored
    | exact store
    | exact boxes _
    | exact fun _ => .inl rfl
    | exact fun _ => .inr rfl
    | exact other (by simp [Opcode.action])

/-- What finds the attribute is no constructor. -/
theorem Weave.callsConstructor_eq_false (finds : w.plan.Finds r rows) (room : rows.memberRefs.size ≤ ImportTable.maxRows)
    (only : w.FindsOnly i) (alike : i.Alike j) : callsConstructor r rows j = false := by
  have named : ∀ {host q token}, r.Imports host q rows token → r.methodName? rows token = some q.name := by
    intro host q token imported
    obtain ⟨row, found, here, -, name, -⟩ := imported.row room
    unfold Resolver.methodName?
    rw [imported.table, if_neg (by decide), if_pos rfl, here, ← name]
    rfl
  unfold callsConstructor
  split
  · rename_i token opcode operand
    have calls : i.opcode.action = .call false := by rw [alike.action, opcode]; rfl
    rcases only calls with own | own <;> rw [alike.operand, operand] at own <;> cases own
    · rw [named finds.getMethodFromHandle]
      decide
    · rw [named finds.getTypeFromHandle]
      decide
  · rfl

end Rows

/-! ### Decorators one after another -/

/-- Decorators that are put around a body one after another, with the weave of each, and the rows there are. -/
inductive Layered (r : Resolver) (d : MethodDef) :
    ImportTable → Body → List (Decoration × Weave) → ImportTable → Body → Prop
  | bare (rows : ImportTable) (b : Body) : Layered r d rows b [] rows b
  | around {rows rows' rows'' : ImportTable} {b b' b'' : Body} {e : Decoration} {w : Weave} {woven : MethodDef}
      {layers : List (Decoration × Weave)} (decorates : Decorates r { d with body := some b } e.kind w rows' woven b')
      (anchored : findAnchor r rows b d.isConstructor = .ok w.plan.anchor) (grows : rows.Grows rows')
      (rest : Layered r d rows' b' layers rows'' b'') : Layered r d rows b ((e, w) :: layers) rows'' b''

/-- A layer of a woven body, and the rows its code names. -/
structure Weave.Wraps (w : Weave) (r : Resolver) (method : Token) (kind : DecoratorKind) (rows : ImportTable) (b : Body) :
    Prop where
  layer : w.Layer b
  calls : w.CallsHooks kind b
  method : w.method = method
  attributeType : w.plan.attributeType = kind.attributeType
  fetches : ∀ l ∈ w.plan.parameters, l.Fetches
  finds : w.plan.Finds r rows

section Layered

variable {r : Resolver} {policy : Policy} {d woven : MethodDef} {kind kind' : DecoratorKind} {method : Token} {w w' : Weave}
  {rows rows' : ImportTable} {b new : Body} {layers : List (Decoration × Weave)}

theorem Decorates.wraps (decorates : Decorates r d kind w rows woven new) (valid : w.old.Valid) :
    w.Wraps r d.token kind rows new := by
  have calls := decorates.callsHooks
  obtain ⟨-, method, -, planned, place, spliced, splices, rfl⟩ := decorates
  have layer : w.Layer spliced := splices.layer planned.fetches valid
  exact
    { layer := layer.of_alike spliced.code.alike_widen rfl rfl rfl
      calls
      method
      attributeType := planned.attributeType
      fetches := planned.fetches
      finds := ⟨planned.getMethodFromHandle, planned.getCustomAttributes, planned.getTypeFromHandle⟩ }

theorem Decorates.valid (decorates : Decorates r d kind w rows woven new) (valid : w.old.Valid) : new.Valid := by
  obtain ⟨-, -, -, planned, place, spliced, splices, rfl⟩ := decorates
  exact (splices.valid planned.fetches valid).widen

/-- A decorator that is put around a layer leaves it as it is. -/
theorem Weave.Wraps.decorates (wraps : w.Wraps r method kind rows w'.old)
    (decorates : Decorates r d kind' w' rows' woven new)
    (anchored : findAnchor r rows w'.old d.isConstructor = .ok w'.plan.anchor) (grows : rows.Grows rows')
    (room : rows.memberRefs.size ≤ ImportTable.maxRows) : w.Wraps r method kind rows' new := by
  obtain ⟨-, -, -, planned, place, spliced, splices, rfl⟩ := decorates
  have alike : spliced.code.Alike spliced.widen.1.code := spliced.code.alike_widen
  have plain : ∀ i ∈ w.prologue ++ (w.epilogue ++ w.handler), ∀ j, i.Alike j → callsConstructor r rows j = false :=
    fun i member j same => w.callsConstructor_eq_false wraps.finds room (w.findsOnly_added wraps.fetches i member) same
  have layer : w.Layer spliced := wraps.layer.splice splices planned.fetches
    (wraps.layer.prologue.apart anchored fun i member => plain i (by simp [member]))
    (wraps.layer.epilogue.apart anchored fun i member => plain i (by simp [member]))
    (wraps.layer.handler.apart anchored fun i member => plain i (by simp [member]))
  have calls : ∀ {h t}, w'.old.code.get? h = some ⟨.callvirt, .method t⟩ →
      spliced.widen.1.code.get? h = some ⟨.callvirt, .method t⟩ :=
    fun found => alike.callvirt (splices.instruction found)
  exact
    { layer := layer.of_alike alike rfl rfl rfl
      calls :=
        { calls := wraps.calls.calls
          onEntry := calls wraps.calls.onEntry
          onExit := calls wraps.calls.onExit
          onException := calls wraps.calls.onException }
      method := wraps.method
      attributeType := wraps.attributeType
      fetches := wraps.fetches
      finds := wraps.finds.mono grows }

theorem Layered.grows (layered : Layered r d rows b layers rows' new) : rows.Grows rows' := by
  induction layered with
  | bare => exact .refl _
  | around decorates anchored grows rest ih => exact grows.trans ih

theorem Weave.Wraps.layered (wraps : w.Wraps r method kind rows b) (layered : Layered r d rows b layers rows' new)
    (room : rows'.memberRefs.size ≤ ImportTable.maxRows) : w.Wraps r method kind rows' new := by
  induction layered with
  | bare => exact wraps
  | around decorates anchored grows rest ih =>
    obtain rfl := Option.some.inj decorates.old
    have fits := (grows.trans rest.grows).size_memberRefs.trans room
    exact ih (wraps.decorates decorates anchored grows fits) room

/-- Every decorator is a layer in the end. -/
theorem Layered.wraps (layered : Layered r d rows b layers rows' new) (valid : b.Valid)
    (room : rows'.memberRefs.size ≤ ImportTable.maxRows) :
    ∀ l ∈ layers, l.2.Wraps r d.token l.1.kind rows' new := by
  induction layered with
  | bare => simp
  | around decorates anchored grows rest ih =>
    obtain rfl := Option.some.inj decorates.old
    rintro l (_ | ⟨_, later⟩)
    · exact (decorates.wraps valid).layered rest room
    · exact ih (decorates.valid valid) room l later

theorem decorateAll_eq_ok {declaringType : Token} {decorations : List Decoration} {before behind : Workspace}
    (done : decorateAll r policy declaringType decorations { d with body := some b } before = (.ok woven, behind)) :
    ∃ layers new, woven = { d with body := some new } ∧ layers.map (·.1) = decorations ∧
      Layered r d before.imports b layers behind.imports new := by
  induction decorations generalizing b before with
  | nil =>
    cases done
    exact ⟨[], b, rfl, rfl, .bare _ _⟩
  | cons e rest ih =>
    obtain ⟨result, middle, first, done⟩ := weaving_bind done
    cases result with
    | error fault => cases done
    | ok between =>
      obtain ⟨grows, w, b', decorates, -, anchored⟩ := decorate_eq_ok first
      obtain rfl := decorates.woven
      obtain rfl : b = w.old := Option.some.inj decorates.old
      obtain ⟨layers, new, whole, parts, layered⟩ := ih done
      exact ⟨(e, w) :: layers, new, whole, by simp [parts], .around decorates anchored grows layered⟩

end Layered

end AspectWeaving

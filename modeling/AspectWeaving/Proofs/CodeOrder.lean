import AspectWeaving.Frame
import AspectWeaving.Widening
import Mathlib.Tactic.Common

/-!
The order of code. `Code.order` decides where a handle stands, what comes after it and what a region
holds, so what an operation on code does is said by its instructions and its order. A stretch of
instructions that stand one after another under consecutive handles is `Code.Holds`. Widening leaves
the order alone and puts instructions in the place of one another that are `Instruction.Alike`.
-/
namespace AspectWeaving

namespace Instruction

/-- Two instructions do the same: they may differ in the width of their operand only. -/
structure Alike (i j : Instruction) : Prop where
  action : i.opcode.action = j.opcode.action
  operand : i.operand = j.operand
  matched : i.operandMatches = j.operandMatches
  flow : i.flow = j.flow

theorem Alike.refl (i : Instruction) : i.Alike i := ⟨rfl, rfl, rfl, rfl⟩

theorem Alike.symm {i j : Instruction} (alike : i.Alike j) : j.Alike i :=
  ⟨alike.action.symm, alike.operand.symm, alike.matched.symm, alike.flow.symm⟩

theorem Alike.trans {i j k : Instruction} (first : i.Alike j) (second : j.Alike k) : i.Alike k :=
  ⟨first.action.trans second.action, first.operand.trans second.operand, first.matched.trans second.matched,
    first.flow.trans second.flow⟩

private theorem fits_longForm {o l : Opcode} (found : o.longForm? = some l) (operand : Operand) :
    operand.fits o.operandKind = operand.fits l.operandKind ∧ o.flow = l.flow := by
  cases o <;> cases found <;> exact ⟨by cases operand <;> rfl, rfl⟩

theorem alike_widened (i : Instruction) : i.Alike i.widened := by
  unfold widened
  split
  · rename_i long found
    exact ⟨(Opcode.action_longForm found).symm, rfl, (fits_longForm found _).1, (fits_longForm found i.operand).2⟩
  · exact .refl i

theorem Alike.target? {i j : Instruction} (alike : i.Alike j) : i.target? = j.target? := by
  simp only [Instruction.target?, alike.operand]

theorem Alike.token? {i j : Instruction} (alike : i.Alike j) : i.token? = j.token? := by
  simp only [Instruction.token?, alike.operand]

theorem Alike.argument? {i j : Instruction} (alike : i.Alike j) : i.argument? = j.argument? := by
  unfold Instruction.argument?
  rw [alike.action, alike.operand]

theorem Alike.slot? {i j : Instruction} (alike : i.Alike j) : i.slot? = j.slot? := by
  unfold Instruction.slot?
  rw [alike.action, alike.operand]

end Instruction

theorem Handle.eq_iff {h g : Handle} : h = g ↔ h.index = g.index := by
  cases h
  cases g
  exact Handle.mk.injEq .. ▸ Iff.rfl

/-- Only returns leave a method. -/
theorem Opcode.action_eq_exit_iff {o : Opcode} : o.action = .exit ↔ o = .ret := by cases o <;> simp [action]

theorem Opcode.action_eq_call_iff {o : Opcode} : o.action = .call true ↔ o = .callvirt := by
  cases o <;> simp [action]

namespace Code

variable {c d : Code} {h : Handle} {i j : Instruction}

theorem positions_eq_some_iff {p : Nat} : c.positions[h.index]? = some p ↔ c.order[p]? = some h := by
  have listed : (c.order.toList.zipIdx.map fun e => (e.1.index, e.2)).map Prod.fst =
      c.order.toList.map Handle.index := by
    rw [List.map_map, ← List.zipIdx_map_fst 0 c.order.toList, List.map_map, List.zipIdx_map_fst]
    rfl
  have once : ((c.order.toList.zipIdx.map fun e => (e.1.index, e.2)).map Prod.fst).Nodup := by
    rw [listed]
    exact List.Pairwise.map _ (fun a b (differs : a ≠ b) same => differs (congrArg Handle.mk same)) c.nodup_order
  -- A handle that stands somewhere has that place.
  have placed : ∀ {q : Nat}, c.order[q]? = some h → c.positions[h.index]? = some q := by
    intro q stands
    have inside : h.index < c.size := (c.mem_order_iff h).mp (Array.mem_of_getElem? stands)
    refine scatter_of_mem once ?_ inside
    refine List.mem_map.mpr ⟨(h, q), ?_, rfl⟩
    rw [List.mem_zipIdx_iff_getElem?]
    simpa using stands
  refine ⟨fun found => ?_, placed⟩
  have inside : h.index < c.size := by
    have bound := (Array.getElem?_eq_some_iff.mp found).1
    simpa [positions] using bound
  obtain ⟨q, stands⟩ := Array.mem_iff_getElem?.mp ((c.mem_order_iff h).mpr inside)
  rw [placed stands] at found
  rwa [Option.some.inj found] at stands

theorem get?_isSome_iff : (c.get? h).isSome ↔ h.index < c.size := by
  simp [get?, size]

theorem get?_eq_some_of_order {p : Nat} (stands : c.order[p]? = some h) : ∃ i, c.get? h = some i := by
  have inside := (c.mem_order_iff h).mp (Array.mem_of_getElem? stands)
  exact Option.isSome_iff_exists.mp (get?_isSome_iff.mpr inside)

theorem exists_position (inside : h.index < c.size) : ∃ p : Nat, c.order[p]? = some h :=
  Array.mem_iff_getElem?.mp ((c.mem_order_iff h).mpr inside)

theorem order_inj {p q : Nat} (first : c.order[p]? = some h) (second : c.order[q]? = some h) : p = q := by
  have both := positions_eq_some_iff.mpr first
  rw [positions_eq_some_iff.mpr second] at both
  exact (Option.some.inj both).symm

private theorem idxOf?_order_eq_some_iff {p : Nat} : c.order.idxOf? h = some p ↔ c.order[p]? = some h := by
  have listed : c.order.idxOf? h = c.order.toList.idxOf? h := by
    generalize c.order = rows
    cases rows
    exact List.idxOf?_toArray ..
  rw [listed, List.idxOf?_eq_some_iff]
  constructor
  · rintro ⟨bound, here, -⟩
    rw [← Array.getElem?_toList, List.getElem?_eq_getElem bound, here]
  · intro stands
    rw [← Array.getElem?_toList] at stands
    obtain ⟨bound, here⟩ := List.getElem?_eq_some_iff.mp stands
    refine ⟨bound, here, fun q before same => ?_⟩
    have twice : c.order[q]? = some h := by
      rw [← Array.getElem?_toList, List.getElem?_eq_getElem (by omega)]
      exact congrArg some same
    have first := order_inj twice (Array.getElem?_toList.symm ▸ stands)
    omega

theorem position?_eq_some_iff {p : Nat} : c.position? h = some p ↔ c.order[p]? = some h := by
  rw [← idxOf?_order_eq_some_iff]
  unfold position? contains
  split
  · rfl
  · rename_i outside
    refine ⟨nofun, fun found => ?_⟩
    have stands := idxOf?_order_eq_some_iff.mp found
    exact absurd ((c.mem_order_iff h).mp (Array.mem_of_getElem? stands)) (by simpa using outside)

/-- A bound of a region is at a position; no bound is the end of the code. -/
def BoundAt (c : Code) (position : Nat) : Option Handle → Prop
  | some h => c.order[position]? = some h
  | none => position = c.size

/-! ### Stretches of instructions -/

/-- Instructions stand one after another from a position on, under consecutive handles, up to the
    width of their operands. -/
def Holds (c : Code) (position first : Nat) (is : List Instruction) : Prop :=
  ∀ n i, is[n]? = some i →
    c.order[position + n]? = some ⟨first + n⟩ ∧ ∃ j, c.get? ⟨first + n⟩ = some j ∧ i.Alike j

/-- Instructions stand one after another from a position on, under consecutive handles. -/
def Lists (c : Code) (position first : Nat) (is : List Instruction) : Prop :=
  ∀ n i, is[n]? = some i → c.order[position + n]? = some ⟨first + n⟩ ∧ c.get? ⟨first + n⟩ = some i

theorem Holds.left {position first : Nat} {is js : List Instruction} (holds : c.Holds position first (is ++ js)) :
    c.Holds position first is := fun n i listed =>
  holds n i (List.getElem?_append_left (List.getElem?_eq_some_iff.mp listed).1 ▸ listed)

theorem Holds.right {position first : Nat} {is js : List Instruction} (holds : c.Holds position first (is ++ js)) :
    c.Holds (position + is.length) (first + is.length) js := fun n i listed => by
  have inner : (is ++ js)[is.length + n]? = some i := by
    rw [List.getElem?_append_right (Nat.le_add_right _ _), Nat.add_sub_cancel_left]
    exact listed
  simpa only [Nat.add_assoc] using holds _ i inner

/-! ### Operations on code -/

theorem get?_mapInstructions (f : Handle → Instruction → Instruction) :
    (c.mapInstructions f).get? h = (c.get? h).map (f h) := by
  simp [get?, mapInstructions]

theorem append_instructions (is : List Instruction) :
    (c.append is).instructions.toList = c.instructions.toList ++ is := by
  unfold append
  induction is generalizing c with
  | nil => simp
  | cons i is ih => simp [ih, push]

theorem append_order (is : List Instruction) :
    (c.append is).order.toList =
      c.order.toList ++ (List.range is.length).map fun n => Handle.mk (c.size + n) := by
  unfold append
  induction is generalizing c with
  | nil => simp
  | cons i is ih =>
    have sizes : (c.push i).size = c.size + 1 := by simp [size, push]
    rw [List.foldl_cons, ih, sizes, List.length_cons, List.range_succ_eq_map, List.map_cons, List.map_map]
    simp only [push, Array.toList_push, List.append_assoc, List.singleton_append, nextHandle, Nat.add_zero]
    congr 2
    exact List.map_congr_left fun n _ => congrArg Handle.mk (by simp only [Nat.succ_eq_add_one]; omega)

/-! ### Widening -/

/-- Two pieces of code with the same order and instructions that do the same. -/
structure Alike (c d : Code) : Prop where
  order : d.order = c.order
  size : d.size = c.size
  instruction : ∀ {h i}, c.get? h = some i → ∃ j, d.get? h = some j ∧ i.Alike j

theorem Alike.refl (c : Code) : c.Alike c := ⟨rfl, rfl, fun found => ⟨_, found, .refl _⟩⟩

theorem Alike.trans {e : Code} (first : c.Alike d) (second : d.Alike e) : c.Alike e where
  order := second.order.trans first.order
  size := second.size.trans first.size
  instruction found := by
    obtain ⟨j, there, alike⟩ := first.instruction found
    obtain ⟨k, behind, onward⟩ := second.instruction there
    exact ⟨k, behind, alike.trans onward⟩

theorem alike_modify_widened (c : Code) (h : Handle) : c.Alike (c.modify h Instruction.widened) where
  order := rfl
  size := by simp [Code.size, modify]
  instruction {g i} found := by
    by_cases same : h.index = g.index
    · exact ⟨i.widened, by simpa [get?, modify, Array.getElem?_modify, same] using ⟨i, found, rfl⟩,
        i.alike_widened⟩
    · exact ⟨i, by simpa [get?, modify, Array.getElem?_modify, same] using found, .refl i⟩

theorem alike_widenEach (c : Code) (handles : List Handle) : c.Alike (c.widenEach handles) := by
  unfold widenEach
  induction handles generalizing c with
  | nil => exact .refl c
  | cons h rest ih => exact (c.alike_modify_widened h).trans (ih _)

theorem alike_widenRounds (fuel : Nat) (c : Code) : c.Alike (widenRounds fuel c).1 := by
  induction fuel generalizing c with
  | zero => exact .refl c
  | succ fuel ih =>
    unfold widenRounds
    split
    · exact .refl c
    · exact (c.alike_widenEach _).trans (ih _)

theorem alike_widen (c : Code) : c.Alike c.widen.1 := c.alike_widenRounds _

theorem Alike.stands {n : Nat} (alike : c.Alike d) (stands : c.order[n]? = some h) : d.order[n]? = some h :=
  alike.order ▸ stands

theorem Alike.holds {position first : Nat} {is : List Instruction} (alike : c.Alike d)
    (holds : c.Holds position first is) : d.Holds position first is := fun n i listed => by
  obtain ⟨stands, j, there, same⟩ := holds n i listed
  obtain ⟨k, behind, onward⟩ := alike.instruction there
  exact ⟨alike.stands stands, k, behind, same.trans onward⟩

theorem Alike.lists {position first : Nat} {is : List Instruction} (alike : c.Alike d)
    (lists : c.Lists position first is) : d.Holds position first is := fun n i listed => by
  obtain ⟨stands, there⟩ := lists n i listed
  exact ⟨alike.stands stands, alike.instruction there⟩

end Code

/-! ### Activations -/

namespace Activation

variable {a : Activation}

theorem position_eq {h : Handle} {n : Nat} (stands : a.body.code.order[n]? = some h) : a.position h = .ok n := by
  unfold position
  rw [a.positions_eq, Code.positions_eq_some_iff.mpr stands]

theorem next_eq {h g : Handle} {n : Nat} (stands : a.body.code.order[n]? = some h)
    (behind : a.body.code.order[n + 1]? = some g) : a.next h = .ok g := by
  unfold next
  rw [a.positions_eq, Code.positions_eq_some_iff.mpr stands]
  simp [behind]

theorem position_eq_ok {h : Handle} {n : Nat} (found : a.position h = .ok n) : a.body.code.order[n]? = some h := by
  unfold position at found
  split at found
  · rename_i place listed
    cases found
    rw [a.positions_eq] at listed
    exact Code.positions_eq_some_iff.mp listed
  · cases found

theorem next_eq_ok {h g : Handle} (found : a.next h = .ok g) :
    ∃ n : Nat, a.body.code.order[n]? = some h ∧ a.body.code.order[n + 1]? = some g := by
  unfold next at found
  split at found
  · rename_i behind listed
    cases found
    obtain ⟨n, place, there⟩ := Option.bind_eq_some_iff.mp listed
    rw [a.positions_eq] at place
    exact ⟨n, Code.positions_eq_some_iff.mp place, there⟩
  · cases found

end Activation

end AspectWeaving

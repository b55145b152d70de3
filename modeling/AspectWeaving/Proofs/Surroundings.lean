import AspectWeaving.Proofs.BranchLayout
import AspectWeaving.Proofs.EntryDominance

/-!
What a decorator leaves alone. A woven body goes around the old one (`Body.Surrounds`): the old instructions stand as they
did under their handles, in two stretches with the prologue between them, and everything else that is new comes behind.
An old instruction is not changed, but that a return becomes a branch to the epilogue and a short branch may become a long
one (`Instruction.Becomes`); slots and clauses are only added to.
-/
namespace AspectWeaving

/-- What an old instruction is in a woven body with an epilogue. -/
inductive Instruction.Becomes (epilogue : Handle) : Instruction → Instruction → Prop
  | same {i : Instruction} (stays : i.opcode ≠ .ret) : Becomes epilogue i i
  | widened {i : Instruction} {form : Opcode} (long : i.opcode.longForm? = some form) :
      Becomes epilogue i { i with opcode := form }
  | redirected {i : Instruction} (ret : i.opcode = .ret) : Becomes epilogue i ⟨.br, .target epilogue⟩

/-- A body goes around an old one: the handles of a prologue stand before an anchor, those of a tail behind the old code. -/
structure Body.Surrounds (new old : Body) (anchor epilogue : Handle) (prologue tail : List Handle) : Prop where
  /-- The old handles keep their order, and there is nothing between them but the prologue. -/
  order : ∃ front rest, old.code.order.toList = front ++ anchor :: rest ∧
    new.code.order.toList = front ++ prologue ++ anchor :: rest ++ tail
  fresh : ∀ h ∈ prologue ++ tail, old.code.contains h = false
  instruction : ∀ {h i}, old.code.get? h = some i → ∃ j, new.code.get? h = some j ∧ i.Becomes epilogue j
  starts : tail.head? = some epilogue
  /-- Of the whole body only the last instruction returns. -/
  returns : ∃ last, tail.getLast? = some last ∧ ∀ {h i}, new.code.get? h = some i → (i.opcode = .ret ↔ h = last)
  slots : ∃ added, added.length = 5 ∧ new.slots.toList = old.slots.toList ++ added
  /-- The old clauses stop where the old code stops, if they ran up to its end. -/
  handlers : ∃ clause, clause.isCatch = true ∧ new.handlers = old.handlers.map (·.closedAt epilogue) ++ [clause]

namespace Weave

variable {w : Weave} {place n : Nat} {new : Body} {h : Handle} {i : Instruction}

/-- The handles of the code behind the old one. -/
def trail (w : Weave) : List Handle := (List.range w.tail.length).map fun n => ⟨w.places.epilogue.index + n⟩

theorem length_entry (w : Weave) : w.entry.length = w.prologue.length := by simp [entry]

theorem getElem?_trail (inside : n < w.tail.length) : w.trail[n]? = some ⟨w.places.epilogue.index + n⟩ := by
  simp [trail, inside]

theorem tail_pos (w : Weave) : 0 < w.tail.length := by
  have := w.epilogue_pos
  rw [length_tail]
  omega

theorem head?_trail (w : Weave) : w.trail.head? = some w.places.epilogue := by
  rw [List.head?_eq_getElem?, getElem?_trail w.tail_pos]
  rfl

theorem getLast?_trail (w : Weave) : w.trail.getLast? = some ⟨w.places.epilogue.index + (w.tail.length - 1)⟩ := by
  have length : w.trail.length = w.tail.length := by simp [trail]
  have := w.tail_pos
  rw [List.getLast?_eq_getElem?, length, getElem?_trail (by omega)]

/-- The handles of added code are none of the old code. -/
theorem added_fresh (w : Weave) : ∀ h ∈ w.entry ++ w.trail, w.old.code.contains h = false := by
  intro h member
  have start : w.places.epilogue.index = w.old.code.size + w.prologue.length := rfl
  simp only [entry, trail, List.mem_append, List.mem_map, List.mem_range] at member
  rcases member with ⟨n, -, rfl⟩ | ⟨n, -, rfl⟩ <;> simp only [Code.contains, decide_eq_false_iff_not] <;> omega

namespace Splices

/-- The new order is the old one with the prologue at its place and the tail at the end. -/
theorem order_eq (splices : w.Splices place new) :
    new.code.order.toList =
      w.old.code.order.toList.take place ++ w.entry ++ w.old.code.order.toList.drop place ++ w.trail := by
  have old : w.old.code.order.toList.length = w.old.code.size := by simpa using w.old.code.size_order
  have whole : new.code.order.toList.length = new.code.size := by simpa using new.code.size_order
  have inside := splices.place_lt
  have size := splices.size_eq
  have front : (w.old.code.order.toList.take place).length = place := by
    rw [List.length_take, old]
    omega
  have rest : (w.old.code.order.toList.drop place).length = w.old.code.size - place := by rw [List.length_drop, old]
  have entry := w.length_entry
  have trail : w.trail.length = w.tail.length := by simp [Weave.trail]
  -- Both lists are of one length, and each entry of the second one is where it is in the first one.
  refine List.ext_getElem? fun n => ?_
  by_cases first : n < place
  · have stands := splices.order (n := n) (Array.getElem?_eq_getElem (by rw [w.old.code.size_order]; omega))
    rw [shift, if_pos first, ← Array.getElem?_toList] at stands
    rw [stands, List.append_assoc, List.append_assoc, List.getElem?_append_left (by omega), List.getElem?_take_of_lt first,
      Array.getElem?_toList]
    exact (Array.getElem?_eq_getElem _).symm
  by_cases second : n < place + w.prologue.length
  · obtain ⟨k, rfl⟩ := Nat.exists_eq_add_of_le (Nat.le_of_not_lt first)
    have bound : k < w.prologue.length := by omega
    rw [Array.getElem?_toList, (splices.prologue k _ (List.getElem?_eq_getElem bound)).1, List.append_assoc, List.append_assoc,
      List.getElem?_append_right (by omega), front, Nat.add_sub_cancel_left, List.getElem?_append_left (by omega),
      getElem?_entry bound]
  by_cases third : n < w.epiloguePosition
  · obtain ⟨k, rfl⟩ := Nat.exists_eq_add_of_le (Nat.le_of_not_lt second)
    unfold epiloguePosition at third
    have stands := splices.order (n := place + k) (Array.getElem?_eq_getElem (by rw [w.old.code.size_order]; omega))
    rw [shift_of_le (Nat.le_add_right _ _), ← Nat.add_assoc, Nat.add_comm _ place, ← Array.getElem?_toList] at stands
    rw [stands, List.getElem?_append_left (by simp only [List.length_append]; omega),
      List.getElem?_append_right (by simp only [List.length_append]; omega), List.length_append, front, entry,
      Nat.add_sub_cancel_left, List.getElem?_drop, Array.getElem?_toList]
    exact (Array.getElem?_eq_getElem _).symm
  · obtain ⟨k, rfl⟩ := Nat.exists_eq_add_of_le (Nat.le_of_not_lt third)
    rw [List.getElem?_append_right (by simp only [List.length_append, epiloguePosition]; omega)]
    simp only [List.length_append, front, entry, rest]
    rw [show w.epiloguePosition + k - (place + w.prologue.length + (w.old.code.size - place)) = k by
      unfold epiloguePosition; omega]
    by_cases last : k < w.tail.length
    · rw [Array.getElem?_toList, splices.tail_order last, getElem?_trail last]
    · unfold epiloguePosition
      rw [List.getElem?_eq_none (by omega), List.getElem?_eq_none (by omega)]

/-- Widening changes an instruction in the place of an old one to a long form at most. -/
theorem becomes {spliced : Body} (splices : w.Splices place spliced) (found : w.old.code.get? h = some i) :
    ∃ j, spliced.widen.1.code.get? h = some j ∧ i.Becomes w.places.epilogue j := by
  have kept := splices.instruction found
  obtain ⟨code, count, replaced, widened, -, -, replaces, -⟩ := spliced.widen_least
  rw [widened]
  change ∃ j, code.get? h = some j ∧ _
  by_cases among : h ∈ replaced
  · obtain ⟨k, form, here, long, there⟩ := replaces.long among
    obtain rfl : redirectReturn w.places.epilogue i = k := Option.some.inj (kept.symm.trans here)
    unfold redirectReturn at long there
    split at long
    · cases long
    · rename_i stays
      rw [if_neg stays] at there
      exact ⟨_, there, .widened long⟩
  · rw [replaces.same among, kept]
    refine ⟨_, rfl, ?_⟩
    unfold redirectReturn
    split
    · exact .redirected ‹_›
    · exact .same ‹_›

/-- A widened body goes around the old one. -/
theorem surrounds {spliced : Body} (splices : w.Splices place spliced) (fetches : ∀ l ∈ w.plan.parameters, l.Fetches) :
    spliced.widen.1.Surrounds w.old w.plan.anchor w.places.epilogue w.entry w.trail := by
  have alike : spliced.code.Alike spliced.widen.1.code := Code.alike_widen spliced.code
  have inside := splices.place_lt
  have drop : w.old.code.order.toList.drop place = w.plan.anchor :: w.old.code.order.toList.drop (place + 1) := by
    have anchor := splices.anchor
    rw [← Array.getElem?_toList] at anchor
    obtain ⟨bound, here⟩ := List.getElem?_eq_some_iff.mp anchor
    rw [List.drop_eq_getElem_cons bound, here]
  refine ⟨⟨w.old.code.order.toList.take place, w.old.code.order.toList.drop (place + 1), ?_, ?_⟩, w.added_fresh,
    splices.becomes, w.head?_trail, ⟨_, w.getLast?_trail, ?_⟩, ⟨w.plan.slots, length_slots _, splices.slots⟩,
    ⟨w.clause, rfl, splices.handlers⟩⟩
  · rw [← drop, List.take_append_drop]
  · rw [← drop, ← splices.order_eq, alike.order]
  · intro h j found
    obtain ⟨i, here, same⟩ := alike.back found
    obtain ⟨k, ends, stops⟩ := splices.last
    have final : k = ⟨w.places.epilogue.index + (w.tail.length - 1)⟩ := by
      have stands := splices.tail_order (Nat.sub_lt w.tail_pos Nat.zero_lt_one)
      rw [Code.last?, Array.back?_eq_getElem?, spliced.code.size_order, splices.size_eq] at ends
      have := w.tail_pos
      rw [show w.prologue.length + w.old.code.size + w.tail.length - 1 = w.epiloguePosition + (w.tail.length - 1) by
        unfold epiloguePosition; omega] at ends
      exact Option.some.inj (ends.symm.trans stands)
    rw [← same.ret_iff, ← final]
    constructor
    · intro ret
      obtain ⟨n, stands⟩ := Code.exists_position (Code.get?_isSome_iff.mp (Option.isSome_of_eq_some here))
      have position := splices.returns_last fetches here stands ret
      rw [Code.last?, Array.back?_eq_getElem?, spliced.code.size_order, ← position, Nat.add_sub_cancel] at ends
      exact Option.some.inj (stands.symm.trans ends)
    · rintro rfl
      obtain rfl := Option.some.inj (here.symm.trans stops)
      rfl

end Splices

end Weave

/-- A decorator that is put around a method only adds to its body, and changes nothing else of it. -/
theorem decorate_surrounds {r : Resolver} {policy : Policy} {d woven : MethodDef} {kind : DecoratorKind} {declaringType : Token}
    {before behind : Workspace} (done : decorate r policy d kind declaringType before = (.ok woven, behind)) :
    ∃ old new anchor epilogue prologue tail, d.body = some old ∧ woven = { d with body := some new } ∧
      findAnchor r before.imports old d.isConstructor = .ok anchor ∧ new.Surrounds old anchor epilogue prologue tail := by
  obtain ⟨-, w, new, decorates, -, anchored⟩ := decorate_eq_ok done
  obtain ⟨place, spliced, splices, rfl⟩ := decorates.splices
  exact ⟨w.old, _, w.plan.anchor, w.places.epilogue, w.entry, w.trail, decorates.old, decorates.woven, anchored,
    splices.surrounds decorates.planned.fetches⟩

/-- A constructor has its prologue behind the call of another one, and its return leads to the epilogue. -/
theorem Sample.branching_surrounded :
    ∃ woven old new anchor epilogue prologue tail, (wrapped ⟨2⟩).1 = .ok woven ∧ (branching ⟨2⟩).body = some old ∧
      woven = { branching ⟨2⟩ with body := some new } ∧ anchor = ⟨4⟩ ∧ new.Surrounds old anchor epilogue prologue tail ∧
      new.code.get? ⟨4⟩ = some ⟨.br, .target epilogue⟩ := by
  obtain ⟨woven, done⟩ := exists_ok_fst (show (wrapped ⟨2⟩).1.isOk = true by decide +kernel)
  obtain ⟨old, new, anchor, epilogue, prologue, tail, body, rest, anchored, surrounds⟩ := decorate_surrounds done
  obtain rfl : (branching ⟨2⟩).body.get rfl = old := Option.some.inj body
  have found : findAnchor (.ofModule (widgets ⟨2⟩)) rows ((branching ⟨2⟩).body.get rfl) true = .ok ⟨4⟩ := rfl
  have returns : ((branching ⟨2⟩).body.get rfl).code.get? ⟨4⟩ = some ⟨.ret, .none⟩ := rfl
  obtain ⟨j, there, becomes⟩ := surrounds.instruction returns
  refine ⟨woven, _, new, anchor, epilogue, prologue, tail, congrArg Prod.fst done, body, rest,
    Except.ok.inj (anchored.symm.trans found), surrounds, ?_⟩
  cases becomes with
  | same stays => exact absurd rfl stays
  | widened long => cases long
  | redirected => exact there

end AspectWeaving

import AspectWeaving.Proofs.EntryDominance

/-!
Regions of woven code. Regions are bounded by handles, so the code of a weave grows into a region of the old code if
the prologue goes in between its bounds or right before the one at which it stops (`Span.Straddles`). All regions
survive a weave exactly if there is no such region (`Weave.Splices.survives_iff`). A method that is no constructor has
none, but a constructor may call another one in protected code, and then its handlers guard the prologue as well.
-/
namespace AspectWeaving

/-! ### Spans and regions -/

namespace Span

/-- Two spans have no position in common. -/
def Apart (s t : Span) : Prop := s.stop ≤ t.start ∨ t.stop ≤ s.start

/-- A span has all positions of another one. -/
def Covers (s t : Span) : Prop := s.start ≤ t.start ∧ t.stop ≤ s.stop

/-- A span starts before a place and does not stop before it. -/
def Straddles (s : Span) (place : Nat) : Prop := s.start < place ∧ place ≤ s.stop

instance (s t : Span) : Decidable (s.Apart t) := inferInstanceAs (Decidable (_ ∨ _))

instance (s t : Span) : Decidable (s.Covers t) := inferInstanceAs (Decidable (_ ∧ _))

instance (s : Span) (place : Nat) : Decidable (s.Straddles place) := inferInstanceAs (Decidable (_ ∧ _))

theorem Apart.symm {s t : Span} (apart : s.Apart t) : t.Apart s := Or.symm apart

theorem Covers.refl (s : Span) : s.Covers s := ⟨Nat.le_refl _, Nat.le_refl _⟩

end Span

/-- The two regions of a clause. -/
def Handler.regions (c : Handler) : List Region := [c.guarded, c.handling]

namespace Body

variable {b b' : Body} {r : Region} {s : Span}

/-- The regions of all clauses. -/
def regions (b : Body) : List Region := b.handlers.flatMap (·.regions)

/-- The handles that stand in a region, in order. -/
def handlesIn? (b : Body) (r : Region) : Option (List Handle) :=
  (b.span? r).map fun s => (b.code.order.extract s.start s.stop).toList

/-- Of every two regions the one is inside the other, or they are apart. -/
def Nested (b : Body) : Prop :=
  ∀ r ∈ b.regions, ∀ r' ∈ b.regions, ∀ s s', b.span? r = some s → b.span? r' = some s' →
    s.Apart s' ∨ s.Covers s' ∨ s'.Covers s

/-- A region is around a place of the code, or stops there. -/
def Straddles (b : Body) (r : Region) (place : Nat) : Prop := ∃ s, b.span? r = some s ∧ s.Straddles place

theorem mem_regions_iff : r ∈ b.regions ↔ ∃ c ∈ b.handlers, r = c.guarded ∨ r = c.handling := by
  simp [regions, Handler.regions]

/-- A region of a valid body has some code, of which no instruction returns. -/
theorem Valid.region (valid : b.Valid) (member : r ∈ b.regions) :
    ∃ s, b.span? r = some s ∧ s.start < s.stop ∧ s.stop ≤ b.code.size ∧
      ∀ n h i, s.contains n = true → b.code.order[n]? = some h → b.code.get? h = some i → i.opcode ≠ .ret := by
  obtain ⟨c, listed, rfl | rfl⟩ := mem_regions_iff.mp member
  all_goals obtain ⟨guarded, handling, encloses⟩ := valid.clause listed
  · refine ⟨guarded, encloses.guarded_eq, encloses.guards, span?_stop_le encloses.guarded_eq, ?_⟩
    intro n h i inside stands found ret
    rw [(valid.returns stands found ret listed encloses).1] at inside
    cases inside
  · refine ⟨handling, encloses.handling_eq, encloses.handles, span?_stop_le encloses.handling_eq, ?_⟩
    intro n h i inside stands found ret
    rw [(valid.returns stands found ret listed encloses).2] at inside
    cases inside

theorem handlesIn?_of_alike (alike : b.code.Alike b'.code) (r : Region) : b'.handlesIn? r = b.handlesIn? r := by
  unfold handlesIn?
  rw [span?_of_alike alike, alike.order]

end Body

/-! ### Woven regions -/

namespace Weave

variable {w : Weave} {place : Nat} {new : Body} {r : Region} {s t : Span}

/-- A region of the old code in the new one. -/
def closed (w : Weave) (r : Region) : Region := ⟨r.start, some (r.stop.getD w.places.epilogue)⟩

/-- The regions of the old code have the handles that they had, and those of the weave are apart from them or around
    them. -/
structure Survives (w : Weave) (new : Body) : Prop where
  intact : ∀ r ∈ w.old.regions, new.handlesIn? (w.closed r) = w.old.handlesIn? r
  parted : ∀ r ∈ w.old.regions, ∀ added ∈ w.clause.regions, ∀ s t, new.span? added = some s →
    new.span? (w.closed r) = some t → s.Apart t ∨ s.Covers t

theorem regions_map_closedAt (w : Weave) :
    (w.old.handlers.map (·.closedAt w.places.epilogue)).flatMap (·.regions) = w.old.regions.map w.closed := by
  rw [Body.regions, List.flatMap_map, List.map_flatMap]
  rfl

theorem shift_le_handlerPosition {n : Nat} (inside : n ≤ w.old.code.size) : w.shift place n ≤ w.handlerPosition := by
  unfold shift handlerPosition epiloguePosition
  split <;> omega

/-- The region that a weave protects is apart from a region of the old code or around it, exactly if the prologue does
    not go in between the bounds of that. -/
theorem parted_guarded_iff (some_ : s.start < s.stop) (inside : s.stop ≤ w.old.code.size) :
    (Span.Apart ⟨w.prologue.length + place, w.handlerPosition⟩ ⟨w.shift place s.start, w.shift place s.stop⟩ ∨
        Span.Covers ⟨w.prologue.length + place, w.handlerPosition⟩ ⟨w.shift place s.start, w.shift place s.stop⟩) ↔
      ¬ (s.start < place ∧ place < s.stop) := by
  have front := w.prologue_pos
  have behind := w.epilogue_pos
  simp only [Span.Apart, Span.Covers]
  unfold shift handlerPosition epiloguePosition
  split <;> split <;> omega

/-- The handler of a weave is apart from all regions of the old code. -/
theorem parted_handling (inside : s.stop ≤ w.old.code.size) :
    Span.Apart ⟨w.handlerPosition, w.returnPosition⟩ ⟨w.shift place s.start, w.shift place s.stop⟩ :=
  .inr (shift_le_handlerPosition inside)

namespace Splices

theorem regions_eq (splices : w.Splices place new) : new.regions = w.old.regions.map w.closed ++ w.clause.regions := by
  rw [Body.regions, splices.handlers, List.flatMap_append, regions_map_closedAt, List.flatMap_singleton]

theorem span?_closed (splices : w.Splices place new) (found : w.old.span? r = some s) :
    new.span? (w.closed r) = some ⟨w.shift place s.start, w.shift place s.stop⟩ := splices.span? found

/-- A region has the handles it had, exactly if the prologue does not go into it. -/
theorem handlesIn?_closed_iff (splices : w.Splices place new) (found : w.old.span? r = some s) (some_ : s.start < s.stop)
    (inside : s.stop ≤ w.old.code.size) :
    new.handlesIn? (w.closed r) = w.old.handlesIn? r ↔ ¬ s.Straddles place := by
  have front := w.prologue_pos
  have bound : w.prologue.length + w.old.code.size ≤ new.code.order.size := by
    rw [new.code.size_order, splices.size_eq]
    omega
  have old : w.old.code.order.size = w.old.code.size := w.old.code.size_order
  unfold Body.handlesIn?
  rw [splices.span?_closed found, found, Option.map_some, Option.map_some, Option.some_inj]
  constructor
  · rintro same ⟨before, behind⟩
    -- The prologue makes the region longer.
    have counts := congrArg List.length same
    simp only [Array.length_toList, Array.size_extract] at counts
    rw [shift_of_le behind, shift, if_pos before] at counts
    omega
  · intro outside
    apply List.ext_getElem?
    intro k
    rw [Array.getElem?_toList, Array.getElem?_toList, Array.getElem?_extract, Array.getElem?_extract]
    have moved : w.shift place s.stop - w.shift place s.start = s.stop - s.start ∧
        ∀ k, s.start + k < s.stop → w.shift place s.start + k = w.shift place (s.start + k) := by
      simp only [Span.Straddles, not_and, Nat.not_le] at outside
      by_cases early : s.start < place
      · have before := outside early
        refine ⟨?_, fun k inside => ?_⟩
        · simp only [shift, if_pos early, if_pos before]
        · simp only [shift, if_pos early, if_pos (Nat.lt_trans inside before)]
      · rw [Nat.not_lt] at early
        refine ⟨?_, fun k inside => ?_⟩
        · rw [shift_of_le early, shift_of_le (by omega)]
          omega
        · rw [shift_of_le early, shift_of_le (by omega)]
          omega
    have stops : w.shift place s.stop ≤ new.code.order.size := by
      refine Nat.le_trans ?_ bound
      unfold shift
      split <;> omega
    rw [Nat.min_eq_left stops, Nat.min_eq_left (by omega), moved.1]
    by_cases here : k < s.stop - s.start
    · obtain ⟨h, stands⟩ : ∃ h, w.old.code.order[s.start + k]? = some h :=
        ⟨_, Array.getElem?_eq_getElem (by omega)⟩
      rw [if_pos here, if_pos here, stands, moved.2 k (by omega)]
      exact splices.order stands
    · rw [if_neg here, if_neg here]

/-- The regions of a weave, in order. -/
theorem span?_added (splices : w.Splices place new) :
    new.span? w.clause.guarded = some ⟨w.prologue.length + place, w.handlerPosition⟩ ∧
      new.span? w.clause.handling = some ⟨w.handlerPosition, w.returnPosition⟩ :=
  ⟨splices.encloses_clause.guarded_eq, splices.encloses_clause.handling_eq⟩

/-- All regions survive, exactly if the prologue goes into none. -/
theorem survives_iff (splices : w.Splices place new) (valid : w.old.Valid) :
    w.Survives new ↔ ∀ r ∈ w.old.regions, ¬ w.old.Straddles r place := by
  constructor
  · rintro survives r member ⟨s, found, straddles⟩
    obtain ⟨s', same, some_, inside, -⟩ := valid.region member
    cases found.symm.trans same
    exact (splices.handlesIn?_closed_iff found some_ inside).mp (survives.intact r member) straddles
  · intro outside
    constructor
    · intro r member
      obtain ⟨s, found, some_, inside, -⟩ := valid.region member
      exact (splices.handlesIn?_closed_iff found some_ inside).mpr fun straddles => outside r member ⟨s, found, straddles⟩
    · intro r member added listed s t here there
      obtain ⟨s', found, some_, inside, -⟩ := valid.region member
      cases there.symm.trans (splices.span?_closed found)
      simp only [Handler.regions, List.mem_cons, List.not_mem_nil, or_false] at listed
      rcases listed with rfl | rfl
      · cases here.symm.trans splices.span?_added.1
        exact (parted_guarded_iff some_ inside).mpr fun ⟨before, behind⟩ =>
          outside r member ⟨s', found, before, Nat.le_of_lt behind⟩
      · cases here.symm.trans splices.span?_added.2
        exact .inl (parted_handling inside)

/-- Where all regions survive, nested ones stay nested. -/
theorem nested (splices : w.Splices place new) (valid : w.old.Valid) (nested : w.old.Nested) (survives : w.Survives new) :
    new.Nested := by
  have added : ∀ r ∈ w.old.regions, ∀ r' ∈ w.clause.regions, ∀ s s', new.span? (w.closed r) = some s →
      new.span? r' = some s' → s.Apart s' ∨ s.Covers s' ∨ s'.Covers s := by
    intro r member r' listed s s' here there
    rcases survives.parted r member r' listed s' s there here with apart | covers
    · exact .inl apart.symm
    · exact .inr (.inr covers)
  have clause : ∀ r ∈ w.clause.regions, ∀ r' ∈ w.clause.regions, ∀ s s', new.span? r = some s →
      new.span? r' = some s' → s.Apart s' ∨ s.Covers s' ∨ s'.Covers s := by
    obtain ⟨guarded, handling⟩ := splices.span?_added
    simp only [Handler.regions, List.mem_cons, List.not_mem_nil, or_false]
    rintro r (rfl | rfl) r' (rfl | rfl) s s' here there
    · cases here.symm.trans there
      exact .inr (.inl (.refl s))
    · cases here.symm.trans guarded
      cases there.symm.trans handling
      exact .inl (.inl (Nat.le_refl _))
    · cases here.symm.trans handling
      cases there.symm.trans guarded
      exact .inl (.inr (Nat.le_refl _))
    · cases here.symm.trans there
      exact .inr (.inl (.refl s))
  intro r member r' member' s s' here there
  rw [splices.regions_eq] at member member'
  rcases List.mem_append.mp member with old | last <;> rcases List.mem_append.mp member' with old' | last'
  · obtain ⟨q, listed, rfl⟩ := List.mem_map.mp old
    obtain ⟨q', listed', rfl⟩ := List.mem_map.mp old'
    obtain ⟨t, found, -⟩ := valid.region listed
    obtain ⟨t', found', -⟩ := valid.region listed'
    cases here.symm.trans (splices.span?_closed found)
    cases there.symm.trans (splices.span?_closed found')
    rcases nested q listed q' listed' t t' found found' with apart | covers | covered
    · exact .inl (apart.imp shift_le_shift shift_le_shift)
    · exact .inr (.inl (covers.imp shift_le_shift shift_le_shift))
    · exact .inr (.inr (covered.imp shift_le_shift shift_le_shift))
  · obtain ⟨q, listed, rfl⟩ := List.mem_map.mp old
    exact added q listed r' last' s s' here there
  · obtain ⟨q, listed, rfl⟩ := List.mem_map.mp old'
    rcases added q listed r last s' s there here with apart | covers | covered
    · exact .inl apart.symm
    · exact .inr (.inr covers)
    · exact .inr (.inl covered)
  · exact clause r last r' last' s s' here there

end Splices

theorem survives_widen_iff : w.Survives new.widen.1 ↔ w.Survives new := by
  have alike : new.code.Alike new.widen.1.code := Code.alike_widen new.code
  constructor
  · rintro ⟨intact, parted⟩
    simp only [Body.handlesIn?_of_alike alike, Body.span?_of_alike alike] at intact parted
    exact ⟨intact, parted⟩
  · rintro ⟨intact, parted⟩
    constructor
    · simpa only [Body.handlesIn?_of_alike alike] using intact
    · simpa only [Body.span?_of_alike alike] using parted

end Weave

theorem Body.nested_widen_iff {b : Body} : b.widen.1.Nested ↔ b.Nested := by
  have alike : b.code.Alike b.widen.1.code := Code.alike_widen b.code
  have regions : b.widen.1.regions = b.regions := rfl
  simp only [Nested, regions, span?_of_alike alike]

/-! ### Decorated methods -/

section Decorated

variable {r : Resolver} {policy : Policy} {d woven : MethodDef} {kind : DecoratorKind} {declaringType : Token}
  {before behind : Workspace} {b : Body}

/-- All regions of a decorated method survive, exactly if the prologue of a constructor goes into none of them. The
    instructions of the regions stay in any case, but for a longer form of a branch. -/
theorem survives_iff_of_decorate (body : d.body = some b) (valid : b.validate = .ok ()) (nested : b.Nested)
    (done : decorate r policy d kind declaringType before = (.ok woven, behind)) :
    ∃ (w : Weave) (place : Nat) (new : Body), w.old = b ∧ woven = { d with body := some new } ∧
      findAnchor r before.imports b d.isConstructor = .ok w.plan.anchor ∧
      b.code.position? w.plan.anchor = some place ∧ new.code.Holds place b.code.size w.prologue ∧
      new.regions = b.regions.map w.closed ++ w.clause.regions ∧
      (∀ r ∈ b.regions, ∀ handles, b.handlesIn? r = some handles → ∀ h ∈ handles,
        ∃ i j, b.code.get? h = some i ∧ new.code.get? h = some j ∧ i.Alike j) ∧
      (w.Survives new ↔ (d.isConstructor = true → ∀ r ∈ b.regions, ¬ b.Straddles r place)) ∧
      (w.Survives new → new.Nested) := by
  obtain ⟨-, w, new, decorates, -, anchored⟩ := decorate_eq_ok done
  obtain rfl : b = w.old := Option.some.inj (body.symm.trans decorates.old)
  obtain ⟨place, spliced, splices, rfl⟩ := decorates.splices
  have valid := Body.validate_eq_ok_iff.mp valid
  have alike : spliced.code.Alike spliced.widen.1.code := Code.alike_widen spliced.code
  refine ⟨w, place, _, rfl, decorates.woven, anchored, Code.position?_eq_some_iff.mpr splices.anchor,
    alike.lists splices.prologue, splices.regions_eq, ?_, ?_, ?_⟩
  · intro r member handles listed h here
    obtain ⟨s, found, some_, inside, stays⟩ := valid.region member
    unfold Body.handlesIn? at listed
    rw [found] at listed
    cases listed
    obtain ⟨k, there⟩ := List.mem_iff_getElem?.mp here
    rw [Array.getElem?_toList, Array.getElem?_extract] at there
    by_cases low : k < min s.stop w.old.code.order.size - s.start
    · rw [if_pos low] at there
      obtain ⟨i, at_⟩ := Code.get?_eq_some_of_order there
      have within : s.contains (s.start + k) = true := by
        simp only [Span.contains, Bool.and_eq_true, decide_eq_true_eq]
        omega
      have kept := splices.instruction at_
      rw [redirectReturn, if_neg (stays _ _ _ within there at_)] at kept
      obtain ⟨j, widened, same⟩ := alike.instruction kept
      exact ⟨i, j, at_, widened, same⟩
    · rw [if_neg low] at there
      cases there
  · rw [Weave.survives_widen_iff, splices.survives_iff valid]
    refine ⟨fun outside _ => outside, fun outside => ?_⟩
    by_cases constructor : d.isConstructor = true
    · exact outside constructor
    · have first := decorates.planned.anchor (Bool.not_eq_true _ ▸ constructor)
      obtain rfl := Code.order_inj splices.anchor first
      rintro r - ⟨s, -, early, -⟩
      cases early
  · rw [Weave.survives_widen_iff, Body.nested_widen_iff]
    exact splices.nested valid nested

end Decorated

/-! ### Constructors with handlers -/

namespace Sample

/-- A constructor that calls another one in protected code, if that starts there. -/
def guarding (start : Handle) : MethodDef where
  name := constructorName
  body := some
    { code := .ofList [⟨.ldarg0, .none⟩, ⟨.call, .method (.ofParts Token.methodDef 4)⟩, ⟨.leaveS, .target ⟨5⟩⟩,
        ⟨.pop, .none⟩, ⟨.leaveS, .target ⟨5⟩⟩, ⟨.ret, .none⟩]
      handlers := [{ guarded := ⟨start, some ⟨3⟩⟩, handling := ⟨⟨3⟩, some ⟨5⟩⟩, catchType := none }] }
  attributes := [{ type := .ofParts Token.typeDef 1 }]
  token := .ofParts Token.methodDef 5

/-- The module of the decorator, of a type to derive from and of one with the constructor. -/
def gadgets (start : Handle) : Module :=
  let empty : Module := { name := "Sample", library := .standard, imports := rows }
  let gadget : TypeDecl :=
    { name := ⟨"Sample", "Gadget"⟩
      base := some (.definition (.ofParts Token.typeDef 2))
      methods := [(guarding start).toMethod] }
  (((empty.addType logger).1.addType base).1.addType gadget).1

/-- The constructor with the decorator around it. -/
def shielded (start : Handle) : Except Fault MethodDef × Workspace :=
  decorate (.ofModule (gadgets start)) {} (guarding start) kind (.ofParts Token.typeDef 3) { imports := rows }

private theorem span?_guarding {start : Handle} (inside : start.index < 3) :
    ((guarding start).body.get rfl).span? ⟨start, some ⟨3⟩⟩ = some ⟨start.index, 3⟩ ∧
      ((guarding start).body.get rfl).span? ⟨⟨3⟩, some ⟨5⟩⟩ = some ⟨3, 5⟩ := by
  obtain ⟨index⟩ := start
  simp only at inside
  constructor <;> refine Body.span?_eq_some_iff.mpr ⟨?_, rfl⟩
  · interval_cases index <;> rfl
  · rfl

private theorem regions_guarding (start : Handle) :
    ((guarding start).body.get rfl).regions = [⟨start, some ⟨3⟩⟩, ⟨⟨3⟩, some ⟨5⟩⟩] := rfl

theorem nested_guarding {start : Handle} (inside : start.index < 3) : ((guarding start).body.get rfl).Nested := by
  obtain ⟨first, second⟩ := span?_guarding inside
  unfold Body.Nested
  rw [regions_guarding]
  simp only [List.mem_cons, List.not_mem_nil, or_false]
  rintro r (rfl | rfl) r' (rfl | rfl) s s' here there
  · cases here.symm.trans there
    exact .inr (.inl (.refl s))
  · cases here.symm.trans first
    cases there.symm.trans second
    exact .inl (.inl (Nat.le_refl 3))
  · cases here.symm.trans second
    cases there.symm.trans first
    exact .inl (.inr (Nat.le_refl 3))
  · cases here.symm.trans there
    exact .inr (.inl (.refl s))

/-- The prologue goes behind the call of the other constructor. -/
private theorem anchor_guarding {start : Handle} {rows : ImportTable} {place : Nat} {anchor : Handle}
    (anchored : findAnchor (.ofModule (gadgets start)) rows ((guarding start).body.get rfl) true = .ok anchor)
    (stands : ((guarding start).body.get rfl).code.order[place]? = some anchor) : place = 2 := by
  have found : findAnchor (.ofModule (gadgets start)) rows ((guarding start).body.get rfl) true = .ok ⟨2⟩ := rfl
  obtain rfl := Except.ok.inj (found.symm.trans anchored)
  exact Code.order_inj stands rfl

/-- Protected code that starts behind the call of the other constructor survives. -/
theorem guarding_survives :
    ((guarding ⟨2⟩).body.get rfl).validate = .ok () ∧
      ∃ (w : Weave) (new : Body) (woven : MethodDef), (shielded ⟨2⟩).1 = .ok woven ∧ woven.body = some new ∧
        w.old = (guarding ⟨2⟩).body.get rfl ∧ w.Survives new ∧ new.Nested := by
  have valid : ((guarding ⟨2⟩).body.get rfl).validate = .ok () := isOk_eq_true_iff.mp (by decide +kernel)
  obtain ⟨woven, done⟩ := exists_ok_fst (show (shielded ⟨2⟩).1.isOk = true by decide +kernel)
  obtain ⟨w, place, new, old, rfl, anchored, stands, -, -, -, survives, nested⟩ :=
    survives_iff_of_decorate rfl valid (nested_guarding (by decide)) done
  obtain rfl := anchor_guarding anchored (Code.position?_eq_some_iff.mp stands)
  have whole := survives.mpr fun _ => by
    obtain ⟨first, second⟩ := @span?_guarding ⟨2⟩ (by decide)
    rw [regions_guarding]
    simp only [List.mem_cons, List.not_mem_nil, or_false]
    rintro r (rfl | rfl) ⟨s, found, straddles⟩
    · cases found.symm.trans first
      exact absurd straddles (by decide)
    · cases found.symm.trans second
      exact absurd straddles (by decide)
  exact ⟨valid, w, new, _, congrArg Prod.fst done, rfl, old, whole, nested whole⟩

/-- Around the call of the other constructor, the prologue goes into the protected code, and the region that the weave
    protects neither stays apart from that nor encloses it. -/
theorem guarding_invaded :
    ((guarding ⟨0⟩).body.get rfl).validate = .ok () ∧ ((guarding ⟨0⟩).body.get rfl).Nested ∧
      ∃ (w : Weave) (new : Body) (woven : MethodDef) (r : Region) (s t : Span), (shielded ⟨0⟩).1 = .ok woven ∧
        woven.body = some new ∧ w.old = (guarding ⟨0⟩).body.get rfl ∧ r ∈ w.old.regions ∧
        new.handlesIn? (w.closed r) ≠ w.old.handlesIn? r ∧ new.span? w.clause.guarded = some s ∧
        new.span? (w.closed r) = some t ∧ ¬ (s.Apart t ∨ s.Covers t) := by
  have valid : ((guarding ⟨0⟩).body.get rfl).validate = .ok () := isOk_eq_true_iff.mp (by decide +kernel)
  obtain ⟨woven, done⟩ := exists_ok_fst (show (shielded ⟨0⟩).1.isOk = true by decide +kernel)
  obtain ⟨-, w, new, decorates, -, anchored⟩ := decorate_eq_ok done
  obtain ⟨place, spliced, splices, rfl⟩ := decorates.splices
  have old : w.old = (guarding ⟨0⟩).body.get rfl := Option.some.inj (decorates.old.symm.trans rfl)
  have stands := splices.anchor
  rw [old] at anchored stands
  obtain rfl := anchor_guarding anchored stands
  have found : w.old.span? ⟨⟨0⟩, some ⟨3⟩⟩ = some ⟨0, 3⟩ := by
    rw [old]
    exact (span?_guarding (by decide)).1
  have inside : 3 ≤ w.old.code.size := by
    rw [old]
    decide
  have alike : spliced.code.Alike spliced.widen.1.code := Code.alike_widen spliced.code
  have grown := mt (splices.handlesIn?_closed_iff found (by decide) inside).mp (not_not.mpr (by decide))
  have crossing := mt (@Weave.parted_guarded_iff w 2 ⟨0, 3⟩ (by decide) inside).mp
    (not_not.mpr (by decide))
  refine ⟨valid, nested_guarding (by decide), w, spliced.widen.1, woven, ⟨⟨0⟩, some ⟨3⟩⟩, _, _, congrArg Prod.fst done,
    ?_, old, ?_, ?_, ?_, ?_, crossing⟩
  · rw [decorates.woven]
  · rw [old, regions_guarding]
    exact List.mem_cons_self
  · rw [Body.handlesIn?_of_alike alike]
    exact grown
  · rw [Body.span?_of_alike alike]
    exact splices.span?_added.1
  · rw [Body.span?_of_alike alike]
    exact splices.span?_closed found

end Sample

end AspectWeaving

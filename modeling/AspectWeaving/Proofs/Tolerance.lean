import AspectWeaving.Proofs.HookDiscipline
import AspectWeaving.Proofs.WovenValidity

/-!
What weaving tolerates. Only woven bodies are validated, and the code of a weave covers up some of what may be wrong
with the old body: slots that are not declared but added, bounds and targets that are not there but added, returns
inside of regions, and a last instruction that lets control go on. A body without these (`Body.SelfContained`) is woven
under validation only if it is valid itself, and no other fault of a body is covered up (`tolerated_of_decorate`).
-/
namespace AspectWeaving

namespace Body

variable {b : Body} {slots size : Nat}

/-- A body that hangs together as part of a longer one with more slots, where its returns are replaced. -/
structure Tolerated (b : Body) (slots size : Nat) : Prop where
  nonempty : b.code.first?.isSome
  instruction : ∀ {h i}, b.code.get? h = some i → i.opcode ≠ .ret → i.Fits slots size
  bound : ∀ {c h}, c ∈ b.handlers → h ∈ c.boundaries → h.index < size
  /-- Clauses with bounds of the body have them in order. -/
  clause : ∀ {c}, c ∈ b.handlers → (∀ h ∈ c.boundaries, h.index < b.code.size) → ∃ guarded handling, b.Encloses c guarded handling

/-- A body that leads and refers to nothing but its own code and slots, and that returns outside of regions. -/
structure SelfContained (b : Body) : Prop where
  slot : ∀ {h i slot}, b.code.get? h = some i → i.slot? = some slot → slot.toNat < b.slots.size
  target : ∀ {h i target}, b.code.get? h = some i → i.target? = some target → target.index < b.code.size
  bound : ∀ {c h}, c ∈ b.handlers → h ∈ c.boundaries → h.index < b.code.size
  operand : ∀ {h i}, b.code.get? h = some i → i.opcode = .ret → i.operandMatches = true
  returns : ∀ {n h i c guarded handling}, b.code.order[n]? = some h → b.code.get? h = some i → i.opcode = .ret →
    c ∈ b.handlers → b.Encloses c guarded handling → guarded.contains n = false ∧ handling.contains n = false
  last : ∀ {h i}, b.code.last? = some h → b.code.get? h = some i → i.opcode.fallsThrough = false

theorem bounds_of_span? {r : Region} {s : Span} (found : b.span? r = some s) :
    r.start.index < b.code.size ∧ ∀ h ∈ r.stop, h.index < b.code.size := by
  obtain ⟨start, stop⟩ := span?_eq_some_iff.mp found
  refine ⟨(b.code.mem_order_iff _).mp (Array.mem_of_getElem? start), fun h last => ?_⟩
  rw [Option.mem_def.mp last] at stop
  exact (b.code.mem_order_iff h).mp (Array.mem_of_getElem? stop)

theorem Encloses.bounds {c : Handler} {guarded handling : Span} (encloses : b.Encloses c guarded handling) :
    ∀ h ∈ c.boundaries, h.index < b.code.size := by
  obtain ⟨start, stop⟩ := bounds_of_span? encloses.guarded_eq
  obtain ⟨start', stop'⟩ := bounds_of_span? encloses.handling_eq
  intro h member
  simp only [Handler.boundaries, List.cons_append, List.mem_cons, List.mem_append, Option.mem_toList] at member
  rcases member with rfl | member | rfl | member
  · exact start
  · exact stop h member
  · exact start'
  · exact stop' h member

/-- A region with bounds that are there has a span. -/
theorem exists_span? {r : Region} (start : r.start.index < b.code.size) (stop : ∀ h ∈ r.stop, h.index < b.code.size) :
    ∃ s, b.span? r = some s := by
  obtain ⟨n, first⟩ := Code.exists_position start
  cases last : r.stop with
  | none => exact ⟨⟨n, b.code.size⟩, span?_eq_some_iff.mpr ⟨first, by rw [last]; rfl⟩⟩
  | some h =>
    obtain ⟨m, stands⟩ := Code.exists_position (stop h last)
    exact ⟨⟨n, m⟩, span?_eq_some_iff.mpr ⟨first, by rw [last]; exact stands⟩⟩

/-- What is tolerated is valid, if it is self-contained. -/
theorem Tolerated.valid_iff (tolerated : b.Tolerated slots size) : b.Valid ↔ b.SelfContained := by
  constructor
  · intro valid
    refine ⟨fun found => (valid.instruction found).slot, fun found => (valid.instruction found).target, ?_,
      fun found _ => (valid.instruction found).operand, valid.returns, ?_⟩
    · intro c h member bound
      obtain ⟨guarded, handling, encloses⟩ := valid.clause member
      exact encloses.bounds h bound
    · intro h i ends found
      obtain ⟨g, j, last, there, stays⟩ := valid.last
      cases ends.symm.trans last
      cases found.symm.trans there
      exact stays
  · intro contained
    refine ⟨?_, fun {h i} found => ?_, fun member => tolerated.clause member fun h => contained.bound member,
      contained.returns⟩
    · obtain ⟨first, starts⟩ := Option.isSome_iff_exists.mp tolerated.nonempty
      have bound := (Array.getElem?_eq_some_iff.mp starts).1
      obtain ⟨h, stands⟩ : ∃ h, b.code.order[b.code.order.size - 1]? = some h :=
        ⟨_, Array.getElem?_eq_getElem (Nat.sub_lt bound Nat.one_pos)⟩
      have ends : b.code.last? = some h := Array.back?_eq_getElem?.trans stands
      obtain ⟨i, found⟩ := Code.get?_eq_some_of_order stands
      exact ⟨h, i, ends, found, contained.last ends found⟩
    · refine ⟨?_, contained.target found, contained.slot found⟩
      by_cases ret : i.opcode = .ret
      · exact contained.operand found ret
      · exact (tolerated.instruction found ret).operand

end Body

/-! ### Woven bodies -/

section Woven

variable {w : Weave} {place n m : Nat} {new : Body}

theorem Weave.lt_of_shift_lt (before : w.shift place n < w.shift place m) : n < m :=
  Nat.lt_of_not_le fun behind => Nat.not_lt.mpr (shift_le_shift behind) before

theorem Weave.le_of_shift_le (before : w.shift place n ≤ w.shift place m) : n ≤ m :=
  Nat.le_of_not_lt fun behind => Nat.not_le.mpr (shift_lt_shift behind) before

/-- A clause with bounds of the old body has had them in order. -/
theorem Weave.Splices.encloses_old {c : Handler} {guarded handling : Span} (splices : w.Splices place new)
    (bounds : ∀ h ∈ c.boundaries, h.index < w.old.code.size)
    (encloses : new.Encloses (c.closedAt w.places.epilogue) guarded handling) :
    ∃ guarded handling, w.old.Encloses c guarded handling := by
  simp only [Handler.boundaries, List.cons_append, List.mem_cons, List.mem_append, Option.mem_toList] at bounds
  obtain ⟨s, first⟩ := Body.exists_span? (bounds _ (.inl rfl)) fun h stop => bounds h (.inr (.inl stop))
  obtain ⟨t, second⟩ := Body.exists_span? (bounds _ (.inr (.inr (.inl rfl)))) fun h stop =>
    bounds h (.inr (.inr (.inr stop)))
  obtain ⟨found, found', guards, apart, handles⟩ := encloses
  cases found.symm.trans (splices.span? first)
  cases found'.symm.trans (splices.span? second)
  exact ⟨s, t, first, second, Weave.lt_of_shift_lt guards, Weave.le_of_shift_le apart, Weave.lt_of_shift_lt handles⟩

theorem Weave.Splices.tolerated (splices : w.Splices place new) (tolerates : w.Tolerates new) :
    w.old.Tolerated new.slots.size new.code.size := by
  refine ⟨?_, tolerates.instruction, fun {c h} member bound => ?_, fun {c} member bounds => ?_⟩
  · have inside := splices.place_lt
    rw [← w.old.code.size_order] at inside
    exact Option.isSome_of_eq_some (Array.getElem?_eq_getElem (Nat.zero_lt_of_lt inside))
  · obtain ⟨guarded, handling, encloses⟩ := tolerates.clause member
    apply encloses.bounds
    simp only [Handler.boundaries, List.cons_append, List.mem_cons, List.mem_append, Option.mem_toList] at bound ⊢
    rcases bound with rfl | stop | rfl | stop
    · exact .inl rfl
    · exact .inr (.inl (by simp [Handler.closedAt, Option.mem_def.mp stop]))
    · exact .inr (.inr (.inl rfl))
    · exact .inr (.inr (.inr (by simp [Handler.closedAt, Option.mem_def.mp stop])))
  · obtain ⟨guarded, handling, encloses⟩ := tolerates.clause member
    exact splices.encloses_old bounds encloses

end Woven

section Decorated

variable {r : Resolver} {policy : Policy} {d woven : MethodDef} {kind : DecoratorKind} {declaringType : Token}
  {before behind : Workspace} {b : Body}

/-- Under a policy that validates, a woven method has had a body that hangs together as far as woven code shows: in the
    longer code, with five slots more, and but for its returns. It has been valid, exactly if it was self-contained. -/
theorem tolerated_of_decorate (body : d.body = some b) (checks : policy.validates = true)
    (done : decorate r policy d kind declaringType before = (.ok woven, behind)) :
    ∃ (w : Weave) (new : Body), w.old = b ∧ woven = { d with body := some new } ∧ new.validate = .ok () ∧
      new.slots.size = b.slots.size + 5 ∧ new.code.size = w.prologue.length + b.code.size + w.tail.length ∧
      b.Tolerated new.slots.size new.code.size ∧ (b.validate = .ok () ↔ b.SelfContained) := by
  obtain ⟨-, w, new, decorates, -, -⟩ := decorate_eq_ok done
  obtain ⟨new', same, valid⟩ := validate_of_decorate checks done
  rw [decorates.woven] at same
  cases same
  obtain rfl : b = w.old := Option.some.inj (body.symm.trans decorates.old)
  obtain ⟨place, spliced, splices, rfl⟩ := decorates.splices
  have alike : spliced.code.Alike spliced.widen.1.code := Code.alike_widen spliced.code
  have tolerated : w.old.Tolerated spliced.widen.1.slots.size spliced.widen.1.code.size := by
    rw [alike.size]
    apply splices.tolerated
    exact (splices.valid_iff decorates.planned.fetches).mp (Body.valid_widen_iff.mp (Body.validate_eq_ok_iff.mp valid))
  refine ⟨w, _, rfl, decorates.woven, valid, splices.size_slots, alike.size.trans splices.size_eq, tolerated, ?_⟩
  rw [Body.validate_eq_ok_iff]
  exact tolerated.valid_iff

end Decorated

/-! ### Malformed methods -/

namespace Sample

/-- A method with some code and clauses, and without slots. -/
def loose (code : List Instruction) (handlers : List Handler) : MethodDef where
  name := "Loose"
  modifiers := { isStatic := true }
  body := some { code := .ofList code, handlers }
  attributes := [{ type := .ofParts Token.typeDef 1 }]
  token := .ofParts Token.methodDef 4

/-- The method with the decorator around it. -/
def tightened (code : List Instruction) (handlers : List Handler) : Except Fault MethodDef × Workspace :=
  decorate (.ofModule module) {} (loose code handlers) kind (.ofParts Token.typeDef 2) { imports := rows }

set_option maxRecDepth 100000 in
/-- A method that drops what it pushes is woven and self-contained, so it is valid. -/
theorem loose_tolerated :
    let code : List Instruction := [⟨.ldnull, .none⟩, ⟨.pop, .none⟩, ⟨.ret, .none⟩]
    ∃ b new, (loose code []).body = some b ∧ (tightened code []).1 = .ok { loose code [] with body := some new } ∧
      b.Tolerated new.slots.size new.code.size ∧ b.SelfContained := by
  intro code
  obtain ⟨woven, done⟩ := exists_ok_fst (show (tightened code []).1.isOk = true by decide +kernel)
  have valid : ((loose code []).body.get rfl).validate = .ok () := isOk_eq_true_iff.mp (by decide +kernel)
  obtain ⟨w, new, -, rfl, -, -, -, tolerated, exactly⟩ :=
    @tolerated_of_decorate _ {} (loose code []) _ _ _ _ _ _ rfl rfl done
  exact ⟨_, new, rfl, congrArg Prod.fst done, tolerated, exactly.mp valid⟩

/-- A method that loads a slot it does not declare is woven under validation. -/
theorem malformed_woven :
    let code : List Instruction := [⟨.ldloc0, .none⟩, ⟨.pop, .none⟩, ⟨.ret, .none⟩]
    ((loose code []).body.get rfl).validate.isOk = false ∧ (tightened code []).1.isOk = true := by
  decide +kernel

/-- So are methods that return in protected code, let control run off their end, lead to an instruction they do not
    have, have a handler stop at one, or return with an operand. -/
example :
    ∀ e ∈ ([([⟨.ret, .none⟩, ⟨.pop, .none⟩, ⟨.rethrow, .none⟩],
          [{ guarded := ⟨⟨0⟩, some ⟨1⟩⟩, handling := ⟨⟨1⟩, none⟩, catchType := none }]),
        ([⟨.nop, .none⟩], []),
        ([⟨.br, .target ⟨1⟩⟩], []),
        ([⟨.leave, .target ⟨0⟩⟩, ⟨.rethrow, .none⟩],
          [{ guarded := ⟨⟨0⟩, some ⟨1⟩⟩, handling := ⟨⟨1⟩, some ⟨22⟩⟩, catchType := none }]),
        ([⟨.ret, .slot 0⟩], [])] : List (List Instruction × List Handler)),
      ((loose e.1 e.2).body.get rfl).validate.isOk = false ∧ (tightened e.1 e.2).1.isOk = true := by
  decide +kernel

end Sample

end AspectWeaving

import AspectWeaving.Validity
import AspectWeaving.Proofs.CodeOrder
import Mathlib.Data.List.Forall2

/-!
What valid bodies are. A body passes `Body.validate` exactly if it is `Body.Valid`, which says of the
code, the slots and the clauses what the checks look at one after another.
-/
namespace AspectWeaving

/-! ### Checks of lists -/

section Checks

variable {ε α β : Type}

theorem bind_eq_ok_iff {x : Except ε α} {f : α → Except ε β} {b : β} :
    (x >>= f) = .ok b ↔ ∃ a, x = .ok a ∧ f a = .ok b := by
  cases x <;> simp [bind, Except.bind]

theorem isOk_eq_true_iff {x : Except ε Unit} : x.isOk = true ↔ x = .ok () := by
  cases x <;> simp [Except.isOk, Except.toBool]

theorem forM_eq_ok_iff {f : α → Except ε Unit} {l : List α} {u : Unit} :
    forM l f = .ok u ↔ ∀ a ∈ l, f a = .ok () := by
  induction l with
  | nil => simp [pure, Except.pure]
  | cons a l ih =>
    simp only [List.forM_cons, bind_eq_ok_iff, ih, List.forall_mem_cons]
    constructor
    · rintro ⟨_, first, rest⟩
      exact ⟨first, rest⟩
    · rintro ⟨first, rest⟩
      exact ⟨_, first, rest⟩

theorem mapM_eq_ok_iff {f : α → Except ε β} {l : List α} {bs : List β} :
    l.mapM f = .ok bs ↔ List.Forall₂ (fun a b => f a = .ok b) l bs := by
  induction l generalizing bs with
  | nil => simp [pure, Except.pure, eq_comm]
  | cons a l ih =>
    rw [List.mapM_cons, List.forall₂_cons_left_iff]
    simp only [← ih]
    cases f a with
    | error fault => simp [bind, Except.bind]
    | ok b => cases l.mapM f <;> simp [bind, Except.bind, pure, Except.pure, eq_comm]

end Checks

namespace Code

variable {c : Code} {n : Nat} {h : Handle} {i : Instruction}

private theorem entries_eq_map :
    c.entries = c.order.toList.map fun h => (h, (c.get? h).getD ⟨.nop, .none⟩) := by
  refine List.filterMap_eq_map_iff_forall_eq_some.mpr fun h stands => ?_
  have inside := (c.mem_order_iff h).mp (Array.mem_toList_iff.mp stands)
  obtain ⟨i, here⟩ := Option.isSome_iff_exists.mp (get?_isSome_iff.mpr inside)
  rw [here]
  rfl

private theorem entry_eq_iff {g : Handle} (stands : c.order[n]? = some g) :
    (g, (c.get? g).getD ⟨.nop, .none⟩) = (h, i) ↔ g = h ∧ c.get? h = some i := by
  obtain ⟨j, here⟩ := get?_eq_some_of_order stands
  rw [Prod.mk.injEq]
  refine and_congr_right ?_
  rintro rfl
  simp [here]

theorem getElem?_entries_eq_some_iff :
    c.entries[n]? = some (h, i) ↔ c.order[n]? = some h ∧ c.get? h = some i := by
  rw [entries_eq_map, List.getElem?_map, Array.getElem?_toList]
  cases stands : c.order[n]? with
  | none => simp
  | some g => simp only [Option.map_some, Option.some.injEq, entry_eq_iff stands]

theorem getLast?_entries_eq_some_iff :
    c.entries.getLast? = some (h, i) ↔ c.last? = some h ∧ c.get? h = some i := by
  have sizes : c.entries.length = c.order.size := by simp [entries_eq_map]
  rw [List.getLast?_eq_getElem?, sizes, getElem?_entries_eq_some_iff, last?, Array.back?_eq_getElem?]

end Code

/-! ### Valid bodies -/

/-- An instruction of a body with a number of slots and instructions: its operand is of the right kind,
    its target an instruction and its slot a slot of the body. -/
structure Instruction.Fits (i : Instruction) (slots size : Nat) : Prop where
  operand : i.operandMatches = true
  target : ∀ {target}, i.target? = some target → target.index < size
  slot : ∀ {slot}, i.slot? = some slot → slot.toNat < slots

theorem Instruction.Fits.mono {i : Instruction} {slots slots' size size' : Nat} (fits : i.Fits slots size)
    (more : slots ≤ slots') (longer : size ≤ size') : i.Fits slots' size' :=
  ⟨fits.operand, fun target => Nat.lt_of_lt_of_le (fits.target target) longer,
    fun slot => Nat.lt_of_lt_of_le (fits.slot slot) more⟩

namespace Body

/-- The two spans of a clause. Neither is empty, and the guarded one comes first. -/
structure Encloses (b : Body) (c : Handler) (guarded handling : Span) : Prop where
  guarded_eq : b.span? c.guarded = some guarded
  handling_eq : b.span? c.handling = some handling
  guards : guarded.start < guarded.stop
  apart : guarded.stop ≤ handling.start
  handles : handling.start < handling.stop

/-- A body that hangs together. -/
structure Valid (b : Body) : Prop where
  /-- The last instruction does not let control go on. -/
  last : ∃ h i, b.code.last? = some h ∧ b.code.get? h = some i ∧ i.opcode.fallsThrough = false
  instruction : ∀ {h i}, b.code.get? h = some i → i.Fits b.slots.size b.code.size
  clause : ∀ {c}, c ∈ b.handlers → ∃ guarded handling, b.Encloses c guarded handling
  /-- Returns stand outside of all clauses. -/
  returns : ∀ {n h i c guarded handling}, b.code.order[n]? = some h → b.code.get? h = some i → i.opcode = .ret →
    c ∈ b.handlers → b.Encloses c guarded handling → guarded.contains n = false ∧ handling.contains n = false

variable {b : Body}

theorem validateInstruction_eq_ok_iff {h : Handle} {i : Instruction} :
    b.validateInstruction h i = .ok () ↔ i.Fits b.slots.size b.code.size := by
  have parts : i.Fits b.slots.size b.code.size ↔
      i.operandMatches = true ∧ (∀ target, i.target? = some target → target.index < b.code.size) ∧
        ∀ slot, i.slot? = some slot → slot.toNat < b.slots.size := by
    constructor
    · intro fits
      exact ⟨fits.operand, fun _ => fits.target, fun _ => fits.slot⟩
    · rintro ⟨operand, target, slot⟩
      exact ⟨operand, target _, slot _⟩
  simp only [parts, validateInstruction, Code.contains]
  cases i.operandMatches <;> cases i.target? <;> cases i.slot? <;>
    simp [bind, Except.bind, pure, Except.pure, throw, throwThe, MonadExceptOf.throw]
  all_goals grind

theorem validateHandler_eq_ok_iff {index : Nat} {c : Handler} {spans : List Span} :
    b.validateHandler index c = .ok spans ↔
      ∃ guarded handling, b.Encloses c guarded handling ∧ spans = [guarded, handling] := by
  unfold validateHandler
  constructor
  · intro checked
    split at checked
    · rename_i guarded handling both
      obtain ⟨first, second⟩ := Prod.mk.inj both
      by_cases ordered : guarded.start < guarded.stop ∧ guarded.stop ≤ handling.start ∧ handling.start < handling.stop
      · simp only [if_pos ordered, bind, Except.bind, pure, Except.pure] at checked
        cases checked
        exact ⟨guarded, handling, ⟨first, second, ordered.1, ordered.2.1, ordered.2.2⟩, rfl⟩
      · simp only [if_neg ordered, bind, Except.bind] at checked
        cases checked
    · cases checked
  · rintro ⟨guarded, handling, encloses, rfl⟩
    simp only [encloses.guarded_eq, encloses.handling_eq]
    rw [if_pos ⟨encloses.guards, encloses.apart, encloses.handles⟩]
    rfl

theorem validateReturn_eq_ok_iff {spans : List Span} {i : Instruction} {n : Nat} :
    validateReturn spans i n = .ok () ↔ (i.opcode = .ret → ∀ span ∈ spans, span.contains n = false) := by
  unfold validateReturn
  split <;> simp_all

private theorem validate_eq_ok_iff_checks :
    b.validate = .ok () ↔
      ∃ last spans, b.code.entries.getLast? = some last ∧
        (∀ e ∈ b.code.entries, b.validateInstruction e.1 e.2 = .ok ()) ∧
        (b.handlers.zipIdx.mapM fun e => b.validateHandler e.2 e.1) = .ok spans ∧
        (∀ e ∈ b.code.entries.zipIdx, validateReturn spans.flatten e.1.2 e.2 = .ok ()) ∧
        last.2.opcode.fallsThrough = false := by
  simp only [validate]
  cases b.code.entries.getLast? with
  | none => simp [throw, throwThe, MonadExceptOf.throw]
  | some last =>
    simp only [bind_eq_ok_iff, List.forM_eq_forM, forM_eq_ok_iff]
    cases ends : last.2.opcode.fallsThrough <;> simp [ends, throw, throwThe, MonadExceptOf.throw, pure, Except.pure]

private theorem mem_flatten {n : Nat} {cs : List Handler} {spans : List (List Span)}
    (checked : List.Forall₂ (fun e span => b.validateHandler e.2 e.1 = .ok span) (cs.zipIdx n) spans) :
    ∀ span, span ∈ spans.flatten ↔ ∃ c ∈ cs, ∃ guarded handling, b.Encloses c guarded handling ∧
      (span = guarded ∨ span = handling) := by
  induction cs generalizing n spans with
  | nil =>
    cases checked
    simp
  | cons c cs ih =>
    cases checked with
    | cons first rest =>
      obtain ⟨guarded, handling, encloses, rfl⟩ := validateHandler_eq_ok_iff.mp first
      intro span
      rw [List.flatten_cons, List.mem_append, ih rest, List.exists_mem_cons_iff]
      refine or_congr ?_ Iff.rfl
      constructor
      · intro member
        exact ⟨guarded, handling, encloses, by simpa using member⟩
      · rintro ⟨guarded', handling', encloses', member⟩
        cases encloses.guarded_eq.symm.trans encloses'.guarded_eq
        cases encloses.handling_eq.symm.trans encloses'.handling_eq
        simpa using member

private theorem exists_spans_iff {n : Nat} {cs : List Handler} :
    (∃ spans, List.Forall₂ (fun e span => b.validateHandler e.2 e.1 = .ok span) (cs.zipIdx n) spans) ↔
      ∀ c ∈ cs, ∃ guarded handling, b.Encloses c guarded handling := by
  induction cs generalizing n with
  | nil => simp
  | cons c cs ih =>
    rw [List.forall_mem_cons, ← ih (n := n + 1)]
    constructor
    · rintro ⟨_, checked⟩
      cases checked with
      | cons first rest =>
        obtain ⟨guarded, handling, encloses, -⟩ := validateHandler_eq_ok_iff.mp first
        exact ⟨⟨guarded, handling, encloses⟩, _, rest⟩
    · rintro ⟨⟨guarded, handling, encloses⟩, spans, rest⟩
      exact ⟨_, .cons (validateHandler_eq_ok_iff.mpr ⟨guarded, handling, encloses, rfl⟩) rest⟩

/-- The checks accept the valid bodies and no others. -/
theorem validate_eq_ok_iff : b.validate = .ok () ↔ b.Valid := by
  rw [validate_eq_ok_iff_checks]
  constructor
  · rintro ⟨⟨h, i⟩, spans, ends, instructions, clauses, returns, last⟩
    have found := Code.getLast?_entries_eq_some_iff.mp ends
    have enclosed := mapM_eq_ok_iff.mp clauses
    have checked : ∀ {h i}, b.code.get? h = some i → b.validateInstruction h i = .ok () := by
      intro h i found
      obtain ⟨n, stands⟩ := Code.exists_position (Code.get?_isSome_iff.mp (Option.isSome_of_eq_some found))
      exact instructions _ (List.mem_of_getElem? (Code.getElem?_entries_eq_some_iff.mpr ⟨stands, found⟩))
    refine ⟨⟨h, i, found.1, found.2, last⟩, fun found => validateInstruction_eq_ok_iff.mp (checked found),
      fun member => exists_spans_iff.mp ⟨spans, enclosed⟩ _ member, ?_⟩
    intro n h i c guarded handling stands found ret member encloses
    have entry := Code.getElem?_entries_eq_some_iff.mpr ⟨stands, found⟩
    have outside := validateReturn_eq_ok_iff.mp
      (returns ((h, i), n) (List.mem_zipIdx_iff_getElem?.mpr entry)) ret
    exact ⟨outside _ ((mem_flatten enclosed _).mpr ⟨c, member, _, _, encloses, .inl rfl⟩),
      outside _ ((mem_flatten enclosed _).mpr ⟨c, member, _, _, encloses, .inr rfl⟩)⟩
  · intro valid
    obtain ⟨h, i, ends, found, last⟩ := valid.last
    obtain ⟨spans, enclosed⟩ := exists_spans_iff.mpr fun c member => valid.clause (c := c) member
    refine ⟨(h, i), spans, Code.getLast?_entries_eq_some_iff.mpr ⟨ends, found⟩, ?_, mapM_eq_ok_iff.mpr enclosed,
      ?_, last⟩
    · rintro ⟨h, i⟩ member
      obtain ⟨n, entry⟩ := List.mem_iff_getElem?.mp member
      have here := (Code.getElem?_entries_eq_some_iff.mp entry).2
      exact validateInstruction_eq_ok_iff.mpr (valid.instruction here)
    · rintro ⟨⟨h, i⟩, n⟩ member
      obtain ⟨stands, here⟩ :=
        Code.getElem?_entries_eq_some_iff.mp (List.mem_zipIdx_iff_getElem?.mp member)
      refine validateReturn_eq_ok_iff.mpr fun ret span listed => ?_
      obtain ⟨c, member, guarded, handling, encloses, one⟩ := (mem_flatten enclosed span).mp listed
      have outside := valid.returns stands here ret member encloses
      rcases one with rfl | rfl
      · exact outside.1
      · exact outside.2

end Body

end AspectWeaving

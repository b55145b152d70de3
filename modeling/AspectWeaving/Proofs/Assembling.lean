import AspectWeaving.Recipe
import AspectWeaving.Proofs.LinkedCode
import AspectWeaving.Proofs.Validation
import Mathlib.Data.List.Induction

/-!
How labels come to stand. The calls on a listing are its history, in which a failing mark stays without effect (`Listing.callAll`). The
history alone says how many labels there are, which instructions stand in which order, and where a label is marked
(`ListingStep.MarkedAt`): behind as many instructions as were emitted before the first mark that finds the label allocated. Branches,
clauses and the places of labels are all resolved by that (`Listing.assembled`, `Listing.handler_eq_ok_iff`), so the code and the
handlers of a body agree on it (`labels_resolve`).
-/
namespace AspectWeaving

/-! ### Histories -/

namespace ListingStep

/-- The instruction that a step adds. -/
def item? : ListingStep → Option (Opcode × PendingOperand)
  | emit i => some (i.opcode, .ready i.operand)
  | branch opcode n => some (opcode, .label n)
  | label | mark _ | clause _ => none

/-- The clause that a step adds. -/
def clause? : ListingStep → Option LabelledClause
  | clause c => some c
  | label | mark _ | emit _ | branch _ _ => none

/-- A step allocates a label. -/
def allocates : ListingStep → Bool
  | label => true
  | mark _ | emit _ | branch _ _ | clause _ => false

variable (steps : List ListingStep)

/-- The instructions that steps add, in their order. -/
def emitted : List (Opcode × PendingOperand) := steps.filterMap item?

/-- The clauses that steps add. -/
def clauses : List LabelledClause := steps.filterMap clause?

/-- The number of labels that steps allocate; the labels are the numbers below it. -/
def allocated : Nat := steps.countP allocates

/-- No mark of a label has found it allocated. -/
def Unmarked (n : Nat) : Prop := ∀ before after, steps = before ++ mark n :: after → allocated before ≤ n

/-- A label is marked behind so many instructions, by the first mark that finds it allocated. -/
def MarkedAt (n k : Nat) : Prop :=
  ∃ before after, steps = before ++ mark n :: after ∧ n < allocated before ∧ Unmarked before n ∧ k = (emitted before).length

/-- Where a label stands that is marked behind so many instructions: at the next one, or at the end if there is none. -/
def placeAt (k : Nat) : LabelPlace := if k < (emitted steps).length then .instruction ⟨k⟩ else .bodyEnd

/-- A label is marked, and an instruction is emitted behind the mark. -/
def MarkedInside (n : Nat) : Prop := ∃ k < (emitted steps).length, MarkedAt steps n k

end ListingStep

namespace Listing

open ListingStep

/-- A call, which leaves a listing alone if it fails. -/
def call (l : Listing) (s : ListingStep) : Listing := (l.performAll [s]).1

/-- Calls, whatever they answer. -/
def callAll (l : Listing) (steps : List ListingStep) : Listing := steps.foldl call l

variable {l : Listing} {s : ListingStep} {steps : List ListingStep} {n k : Nat}

theorem performAll_singleton : l.performAll [s] = (if l.stepFault? s = none then l.perform s else l, l.stepFault? s) := by
  unfold performAll
  cases fault : l.stepFault? s <;> rfl

theorem call_eq : l.call s = if l.stepFault? s = none then l.perform s else l := congrArg Prod.fst performAll_singleton

theorem callAll_append (s : ListingStep) : l.callAll (steps ++ [s]) = (l.callAll steps).call s := by
  simp [callAll]

end Listing

namespace ListingStep

variable {s : ListingStep} {steps : List ListingStep} {n k : Nat}

theorem emitted_append (s : ListingStep) : emitted (steps ++ [s]) = emitted steps ++ s.item?.toList := by
  unfold emitted
  rw [List.filterMap_append]
  cases item : s.item? <;> simp [item]

theorem clauses_append (s : ListingStep) : clauses (steps ++ [s]) = clauses steps ++ s.clause?.toList := by
  unfold clauses
  rw [List.filterMap_append]
  cases clause : s.clause? <;> simp [clause]

theorem allocated_append (s : ListingStep) : allocated (steps ++ [s]) = allocated steps + s.allocates.toNat := by
  unfold allocated
  rw [List.countP_append]
  cases allocates : s.allocates <;> simp [allocates]

/-- The last step is a mark, or the mark came before it. -/
theorem split_append {before after : List ListingStep} {m : ListingStep} :
    steps ++ [s] = before ++ m :: after ↔
      (before = steps ∧ m = s ∧ after = []) ∨ ∃ rest, after = rest ++ [s] ∧ steps = before ++ m :: rest := by
  rcases List.eq_nil_or_concat after with rfl | ⟨rest, last, rfl⟩
  · constructor
    · intro same
      have parts := List.append_inj' same rfl
      simp only [List.cons.injEq, and_true] at parts
      exact .inl ⟨parts.1.symm, parts.2.symm, rfl⟩
    · rintro (⟨rfl, rfl, -⟩ | ⟨rest, none, -⟩)
      · rfl
      · simp at none
  · rw [List.concat_eq_append]
    constructor
    · intro same
      have parts : steps = before ++ m :: rest ∧ [s] = [last] := List.append_inj' (by simpa using same) rfl
      exact .inr ⟨rest, by rw [parts.2], parts.1⟩
    · rintro (⟨-, -, none⟩ | ⟨rest', same, rfl⟩)
      · simp at none
      · simp [same]

theorem unmarked_append (s : ListingStep) :
    Unmarked (steps ++ [s]) n ↔ Unmarked steps n ∧ (s = mark n → allocated steps ≤ n) := by
  simp only [Unmarked, split_append]
  constructor
  · intro all
    exact ⟨fun before after same => all before (after ++ [s]) (.inr ⟨after, rfl, same⟩),
      fun last => all steps [] (.inl ⟨rfl, last.symm, rfl⟩)⟩
  · rintro ⟨early, last⟩ before after (⟨rfl, marks, -⟩ | ⟨rest, -, same⟩)
    · exact last marks.symm
    · exact early before rest same

/-- One call more marks a label if it is the first mark that finds it allocated. -/
theorem markedAt_append (s : ListingStep) :
    MarkedAt (steps ++ [s]) n k ↔
      MarkedAt steps n k ∨ s = mark n ∧ n < allocated steps ∧ Unmarked steps n ∧ k = (emitted steps).length := by
  simp only [MarkedAt, split_append]
  constructor
  · rintro ⟨before, after, ⟨rfl, marks, -⟩ | ⟨rest, -, same⟩, known, first, place⟩
    · exact .inr ⟨marks.symm, known, first, place⟩
    · exact .inl ⟨before, rest, same, known, first, place⟩
  · rintro (⟨before, rest, same, known, first, place⟩ | ⟨marks, known, first, place⟩)
    · exact ⟨before, rest ++ [s], .inr ⟨rest, rfl, same⟩, known, first, place⟩
    · exact ⟨steps, [], .inl ⟨rfl, marks.symm, rfl⟩, known, first, place⟩

/-- A label that is not marked anywhere is not marked at all. -/
theorem unmarked_iff : Unmarked steps n ↔ ∀ k, ¬ MarkedAt steps n k := by
  induction steps using List.reverseRecOn with
  | nil =>
    constructor
    · rintro - k ⟨before, after, none, -⟩
      simp at none
    · intro _ before after none
      simp at none
  | append_singleton steps s ih =>
    rw [unmarked_append, ih]
    simp only [markedAt_append, not_or, not_and, forall_and]
    refine and_congr_right fun early => ?_
    constructor
    · intro last k marks known
      exact absurd (last marks) (Nat.not_le.mpr known)
    · intro never marks
      by_contra known
      exact never _ marks (Nat.not_le.mp known) (ih.mpr early) rfl

/-- A label that is marked has been allocated. -/
theorem MarkedAt.known (marked : MarkedAt steps n k) : n < allocated steps := by
  obtain ⟨before, after, rfl, known, -⟩ := marked
  unfold allocated at known ⊢
  rw [List.countP_append]
  omega

end ListingStep

namespace Listing

variable {l : Listing} {s : ListingStep} {steps : List ListingStep} {n k : Nat}

open ListingStep

/-- A listing holds what its history says. -/
structure Holds (l : Listing) (steps : List ListingStep) : Prop where
  items : l.items.toList = emitted steps
  labels : l.marks.size = allocated steps
  marks : ∀ n k, l.marks[n]? = some (some k) ↔ MarkedAt steps n k
  clauses : l.clauses.toList = ListingStep.clauses steps

theorem Holds.size (holds : l.Holds steps) : l.items.size = (emitted steps).length := by
  rw [← holds.items, Array.length_toList]

/-- A mark fails on a label that is not allocated, or marked already. -/
theorem Holds.markFault?_eq_none_iff (holds : l.Holds steps) : l.markFault? n = none ↔ n < allocated steps ∧ Unmarked steps n := by
  have place := holds.marks n
  rw [unmarked_iff, ← holds.labels]
  unfold markFault?
  cases found : l.marks[n]? with
  | none =>
    have unknown := Array.getElem?_eq_none_iff.mp found
    simp only [reduceCtorEq, false_iff, not_and]
    intro known
    omega
  | some marked =>
    obtain ⟨known, -⟩ := Array.getElem?_eq_some_iff.mp found
    cases marked with
    | none =>
      refine iff_of_true rfl ⟨known, fun k marked => ?_⟩
      rw [(place k).mpr marked] at found
      cases found
    | some k => exact iff_of_false nofun fun free => free.2 k ((place k).mp found)

theorem holds_nil : Holds {} [] where
  items := rfl
  labels := rfl
  marks n k := by simpa using unmarked_iff.mp (fun before after none => by simp at none) k
  clauses := rfl

theorem items_call (l : Listing) (s : ListingStep) : (l.call s).items.toList = l.items.toList ++ s.item?.toList := by
  rw [call_eq]
  cases s with
  | mark n => cases fault : l.markFault? n <;> simp [stepFault?, fault, perform, setMark, item?]
  | label => simp [stepFault?, perform, newLabel, item?]
  | emit i => simp [stepFault?, perform, emit, item?]
  | branch opcode n => simp [stepFault?, perform, branch, item?]
  | clause c => simp [stepFault?, perform, catchClause, item?]

theorem clauses_call (l : Listing) (s : ListingStep) : (l.call s).clauses.toList = l.clauses.toList ++ s.clause?.toList := by
  rw [call_eq]
  cases s with
  | mark n => cases fault : l.markFault? n <;> simp [stepFault?, fault, perform, setMark, clause?]
  | label => simp [stepFault?, perform, newLabel, clause?]
  | emit i => simp [stepFault?, perform, emit, clause?]
  | branch opcode n => simp [stepFault?, perform, branch, clause?]
  | clause c => simp [stepFault?, perform, catchClause, clause?]

theorem size_marks_call (l : Listing) (s : ListingStep) : (l.call s).marks.size = l.marks.size + s.allocates.toNat := by
  rw [call_eq]
  cases s with
  | mark n => cases fault : l.markFault? n <;> simp [stepFault?, fault, perform, setMark, allocates]
  | label => simp [stepFault?, perform, newLabel, allocates]
  | emit i => simp [stepFault?, perform, emit, allocates]
  | branch opcode n => simp [stepFault?, perform, branch, allocates]
  | clause c => simp [stepFault?, perform, catchClause, allocates]

/-- Only a mark that does not fail marks a label, the one it names. -/
theorem marks_call (l : Listing) (s : ListingStep) (m k : Nat) :
    (l.call s).marks[m]? = some (some k) ↔
      l.marks[m]? = some (some k) ∨ s = .mark m ∧ l.markFault? m = none ∧ k = l.items.size := by
  rw [call_eq]
  cases s with
  | label =>
    have pushed : (l.newLabel).marks[m]? = if m = l.marks.size then some none else l.marks[m]? := Array.getElem?_push ..
    rw [stepFault?, if_pos rfl, perform, pushed]
    by_cases new : m = l.marks.size <;> simp [new]
  | mark n =>
    cases fault : l.markFault? n with
    | none =>
      have free : l.marks[n]? = some none := by
        unfold markFault? at fault
        split at fault <;> simp_all
      obtain ⟨known, -⟩ := Array.getElem?_eq_some_iff.mp free
      rw [stepFault?, fault, if_pos rfl, perform, setMark, Array.getElem?_setIfInBounds]
      by_cases same : n = m
      · subst same
        rw [if_pos rfl, if_pos known, free]
        simp [fault, eq_comm]
      · simp [same]
    | some reason =>
      simp only [stepFault?, fault, reduceCtorEq, if_false, iff_self_or, and_imp]
      rintro ⟨⟩ none
      rw [none] at fault
      cases fault
  | emit i => simp [stepFault?, perform, emit]
  | branch opcode n => simp [stepFault?, perform, branch]
  | clause c => simp [stepFault?, perform, catchClause]

/-- Each call keeps to the history. -/
theorem Holds.call (holds : l.Holds steps) (s : ListingStep) : (l.call s).Holds (steps ++ [s]) where
  items := by rw [items_call, emitted_append, holds.items]
  labels := by rw [size_marks_call, allocated_append, holds.labels]
  marks m k := by rw [marks_call, markedAt_append, holds.marks, holds.markFault?_eq_none_iff, holds.size, and_assoc]
  clauses := by rw [clauses_call, clauses_append, holds.clauses]

/-- Calls on an empty listing are its history. -/
theorem holds_callAll (steps : List ListingStep) : (callAll {} steps).Holds steps := by
  induction steps using List.reverseRecOn with
  | nil => exact holds_nil
  | append_singleton steps s ih => exact callAll_append s ▸ ih.call s

/-- A label stands where the history marks it. -/
theorem Holds.place?_eq_some_iff (holds : l.Holds steps) {p : LabelPlace} :
    l.place? n = some p ↔ ∃ k, MarkedAt steps n k ∧ p = placeAt steps k := by
  simp only [← holds.marks]
  unfold place? placeAt
  rw [holds.size]
  split
  · rename_i k found
    simp [found, eq_comm]
  · rename_i none
    simp only [reduceCtorEq, false_iff, not_exists, not_and]
    intro k found
    exact absurd found (none k)

theorem placeAt_eq_instruction_iff {h : Handle} :
    LabelPlace.instruction h = placeAt steps k ↔ k < (emitted steps).length ∧ h = ⟨k⟩ := by
  unfold placeAt
  split
  · rename_i inside
    simp [inside]
  · rename_i outside
    simp [outside]

/-- What becomes of an operand: it stays, or is the instruction at which a label is marked. -/
def Resolves (steps : List ListingStep) : PendingOperand → Operand → Prop
  | .ready operand, o => o = operand
  | .label n, o => ∃ k < (emitted steps).length, MarkedAt steps n k ∧ o = .target ⟨k⟩

theorem Holds.resolve_eq_ok_iff (holds : l.Holds steps) {opcode : Opcode} {p : PendingOperand} {i : Instruction} :
    l.resolve (opcode, p) = .ok i ↔ i.opcode = opcode ∧ Resolves steps p i.operand := by
  obtain ⟨o, operand⟩ := i
  cases p with
  | ready ready => simp [resolve, Resolves, eq_comm]
  | label n =>
    simp only [resolve, Resolves]
    constructor
    · intro resolved
      split at resolved
      · rename_i h found
        obtain ⟨k, marked, at_⟩ := holds.place?_eq_some_iff.mp found
        obtain ⟨inside, rfl⟩ := placeAt_eq_instruction_iff.mp at_
        cases resolved
        exact ⟨rfl, k, inside, marked, rfl⟩
      · cases resolved
      · cases resolved
    · rintro ⟨rfl, k, inside, marked, rfl⟩
      have found := holds.place?_eq_some_iff.mpr ⟨k, marked, placeAt_eq_instruction_iff.mpr ⟨inside, rfl⟩⟩
      rw [found]

/-- Instructions for the items of a history: each has its opcode, and what becomes of its operand. -/
def Resolved (steps : List ListingStep) (is : List Instruction) : Prop :=
  List.Forall₂ (fun item i => i.opcode = item.1 ∧ Resolves steps item.2 i.operand) (emitted steps) is

theorem Holds.finish_eq_ok_iff (holds : l.Holds steps) {c : Code} :
    l.finish = .ok c ↔ ∃ is, Resolved steps is ∧ c = .ofList is := by
  have items : ∀ is, l.items.toList.mapM l.resolve = .ok is ↔ Resolved steps is := by
    intro is
    rw [mapM_eq_ok_iff, holds.items]
    constructor
    · exact List.Forall₂.imp fun item i => holds.resolve_eq_ok_iff.mp
    · exact List.Forall₂.imp fun item i => holds.resolve_eq_ok_iff.mpr
  unfold finish
  simp only [bind_eq_ok_iff, items]
  constructor
  · rintro ⟨is, resolved, ⟨⟩⟩
    exact ⟨is, resolved, rfl⟩
  · rintro ⟨is, resolved, rfl⟩
    exact ⟨is, resolved, rfl⟩

private theorem exists_forall₂_iff {α β : Type} {R : α → β → Prop} {as : List α} :
    (∃ bs, List.Forall₂ R as bs) ↔ ∀ a ∈ as, ∃ b, R a b := by
  induction as with
  | nil => simp
  | cons a as ih =>
    rw [List.forall_mem_cons, ← ih]
    simp only [List.forall₂_cons_left_iff]
    constructor
    · rintro ⟨-, b, bs, first, rest, rfl⟩
      exact ⟨⟨b, first⟩, bs, rest⟩
    · rintro ⟨⟨b, first⟩, bs, rest⟩
      exact ⟨b :: bs, b, bs, first, rest, rfl⟩

/-- The items of a history can be resolved if each branch leads to an instruction. -/
theorem exists_resolved_iff :
    (∃ is, Resolved steps is) ↔ ∀ opcode n, (opcode, .label n) ∈ emitted steps → MarkedInside steps n := by
  unfold Resolved
  rw [exists_forall₂_iff]
  constructor
  · intro all opcode n emits
    obtain ⟨i, -, k, inside, marked, -⟩ := all _ emits
    exact ⟨k, inside, marked⟩
  · rintro leads ⟨opcode, p⟩ emits
    cases p with
    | ready operand => exact ⟨⟨opcode, operand⟩, rfl, rfl⟩
    | label n =>
      obtain ⟨k, inside, marked⟩ := leads opcode n emits
      exact ⟨⟨opcode, .target ⟨k⟩⟩, rfl, k, inside, marked, rfl⟩

end Listing

/-! ### Clauses -/

namespace ListingStep

variable (steps : List ListingStep)

/-- The bound of a region at a label that is marked behind so many instructions: the next one, or none at the end. -/
def boundAt (k : Nat) : Option Handle := if k < (emitted steps).length then some ⟨k⟩ else none

/-- All labels of a clause are marked, the two starts with an instruction behind the mark. -/
structure Bounded (c : LabelledClause) : Prop where
  guardedStart : MarkedInside steps c.guardedStart
  guardedStop : ∃ k, MarkedAt steps c.guardedStop k
  handlingStart : MarkedInside steps c.handlingStart
  handlingStop : ∃ k, MarkedAt steps c.handlingStop k

/-- A handler catches what a clause names, between the instructions at which the labels are marked. -/
structure Handles (c : LabelledClause) (h : Handler) : Prop where
  catches : h.flags = .catching ∧ h.catchType = some c.catchType
  guardedStart : ∃ k < (emitted steps).length, MarkedAt steps c.guardedStart k ∧ h.guarded.start = ⟨k⟩
  guardedStop : ∃ k, MarkedAt steps c.guardedStop k ∧ h.guarded.stop = boundAt steps k
  handlingStart : ∃ k < (emitted steps).length, MarkedAt steps c.handlingStart k ∧ h.handling.start = ⟨k⟩
  handlingStop : ∃ k, MarkedAt steps c.handlingStop k ∧ h.handling.stop = boundAt steps k

end ListingStep

namespace Listing

open ListingStep

variable {l : Listing} {s : ListingStep} {steps : List ListingStep} {n k : Nat}

theorem Holds.clauseBound_eq_ok_iff (holds : l.Holds steps) {b : Option Handle} :
    l.clauseBound n = .ok b ↔ ∃ k, MarkedAt steps n k ∧ b = boundAt steps k := by
  unfold clauseBound
  cases found : l.place? n with
  | none =>
    simp only [reduceCtorEq, false_iff, not_exists, not_and]
    intro k marked
    rw [holds.place?_eq_some_iff.mpr ⟨k, marked, rfl⟩] at found
    cases found
  | some p =>
    obtain ⟨k, marked, rfl⟩ := holds.place?_eq_some_iff.mp found
    have only : ∀ m, MarkedAt steps n m ↔ m = k := by
      intro m
      rw [← holds.marks, (holds.marks n k).mpr marked]
      simp [eq_comm]
    simp only [only, exists_eq_left, placeAt, boundAt]
    by_cases inside : k < (emitted steps).length <;> simp [inside, eq_comm]

theorem Holds.clauseStart_eq_ok_iff (holds : l.Holds steps) {h : Handle} :
    l.clauseStart n = .ok h ↔ ∃ k < (emitted steps).length, MarkedAt steps n k ∧ h = ⟨k⟩ := by
  unfold clauseStart
  simp only [bind_eq_ok_iff, holds.clauseBound_eq_ok_iff]
  constructor
  · rintro ⟨b, ⟨k, marked, rfl⟩, started⟩
    by_cases inside : k < (emitted steps).length
    · simp only [boundAt, inside, if_true, pure, Except.pure, Except.ok.injEq] at started
      exact ⟨k, inside, marked, started.symm⟩
    · simp only [boundAt, inside, if_false] at started
      cases started
  · rintro ⟨k, inside, marked, rfl⟩
    exact ⟨boundAt steps k, ⟨k, marked, rfl⟩, by simp [boundAt, inside, pure, Except.pure]⟩

theorem Holds.handler_eq_ok_iff (holds : l.Holds steps) {c : LabelledClause} {h : Handler} :
    l.handler c = .ok h ↔ Handles steps c h := by
  unfold handler
  simp only [bind_eq_ok_iff, holds.clauseStart_eq_ok_iff, holds.clauseBound_eq_ok_iff]
  constructor
  · rintro ⟨a, start, b, stop, d, enter, e, leave, ⟨⟩⟩
    exact ⟨⟨rfl, rfl⟩, start, stop, enter, leave⟩
  · obtain ⟨flags, ⟨a, b⟩, ⟨d, e⟩, catchType⟩ := h
    rintro ⟨⟨rfl, rfl⟩, start, stop, enter, leave⟩
    exact ⟨a, start, b, stop, d, enter, e, leave, rfl⟩

end Listing

/-! ### Bodies -/

open Listing ListingStep

/-- What a listing is after the calls of a history. -/
structure Listing.Assembled (l : Listing) (steps : List ListingStep) : Prop where
  /-- A mark fails on a label that is unknown or marked already. No other call fails, and a call that fails changes nothing. -/
  mark_fails : ∀ n, (l.performAll [.mark n]).2 ≠ none ↔ allocated steps ≤ n ∨ ∃ k, MarkedAt steps n k
  other_succeeds : ∀ s, (∀ n, s ≠ .mark n) → (l.performAll [s]).2 = none
  unchanged : ∀ s, (l.performAll [s]).2 ≠ none → (l.performAll [s]).1 = l
  /-- The listing can be finished if each branch leads to an instruction. -/
  finishes : (∃ c, l.finish = .ok c) ↔ ∀ opcode n, (opcode, .label n) ∈ emitted steps → MarkedInside steps n
  /-- The code has the instructions in their order under the handles from zero on, and each branch leads to the instruction that was
      emitted first behind the mark of its label. -/
  code : ∀ c, l.finish = .ok c → ∃ is, Resolved steps is ∧ c.entries = (Handle.range 0 is.length).zip is
  /-- A label stands where it is marked, and nowhere if it is not. -/
  place : ∀ n p, l.place? n = some p ↔ ∃ k, MarkedAt steps n k ∧ p = placeAt steps k

theorem Listing.assembled (steps : List ListingStep) : (callAll {} steps).Assembled steps := by
  have holds := holds_callAll steps
  constructor
  case mark_fails =>
    intro n
    rw [performAll_singleton]
    change (callAll {} steps).markFault? n ≠ none ↔ _
    rw [Ne, holds.markFault?_eq_none_iff, unmarked_iff]
    simp only [not_and_or, Nat.not_lt, not_forall, not_not]
  case other_succeeds =>
    intro s other
    rw [performAll_singleton]
    cases s with
    | mark n => exact absurd rfl (other n)
    | label => rfl
    | emit i => rfl
    | branch opcode n => rfl
    | clause c => rfl
  case unchanged =>
    intro s failed
    rw [performAll_singleton] at failed ⊢
    exact if_neg failed
  case finishes =>
    rw [← exists_resolved_iff]
    simp only [holds.finish_eq_ok_iff]
    exact ⟨fun ⟨_, is, resolved, _⟩ => ⟨is, resolved⟩, fun ⟨is, resolved⟩ => ⟨_, is, resolved, rfl⟩⟩
  case code =>
    intro c finished
    obtain ⟨is, resolved, rfl⟩ := holds.finish_eq_ok_iff.mp finished
    exact ⟨is, resolved, Code.entries_ofList is⟩
  case place =>
    intro n p
    exact holds.place?_eq_some_iff

/-- What the implementation of a recipe comes to: it makes calls on an empty listing, or it fails, as it does if there is none. -/
def Recipe.Makes (r : Recipe) (steps : List ListingStep) : Option Fault → Prop
  | none => ∃ write, r.implementation = some write ∧ write {} = .ok (callAll {} steps)
  | some fault =>
    r.implementation = none ∧ fault = .malformed .noImplementation ∨ ∃ write, r.implementation = some write ∧ write {} = .error fault

/-- A body as a recipe and a history have it. -/
structure Recipe.Describes (r : Recipe) (steps : List ListingStep) (b : Body) : Prop where
  code : (callAll {} steps).finish = .ok b.code
  handlers : List.Forall₂ (Handles steps) (clauses steps) b.handlers
  slots : b.slots = r.slots
  initSlots : b.initSlots = r.initSlots
  maxStack : b.maxStack = r.maxStack

theorem Recipe.build_eq_ok_iff {r : Recipe} {steps : List ListingStep} {b : Body} (makes : r.Makes steps none) :
    r.build = .ok b ↔ r.Describes steps b := by
  obtain ⟨write, implementation, wrote⟩ := makes
  have holds := holds_callAll steps
  have handlers : ∀ hs, (callAll {} steps).clauses.toList.mapM (callAll {} steps).handler = .ok hs ↔
      List.Forall₂ (Handles steps) (clauses steps) hs := by
    intro hs
    rw [mapM_eq_ok_iff, holds.clauses]
    constructor
    · exact List.Forall₂.imp fun c h => holds.handler_eq_ok_iff.mp
    · exact List.Forall₂.imp fun c h => holds.handler_eq_ok_iff.mpr
  unfold build
  rw [implementation]
  simp only [bind_eq_ok_iff, wrote, Except.ok.injEq]
  constructor
  · rintro ⟨_, rfl, code, finished, hs, resolved, ⟨⟩⟩
    exact ⟨finished, (handlers hs).mp resolved, rfl, rfl, rfl⟩
  · obtain ⟨code, slots, initSlots, maxStack, hs⟩ := b
    rintro ⟨finished, resolved, rfl, rfl, rfl⟩
    exact ⟨_, rfl, code, finished, hs, (handlers hs).mpr resolved, rfl⟩

theorem Recipe.build_eq_error {r : Recipe} {steps : List ListingStep} {fault : Fault} (makes : r.Makes steps (some fault)) :
    r.build = .error fault := by
  unfold build
  rcases makes with ⟨implementation, rfl⟩ | ⟨write, implementation, wrote⟩
  · rw [implementation]
    rfl
  · rw [implementation]
    simp only [wrote]
    rfl

theorem ListingStep.exists_handlers_iff {steps : List ListingStep} :
    (∃ hs, List.Forall₂ (Handles steps) (clauses steps) hs) ↔ ∀ c ∈ clauses steps, Bounded steps c := by
  rw [exists_forall₂_iff]
  refine forall₂_congr fun c _ => ⟨?_, ?_⟩
  · rintro ⟨h, -, ⟨a, inside, start, -⟩, ⟨b, stop, -⟩, ⟨d, within, enter, -⟩, ⟨e, leave, -⟩⟩
    exact ⟨⟨a, inside, start⟩, ⟨b, stop⟩, ⟨d, within, enter⟩, ⟨e, leave⟩⟩
  · rintro ⟨⟨a, inside, start⟩, ⟨b, stop⟩, ⟨d, within, enter⟩, ⟨e, leave⟩⟩
    exact ⟨⟨.catching, ⟨⟨a⟩, boundAt steps b⟩, ⟨⟨d⟩, boundAt steps e⟩, some c.catchType⟩, ⟨rfl, rfl⟩, ⟨a, inside, start, rfl⟩,
      ⟨b, stop, rfl⟩, ⟨d, within, enter, rfl⟩, ⟨e, leave, rfl⟩⟩

/-- The calls on a listing, and a recipe whose implementation makes them. The listing is what the history says, and the body can be built if
    the implementation succeeds, the listing can be finished, and the labels of each clause are marked, both starts before the end. -/
theorem labels_resolve (steps : List ListingStep) (r : Recipe) (fault? : Option Fault) (makes : r.Makes steps fault?) :
    (callAll {} steps).Assembled steps ∧
      ((∃ b, r.build = .ok b) ↔
        fault? = none ∧ (∃ c, (callAll {} steps).finish = .ok c) ∧ ∀ c ∈ clauses steps, Bounded steps c) ∧
      ∀ b, r.build = .ok b → r.Describes steps b := by
  refine ⟨assembled steps, ?_⟩
  cases fault? with
  | some fault =>
    rw [Recipe.build_eq_error makes]
    simp
  | none =>
    simp only [Recipe.build_eq_ok_iff makes, true_and, ← exists_handlers_iff]
    refine ⟨⟨?_, ?_⟩, fun b described => described⟩
    · rintro ⟨b, described⟩
      exact ⟨⟨b.code, described.code⟩, b.handlers, described.handlers⟩
    · rintro ⟨⟨c, finished⟩, hs, resolved⟩
      exact ⟨⟨c, r.slots, r.initSlots, r.maxStack, hs⟩, finished, resolved, rfl, rfl, rfl⟩

namespace Sample

/-- A throw and a clause that catches it. -/
def catchingSteps : List ListingStep :=
  [.label, .label, .label, .mark 0, .emit ⟨.ldnull, .none⟩, .emit ⟨.throw, .none⟩, .mark 1, .emit ⟨.pop, .none⟩, .branch .leave 2,
    .mark 2, .emit ⟨.ret, .none⟩, .clause ⟨0, 1, 1, 2, .ofParts Token.typeRef 2⟩]

/-- The body of those. -/
def catching : Recipe where
  implementation := some (writing catchingSteps)

theorem catching_resolves :
    catching.Makes catchingSteps none ∧ (∃ b, catching.build = .ok b) ∧
      ∀ b, catching.build = .ok b → catching.Describes catchingSteps b := by
  have makes : catching.Makes catchingSteps none := ⟨_, rfl, rfl⟩
  exact ⟨makes, ⟨_, rfl⟩, (labels_resolve catchingSteps catching none makes).2.2⟩

end Sample

end AspectWeaving

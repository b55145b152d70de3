import AspectWeaving.Proofs.Budgets

/-!
The count of instructions. The machine counts an instruction before it knows whether one more may be executed, and before it looks for
the one that stands at the place. So it counts every instruction that is executed, and one more for each request that is refused an
instruction or ends at a place that holds none (`Service.overcounts`). That is exact for every session (`requests_count_instructions`):
the count is that of the instructions just if no request overcounts, and goes past the limit by the requests that do.
-/
namespace AspectWeaving

/-! ### Instructions of visits -/

/-- The instruction at the place of a visit, if one stands there. -/
def Visit.instruction? (v : Visit) : Option Instruction := v.frame.activation.body.code.get? v.frame.place

section Visits

variable {p : Program} {r r' : Stage} {visits : List Visit}

/-- No instruction is executed behind a place that holds none. -/
theorem Program.Leads.ends_at_missing (leads : p.Leads r visits r') (missing : ∃ v ∈ visits, v.instruction? = none) :
    ∃ front v s, visits = front ++ [v] ∧ (∀ u ∈ front, u.instruction?.isSome) ∧ v.instruction? = none ∧
      r' = .error (.execution .invalidBranchTarget) s := by
  induction leads with
  | stay => simp at missing
  | @step f callers s visits r' rest ih =>
    by_cases here : (p.visit f callers s).instruction? = none
    · have failed : p.after f callers s = .error (.execution .invalidBranchTarget) { s with executed := s.executed + 1 } :=
        advance_of_missing here _
      rw [failed] at rest
      cases rest
      exact ⟨[], _, _, rfl, by simp, here, rfl⟩
    · obtain ⟨front, v, t, rfl, stand, last, ended⟩ : ∃ front v t, visits = front ++ [v] ∧ (∀ u ∈ front, u.instruction?.isSome) ∧
          v.instruction? = none ∧ r' = .error (.execution .invalidBranchTarget) t := by
        apply ih
        obtain ⟨v, among, none⟩ := missing
        rcases List.mem_cons.mp among with rfl | later
        · exact absurd none here
        · exact ⟨v, later, none⟩
      refine ⟨p.visit f callers s :: front, v, t, rfl, ?_, last, ended⟩
      intro u among
      rcases List.mem_cons.mp among with rfl | later
      · exact Option.isSome_iff_ne_none.mpr here
      · exact stand u later

/-- Where every visit stands at an instruction, there are as many instructions as visits. -/
theorem length_instructions (stand : ∀ v ∈ visits, v.instruction?.isSome) :
    (visits.filterMap (·.instruction?)).length = visits.length := by
  induction visits with
  | nil => rfl
  | cons v rest ih =>
    obtain ⟨here, later⟩ := List.forall_mem_cons.mp stand
    obtain ⟨i, found⟩ := Option.isSome_iff_exists.mp here
    simp [found, ih later]

end Visits

/-! ### Requests -/

namespace Service

/-- The instructions that are executed for a request. -/
def instructions (x : Service) : List Instruction := x.visits.filterMap (·.instruction?)

/-- A body is left under execution, which is refused an instruction, or a visit stands where there is none. -/
def overcounts (x : Service) : Bool := x.last.depth != 0 || x.visits.any (·.instruction?.isNone)

variable (x : Service)

/-- A body that is refused an instruction has it counted. -/
theorem executed_after : x.after.executed = x.last.machine.executed + (x.last.depth != 0).toNat := by
  unfold after
  rw [x.result_eq]
  match x.last with
  | .ok (.finished outcome) s => rfl
  | .ok (.running f callers) s => simp [Program.conclude, Stage.depth, Stage.machine]
  | .error fault s => rfl

theorem exists_missing_iff : x.visits.any (·.instruction?.isNone) = true ↔ ∃ v ∈ x.visits, v.instruction? = none := by
  simp

/-- The visits of a request are its instructions, and one more if the last stands where there is none. -/
theorem length_visits : x.visits.length = x.instructions.length + (x.visits.any (·.instruction?.isNone)).toNat := by
  by_cases missing : ∃ v ∈ x.visits, v.instruction? = none
  · obtain ⟨front, v, s, parts, stand, none, -⟩ := x.leads.ends_at_missing missing
    have own := length_instructions stand
    rw [x.exists_missing_iff.mpr missing]
    simp [instructions, parts, none, own]
  · have stand : ∀ v ∈ x.visits, v.instruction?.isSome := by
      intro v among
      by_contra none
      exact missing ⟨v, among, by simpa using none⟩
    have whole : x.visits.any (·.instruction?.isNone) = false := by
      rw [← Bool.not_eq_true, x.exists_missing_iff]
      exact missing
    rw [whole, instructions, length_instructions stand]
    rfl

/-- Of the two ways to overcount a request takes one at most, since no body is left where the execution has failed. -/
theorem overcounts_toNat :
    x.overcounts.toNat = (x.last.depth != 0).toNat + (x.visits.any (·.instruction?.isNone)).toNat := by
  unfold overcounts
  by_cases missing : ∃ v ∈ x.visits, v.instruction? = none
  · obtain ⟨front, v, s, -, -, -, ended⟩ := x.leads.ends_at_missing missing
    have ends : x.last.depth = 0 := by rw [ended]; rfl
    simp [ends, x.exists_missing_iff.mpr missing]
  · have whole : x.visits.any (·.instruction?.isNone) = false := by
      rw [← Bool.not_eq_true, x.exists_missing_iff]
      exact missing
    simp [whole]

/-- A request has its instructions counted, and one more if it overcounts. -/
theorem counts : x.after.executed = x.machine.executed + x.instructions.length + x.overcounts.toNat := by
  have counted := x.metered.counted
  rw [x.executed_after, counted, x.length_visits, x.overcounts_toNat]
  omega

/-- What is counted for a request. -/
structure Counted (x : Service) : Prop where
  counts : x.after.executed = x.machine.executed + x.instructions.length + x.overcounts.toNat
  /-- The instructions keep to what is left of the limit. -/
  within : x.instructions.length ≤ x.program.limits.instructions - x.machine.executed
  /-- One more is counted where an instruction is refused, since the limit is used up, -/
  refused : x.last.depth ≠ 0 →
    x.answer = .error (.execution (.instructionLimitExceeded x.program.limits.instructions)) ∧
      x.machine.executed + x.instructions.length = max x.machine.executed x.program.limits.instructions
  /-- and where control has got to a place without an instruction, which is the last that the request visits. -/
  missing : (∃ v ∈ x.visits, v.instruction? = none) →
    x.answer = .error (.execution .invalidBranchTarget) ∧ x.visits.length = x.instructions.length + 1

theorem counted : x.Counted := by
  have split := x.length_visits
  refine ⟨x.counts, Nat.le_trans (by omega) x.metered.within, ?_, ?_⟩
  · intro left
    have answered : x.answer = .error (.execution (.instructionLimitExceeded x.program.limits.instructions)) := by
      unfold answer
      rw [x.result_eq]
      match last : x.last with
      | .ok (.running f callers) s => rfl
      | .ok (.finished outcome) s => exact absurd (by rw [last]; rfl) left
      | .error fault s => exact absurd (by rw [last]; rfl) left
    have whole : x.visits.any (·.instruction?.isNone) = false := by
      rw [← Bool.not_eq_true, x.exists_missing_iff]
      intro missing
      obtain ⟨front, v, s, -, -, -, ended⟩ := x.leads.ends_at_missing missing
      exact left (by rw [ended]; rfl)
    have full := x.metered.ends.resolve_left left
    rw [x.metered.counted, split, whole] at full
    exact ⟨answered, by simpa using full⟩
  · intro missing
    obtain ⟨front, v, s, -, -, -, ended⟩ := x.leads.ends_at_missing missing
    constructor
    · unfold answer
      rw [x.result_eq, ended]
      rfl
    · rw [split, x.exists_missing_iff.mpr missing]
      rfl

end Service

/-! ### Sessions -/

/-- The machine that a host leaves behind. -/
def Program.leaves (p : Program) : List HostAction → Machine → Machine
  | [], s => s
  | .register token method :: rest, s => (p.register token method).leaves rest s
  | .edit change :: rest, s => p.leaves rest { s with heap := change s.heap }
  | .request request :: rest, s => p.leaves rest (Service.after ⟨p, request, s⟩)

/-- A host does not change the limits. -/
theorem Program.limits_of_mem_services {p : Program} {actions : List HostAction} {s : Machine} {x : Service}
    (among : x ∈ p.services actions s) : x.program.limits = p.limits := by
  induction actions generalizing p s with
  | nil => cases among
  | cons action rest ih =>
    cases action with
    | register token method => exact ih (p := p.register token method) among
    | edit change => exact ih among
    | request request =>
      rcases List.mem_cons.mp among with rfl | later
      · rfl
      · exact ih later

/-- Whatever the host does, the machine has counted the instructions of all requests, and one more for each request that overcounts. -/
theorem Program.executed_leaves (p : Program) (actions : List HostAction) (s : Machine) :
    (p.leaves actions s).executed =
      s.executed + ((p.services actions s).flatMap (·.instructions)).length + (p.services actions s).countP (·.overcounts) := by
  induction actions generalizing p s with
  | nil => rfl
  | cons action rest ih =>
    cases action with
    | register token method => exact ih _ s
    | edit change => exact ih p _
    | request request =>
      have first := Service.counts ⟨p, request, s⟩
      have others := ih p (Service.after ⟨p, request, s⟩)
      rw [leaves, others, first, services, List.flatMap_cons, List.length_append, List.countP_cons]
      cases Service.overcounts ⟨p, request, s⟩ <;> simp <;> omega

/-- All requests together execute no more instructions than are left of the limit. -/
theorem Program.length_instructions_le (p : Program) (actions : List HostAction) (s : Machine) :
    ((p.services actions s).flatMap (·.instructions)).length ≤ p.limits.instructions - s.executed := by
  induction actions generalizing p s with
  | nil => exact Nat.zero_le _
  | cons action rest ih =>
    cases action with
    | register token method => exact ih _ s
    | edit change => exact ih p _
    | request request =>
      have within := (Service.counted ⟨p, request, s⟩).within
      have first := Service.counts ⟨p, request, s⟩
      have others := ih p (Service.after ⟨p, request, s⟩)
      rw [services, List.flatMap_cons, List.length_append]
      dsimp only at within first
      omega

/-- The requests of a host on a machine, also those behind a limit that has been hit. Each of them has its instructions counted, and
    one more if it overcounts; so the count of all of them is exact just if none does, and then keeps to the limit. -/
theorem requests_count_instructions (p : Program) (actions : List HostAction) (s : Machine) :
    let executed := ((p.services actions s).flatMap (·.instructions)).length
    (∀ x ∈ p.services actions s, x.program.limits = p.limits ∧ x.Counted) ∧
      (p.leaves actions s).executed = s.executed + executed + (p.services actions s).countP (·.overcounts) ∧
      ((p.leaves actions s).executed = s.executed + executed ↔ ∀ x ∈ p.services actions s, x.overcounts = false) ∧
      executed ≤ p.limits.instructions - s.executed := by
  intro executed
  have counted := p.executed_leaves actions s
  refine ⟨?_, counted, ?_, p.length_instructions_le actions s⟩
  · intro x among
    exact ⟨Program.limits_of_mem_services among, x.counted⟩
  · rw [counted, Nat.add_eq_left, List.countP_eq_zero]
    simp

namespace Sample

/-- A method that never comes to an end. -/
def spin : Method where
  name := "Spin"
  modifiers := { isStatic := true }
  body := some { code := .ofList [⟨.br, .target ⟨0⟩⟩] }

/-- The module of the method, and a limit of two instructions. -/
def spinning : Program where
  module := (({ name := "Sample", library := .standard } : Module).addType { name := ⟨"Sample", "Host"⟩, methods := [spin] }).1
  limits := { instructions := 2 }

/-- Two calls of the method. -/
def spins : List HostAction :=
  List.replicate 2 (.request (.invoke (.ofParts Token.methodDef 1) []))

set_option maxRecDepth 100000 in
/-- Two instructions are executed for the first call and none for the second, and the machine counts four. -/
theorem spins_overcount :
    spin.body.any (·.validate.isOk) ∧
      (spinning.services spins {}).map (fun x => (x.instructions.length, x.after.executed)) = [(2, 3), (0, 4)] ∧
      (spinning.leaves spins {}).executed = 4 ∧ spinning.limits.instructions = 2 := by
  decide +kernel

end Sample

end AspectWeaving

import AspectWeaving.Proofs.CountedRuns
import AspectWeaving.Proofs.NamingEnds

/-!
Budgets. Every request of a host comes to an end: its instructions lead to the end of the execution, or they are as many as are
left of the limit, which holds for all the requests on a machine together. Each instruction counts once, whatever it calls, and
leaves no more bodies under execution than the limit says (`Program.after_metered`). The room for bodies is given back whatever a
request comes to: a body is refused only where the request itself has filled it (`Service.metered`), and the counter of bodies is
at zero behind it. What has no end is a request that asks for a name that has none, of a type that leads back to itself.
-/
namespace AspectWeaving

open Running (Obeys)

/-! ### What is counted -/

/-- A body is refused, since there are as many under execution as the limit says. -/
def Fault.isRefusal : Fault → Bool
  | .execution (.callDepthExceeded _) => true
  | _ => false

/-- The host has a method that reports a fault. -/
def Program.HostReports (p : Program) (fault : Fault) : Prop :=
  ∃ host ∈ p.hostMethods, ∃ arguments heap heap', host.2 arguments heap = .error fault heap'

/-- A host method reports that a body is refused. -/
def Program.HostRefuses (p : Program) : Prop := ∃ fault, p.HostReports fault ∧ fault.isRefusal = true

/-- Where a computation stops with a fault there is a reason: a body is refused only where the bodies under execution, `n` of them,
    are as many as the limit says, and what does not end is the naming of a type that leads round in a circle. -/
structure Fault.HasReason (p : Program) (n : Nat) (fault : Fault) : Prop where
  refused : fault.isRefusal = true → p.limits.callDepth ≤ n ∨ p.HostRefuses
  endless : ∀ type, fault = .execution (.endlessName type) → p.module.isEndless type = true ∨ p.HostReports fault

/-- The machine counts no instruction, and stops for a reason. -/
def Regime.metered (p : Program) (n : Nat) : Regime where
  sound _ := True
  becomes s t := t.executed = s.executed
  admits _ _ := True
  fails := Fault.HasReason p n

variable {p : Program} {n : Nat}

theorem lawful_metered : (Regime.metered p n).Lawful p.module where
  refl _ := rfl
  trans first second := second.trans first
  mono _ _ := trivial
  plain _ := trivial
  held _ _ _ _ := trivial
  ordinary {fault} ordinary := by
    constructor
    · intro refusal
      cases fault with
      | execution cause => cases cause <;> simp_all [Fault.isOrdinary, ExecutionFault.isOrdinary, Fault.isRefusal]
      | _ => cases refusal
    · rintro type rfl
      cases ordinary
  endless {type} circle := by
    refine ⟨nofun, fun other same => .inl ?_⟩
    cases same
    exact circle
  dangling _ _ := ⟨nofun, nofun⟩
  push _ _ := ⟨trivial, rfl, trivial⟩
  modify _ _ := ⟨trivial, rfl⟩
  note _ := ⟨trivial, rfl⟩

theorem abides_metered : p.Abides (.metered p n) := by
  intro host among s arguments _ _
  unfold Obeys Running.callHost
  cases called : host.2 arguments s.heap with
  | ok outcome heap =>
    refine ⟨trivial, rfl, ?_⟩
    cases outcome <;> trivial
  | error fault heap =>
    have reports : p.HostReports fault := ⟨host, among, arguments, _, heap, called⟩
    exact ⟨trivial, rfl, fun refusal => .inr ⟨fault, reports, refusal⟩, fun type same => .inr reports⟩

theorem refuses_metered {depth : Nat} (few : depth ≤ n) : (Regime.metered p n).Refuses p depth :=
  fun full _ => ⟨fun _ => .inl (full.trans few), nofun⟩

theorem Frame.admitted_metered (f : Frame) (s : Machine) : f.Admitted (.metered p n) s where
  arguments _ _ := trivial
  slots _ _ := trivial
  stack _ _ := trivial
  active _ _ := trivial
  pending next _ := by cases next <;> simp [Pending.Admitted, Regime.metered]

/-! ### One instruction -/

/-- A stage at which so many instructions have been counted, no more bodies are under execution than the limit says, and a fault has
    a reason where there were `n` of them before. -/
structure Stage.Metered (p : Program) (n executed : Nat) (r : Stage) : Prop where
  counted : r.machine.executed = executed
  depth : r.depth ≤ p.limits.callDepth
  reason : ∀ fault s, r = .error fault s → fault.HasReason p n

theorem Stage.metered_of_obeys {x : Running Execution} {s : Machine}
    (obeys : Obeys (.metered p n) s x (Execution.Admitted (.metered p n) p.limits.callDepth)) :
    Stage.Metered p n s.executed (x s) := by
  cases came : x s with
  | ok e t =>
    obtain ⟨-, counted, admitted⟩ := obeys.ok came
    refine ⟨counted, ?_, nofun⟩
    cases e with
    | finished outcome => exact Nat.zero_le _
    | running top callers => exact admitted.2
  | error fault t =>
    obtain ⟨-, counted, fails⟩ := obeys.error came
    refine ⟨counted, Nat.zero_le _, fun cause u same => ?_⟩
    cases same
    exact fails

/-- An instruction counts once, whatever it calls. -/
theorem Program.after_metered (p : Program) {f : Frame} {callers : List Frame} (few : callers.length < p.limits.callDepth)
    (s : Machine) : Stage.Metered p (callers.length + 1) (s.executed + 1) (p.after f callers s) :=
  Stage.metered_of_obeys (s := { s with executed := s.executed + 1 }) <|
    obeys_advance lawful_metered trivial abides_metered (fun _ => refuses_metered) (fun g _ => g.admitted_metered _) few
      (Nat.le_refl _)

/-! ### Runs -/

theorem Program.Leads.depth_le {r r' : Stage} {visits : List Visit} (leads : p.Leads r visits r')
    (start : r.depth ≤ p.limits.callDepth) : r'.depth ≤ p.limits.callDepth := by
  induction leads with
  | stay => exact start
  | step _ ih => exact ih (p.after_metered start _).depth

/-- Each instruction of a run counts once. -/
theorem Program.Leads.executed_eq {r r' : Stage} {visits : List Visit} (leads : p.Leads r visits r')
    (start : r.depth ≤ p.limits.callDepth) : r'.machine.executed = r.machine.executed + visits.length := by
  induction leads with
  | stay => rfl
  | @step f callers s visits r rest ih =>
    have metered : Stage.Metered p (callers.length + 1) (s.executed + 1) (p.after f callers s) := p.after_metered start s
    rw [ih metered.depth, metered.counted, List.length_cons]
    show s.executed + 1 + visits.length = s.executed + (visits.length + 1)
    omega

/-- The fault that ends a run has its reason at one of the instructions, unless the run has started with it. -/
theorem Program.Leads.reason {r r' : Stage} {visits : List Visit} (leads : p.Leads r visits r')
    (start : r.depth ≤ p.limits.callDepth) {fault : Fault} {s : Machine} (failed : r' = .error fault s) :
    r = .error fault s ∨
      ∃ v ∈ visits, v.callers.length + 1 ≤ p.limits.callDepth ∧ fault.HasReason p (v.callers.length + 1) := by
  induction leads with
  | stay => exact .inl failed
  | @step f callers t visits r' rest ih =>
    have metered : Stage.Metered p (callers.length + 1) (t.executed + 1) (p.after f callers t) := p.after_metered start t
    refine .inr ?_
    rcases ih metered.depth failed with here | ⟨v, among, reason⟩
    · exact ⟨_, List.mem_cons_self, start, metered.reason fault s here⟩
    · exact ⟨v, List.mem_cons_of_mem _ among, reason⟩

/-! ### Requests -/

/-- A request keeps to the limits. -/
structure Service.Metered (x : Service) : Prop where
  /-- Its instructions lead to a stage that says what the host gets. -/
  leads : x.program.Leads x.start x.visits x.last
  result : x.result = x.program.conclude x.last
  /-- The execution is over then, or the budget is used up. -/
  ends : x.last.depth = 0 ∨ x.last.machine.executed = max x.machine.executed x.program.limits.instructions
  counted : x.last.machine.executed = x.machine.executed + x.visits.length
  within : x.visits.length ≤ x.program.limits.instructions - x.machine.executed
  /-- It finds no body under execution, -/
  fresh : x.start.depth ≤ 1
  /-- never has more than the limit says, -/
  depth : ∀ visits r, x.program.Leads x.start visits r → r.depth ≤ x.program.limits.callDepth
  /-- and is refused another one only where it has as many itself. -/
  refused : ∀ fault, x.answer = .error fault → fault.isRefusal = true →
    x.program.limits.callDepth = 0 ∨ (∃ v ∈ x.visits, v.callers.length + 1 = x.program.limits.callDepth) ∨ x.program.HostRefuses
  /-- It goes on without end only where it asks for a name that naming does not end with. -/
  endless : ∀ type, x.answer = .error (.execution (.endlessName type)) →
    x.program.module.nameToken type = none ∨ x.program.HostReports (.execution (.endlessName type))

theorem Service.start_metered (x : Service) : Stage.Metered x.program 0 x.machine.executed x.start := by
  refine Stage.metered_of_obeys (HostRequest.obeys_start lawful_metered abides_metered ?_ trivial x.request fun _ _ => trivial)
  exact refuses_metered (Nat.le_refl 0)

/-- A fault that the host gets ends the run of the request, or the budget has been used up. -/
theorem Service.last_of_answer {x : Service} {fault : Fault} (answered : x.answer = .error fault) :
    (∃ s, x.last = .error fault s) ∨ fault = .execution (.instructionLimitExceeded x.program.limits.instructions) := by
  unfold answer at answered
  rw [x.result_eq] at answered
  match last : x.last with
  | .ok (.finished outcome) s =>
    rw [last] at answered
    cases answered
  | .ok (.running f callers) s =>
    rw [last] at answered
    cases answered
    exact .inr rfl
  | .error cause s =>
    rw [last] at answered
    cases answered
    exact .inl ⟨s, rfl⟩

/-- A fault that the host gets has its reason at one of the instructions, or where no body is under execution. -/
theorem Service.reason_of_answer {x : Service} {fault : Fault} (answered : x.answer = .error fault)
    (other : fault ≠ .execution (.instructionLimitExceeded x.program.limits.instructions)) :
    fault.HasReason x.program 0 ∨
      ∃ v ∈ x.visits, v.callers.length + 1 ≤ x.program.limits.callDepth ∧ fault.HasReason x.program (v.callers.length + 1) := by
  obtain ⟨s, failed⟩ := (last_of_answer answered).resolve_right other
  rcases x.leads.reason x.start_metered.depth failed with here | visited
  · exact .inl (x.start_metered.reason fault s here)
  · exact .inr visited

theorem Service.metered (x : Service) : x.Metered := by
  have start := x.start_metered
  have counted : x.last.machine.executed = x.machine.executed + x.visits.length := by
    rw [x.leads.executed_eq start.depth, start.counted]
  have budget : x.budget = x.program.limits.instructions - x.machine.executed := by rw [budget, start.counted]
  have within : x.visits.length ≤ x.program.limits.instructions - x.machine.executed :=
    budget ▸ x.program.length_trail_le x.budget x.start
  refine ⟨x.leads, x.result_eq, ?_, counted, within, x.program.depth_start_le _ _, fun visits r leads => leads.depth_le start.depth,
    fun fault answered refusal => ?_, fun type answered => ?_⟩
  · by_cases ended : x.last.depth = 0
    · exact .inl ended
    · have full : x.visits.length = x.budget := x.program.length_trail_eq ended
      omega
  · have other : fault ≠ .execution (.instructionLimitExceeded x.program.limits.instructions) := by
      rintro rfl
      cases refusal
    rcases reason_of_answer answered other with first | ⟨v, among, room, later⟩
    · exact (first.refused refusal).imp Nat.le_zero.mp .inr
    · exact .inr ((later.refused refusal).imp_left fun full => ⟨v, among, Nat.le_antisymm room full⟩)
  · have reason : x.program.module.isEndless type = true ∨ x.program.HostReports (.execution (.endlessName type)) := by
      rcases reason_of_answer answered nofun with first | ⟨v, among, room, later⟩
      · exact first.endless type rfl
      · exact later.endless type rfl
    exact reason.imp_left fun circle => Module.naming_eq_error_iff.mp (if_pos circle)

/-- The machine that a request leaves has counted its instructions. -/
theorem Service.executed_le_after (x : Service) : x.machine.executed + x.visits.length ≤ x.after.executed := by
  rw [← x.metered.counted]
  unfold after
  rw [x.result_eq]
  match x.last with
  | .ok (.finished outcome) s => exact Nat.le_refl _
  | .ok (.running f callers) s => exact Nat.le_succ _
  | .error fault s => exact Nat.le_refl _

/-- The requests that a host makes of a program are requests of the program with some host methods more. -/
theorem Program.program_of_services {p : Program} {actions : List HostAction} {s : Machine} {x : Service}
    (among : x ∈ p.services actions s) : x.program.limits = p.limits ∧ x.program.module = p.module := by
  induction actions generalizing p s with
  | nil => cases among
  | cons action rest ih =>
    cases action with
    | register token method => exact ih (p := p.register token method) among
    | edit change => exact ih among
    | request request =>
      rcases List.mem_cons.mp among with rfl | later
      · exact ⟨rfl, rfl⟩
      · exact ih later

/-- All the requests of a host together execute no more instructions than are left of the limit. -/
theorem Program.length_visits_le (p : Program) (actions : List HostAction) (s : Machine) :
    ((p.services actions s).flatMap (·.visits)).length ≤ p.limits.instructions - s.executed := by
  induction actions generalizing p s with
  | nil => exact Nat.zero_le _
  | cons action rest ih =>
    cases action with
    | register token method => exact ih _ s
    | edit change => exact ih p _
    | request request =>
      have first := (Service.metered ⟨p, request, s⟩).within
      have left := Service.executed_le_after ⟨p, request, s⟩
      have others := ih p (Service.after ⟨p, request, s⟩)
      rw [Program.services, List.flatMap_cons, List.length_append]
      dsimp only at first left
      omega

/-- The requests of a host on an interpreter that counts no body, whatever they come to and whatever the host does in between:
    each of them comes to an end, counts the bodies under execution, which are never more than the limit says, and counts none
    behind it. All of them together execute no more instructions than are left of the limit. None goes on without end if no type of
    a row leads back to itself. -/
theorem requests_stay_within_limits (p : Program) (actions : List HostAction) (s : Machine) :
    p.session actions (s.counting 0) = (p.services actions s).map (fun x => (x.answer, x.after.counting 0)) ∧
      (∀ x ∈ p.services actions s, x.program.limits = p.limits ∧ x.program.module = p.module ∧ x.Metered ∧
        ∀ instructions, (x.stage instructions).Counts p.limits.callDepth) ∧
      ((p.services actions s).flatMap (·.visits)).length ≤ p.limits.instructions - s.executed ∧
      (WellFounded p.module.imports.Asks → ∀ x ∈ p.services actions s, ∀ type,
        x.answer = .error (.execution (.endlessName type)) → x.program.HostReports (.execution (.endlessName type))) := by
  refine ⟨p.session_eq_map actions s, fun x among => ?_, p.length_visits_le actions s, fun ends x among type answered => ?_⟩
  · obtain ⟨limits, module⟩ := Program.program_of_services among
    refine ⟨limits, module, x.metered, fun instructions => ?_⟩
    rw [x.stage_eq]
    exact Stage.counts (limits ▸ x.metered.depth _ _ (x.program.leads_trail instructions x.start))
  · refine (x.metered.endless type answered).resolve_left fun unnamed => ?_
    rw [(Program.program_of_services among).2] at unnamed
    cases unnamed.symm.trans (Module.nameOf_of_acc (x := .token type) (ends.apply _))

namespace Sample

/-- A module with a row for the array of what the row itself stands for, and a constructor of that. -/
def ringed : Module where
  name := "Sample"
  library := {}
  imports := {
    typeSpecs := #[.array (.classType (.ofParts Token.typeSpec 1))]
    memberRefs := #[⟨.ofParts Token.typeSpec 1, constructorName, [], true⟩] }

/-- A request for an object of a type that leads back to itself has no end. -/
theorem ringed_construct_endless :
    ringed.nameToken (.ofParts Token.typeSpec 1) = none ∧
      Program.session { module := ringed } [.request (.construct (.ofParts Token.memberRef 1) [])] {} =
        [(.error (.execution (.endlessName (.ofParts Token.typeSpec 1))), {})] :=
  ⟨Module.naming_eq_error_iff.mp rfl, rfl⟩

end Sample

end AspectWeaving

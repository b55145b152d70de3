import AspectWeaving.Proofs.RegimeRuns
import AspectWeaving.Proofs.SoundRuns

/-!
What the requests of a host come to. A `Service` is a request with the program and the machine that it finds. It has a start, and
instructions that are executed for it within what is left of the budget; what the host gets is read off the stage that they
lead to (`Service.result_eq`). A session is a list of services, each on the machine that the one before leaves
(`Program.services`).
-/
namespace AspectWeaving

/-! ### Stages -/

/-- The number of bodies under execution. -/
def Stage.depth : Stage → Nat
  | .ok (.running _ callers) _ => callers.length + 1
  | _ => 0

/-- What a stage comes to where no more instructions are executed. One more is counted where one would have been. -/
def Program.conclude (p : Program) : Stage → EStateM.Result Fault Machine Outcome
  | .ok (.finished outcome) s => .ok outcome s
  | .ok (.running _ _) s =>
    .error (.execution (.instructionLimitExceeded p.limits.instructions)) { s with executed := s.executed + 1 }
  | .error fault s => .error fault s

namespace Program

variable {p : Program} {r : Stage}

theorem trail_of_depth_eq_zero (ended : r.depth = 0) (budget : Nat) : p.trail budget r = ([], r) := by
  unfold trail
  split
  · cases ended
  · rfl

theorem length_trail_le (p : Program) (budget : Nat) (r : Stage) : (p.trail budget r).1.length ≤ budget := by
  induction budget generalizing r with
  | zero => exact Nat.le_refl 0
  | succ budget ih =>
    match r with
    | .ok (.running f callers) s => exact Nat.succ_le_succ (ih _)
    | .ok (.finished outcome) s => exact Nat.zero_le _
    | .error fault s => exact Nat.zero_le _

/-- Where an execution is not over behind its instructions, they are as many as the budget allows. -/
theorem length_trail_eq (p : Program) {budget : Nat} (more : (p.trail budget r).2.depth ≠ 0) :
    (p.trail budget r).1.length = budget := by
  induction budget generalizing r with
  | zero => rfl
  | succ budget ih =>
    match r with
    | .ok (.running f callers) s => exact congrArg (· + 1) (ih more)
    | .ok (.finished outcome) s => exact absurd rfl more
    | .error fault s => exact absurd rfl more

/-- A run with a budget comes to what the stage comes to that its instructions lead to. -/
theorem run_eq_conclude (budget : Nat) (e : Execution) (s : Machine) :
    run p budget e s = p.conclude (p.trail budget (.ok e s)).2 := by
  induction budget generalizing e s with
  | zero => cases e <;> rfl
  | succ budget ih =>
    cases e with
    | finished outcome => rfl
    | running f callers =>
      rw [run_running]
      show _ = p.conclude (p.trail budget (p.after f callers s)).2
      cases p.after f callers s with
      | ok e t => exact ih e t
      | error fault t => rw [trail_of_depth_eq_zero rfl]; rfl

end Program

/-! ### Services -/

/-- The call that a request makes. No body is under execution then. -/
def HostRequest.call (p : Program) : HostRequest → Running Progress
  | .invoke target arguments => AspectWeaving.call p 0 target arguments false
  | .construct target arguments => AspectWeaving.construct p 0 target arguments

/-- The arguments of the call. -/
def HostRequest.arguments : HostRequest → List Value
  | .invoke _ arguments | .construct _ arguments => arguments

/-- The start of a call keeps to a regime that the arguments are in. -/
theorem HostRequest.obeys_start {D : Regime} {p : Program} (L : D.Lawful p.module) (abides : p.Abides D) (refuses : D.Refuses p 0)
    {s : Machine} (sound : D.sound s) (request : HostRequest) (admits : ∀ v ∈ request.arguments, D.admits s v) :
    Running.Obeys D s (p.start (request.call p)) (Execution.Admitted D p.limits.callDepth) := by
  have called : Running.Obeys D s (request.call p) (Progress.Admitted D p 0) := by
    cases request with
    | invoke target arguments => exact obeys_call L abides refuses sound target admits false
    | construct target arguments => exact obeys_construct L abides refuses sound target admits
  refine called.bind L fun progress t sound _ entered => ?_
  have none : ∀ f ∈ ([] : List Frame), f.Admitted D t := nofun
  exact obeys_settle L sound entered none (Nat.zero_le _) (Nat.le_refl _)

/-- A call starts with a body of its own at most. -/
theorem Program.depth_start_le (p : Program) (call : Running Progress) (s : Machine) : Stage.depth (p.start call s) ≤ 1 := by
  unfold start
  simp only [bind, EStateM.bind]
  cases call s with
  | error fault t => exact Nat.zero_le 1
  | ok progress t =>
    cases progress with
    | enter f => exact Nat.le_refl 1
    | done outcome => cases outcome <;> exact Nat.zero_le 1

/-- A request of a host, with what it finds. -/
structure Service where
  program : Program
  request : HostRequest
  machine : Machine

namespace Service

/-- The stage at which no instruction has been executed yet. -/
def start (x : Service) : Stage := x.program.start (x.request.call x.program) x.machine

/-- What is left of the budget for instructions. -/
def budget (x : Service) : Nat := x.program.limits.instructions - x.start.machine.executed

/-- The instructions that are executed. -/
def visits (x : Service) : List Visit := (x.program.trail x.budget x.start).1

/-- The stage to which they lead. -/
def last (x : Service) : Stage := (x.program.trail x.budget x.start).2

/-- What the request comes to. -/
def result (x : Service) : EStateM.Result Fault Machine Outcome := x.request.run x.program x.machine

/-- What the host gets. -/
def answer (x : Service) : Except Fault Outcome :=
  match x.result with
  | .ok outcome _ => .ok outcome
  | .error fault _ => .error fault

/-- The machine that the request leaves. -/
def after (x : Service) : Machine :=
  match x.result with
  | .ok _ s => s
  | .error _ s => s

theorem leads (x : Service) : x.program.Leads x.start x.visits x.last := x.program.leads_trail _ _

theorem result_eq (x : Service) : x.result = x.program.conclude x.last := by
  have executed : x.result = x.program.execute (x.request.call x.program) x.machine := by
    unfold result
    cases x.request <;> rfl
  rw [executed, Program.execute_eq]
  unfold last budget start
  cases x.program.start (x.request.call x.program) x.machine with
  | ok e u => exact Program.run_eq_conclude _ e u
  | error fault u =>
    rw [Program.trail_of_depth_eq_zero rfl]
    rfl

end Service

/-- The requests of a host, one after another on one machine. -/
def Program.services (p : Program) : List HostAction → Machine → List Service
  | [], _ => []
  | .register token method :: rest, s => (p.register token method).services rest s
  | .edit change :: rest, s => p.services rest { s with heap := change s.heap }
  | .request request :: rest, s => ⟨p, request, s⟩ :: p.services rest (Service.after ⟨p, request, s⟩)

/-- The host gets what its requests come to. -/
theorem Program.serve_eq_map (p : Program) (actions : List HostAction) (s : Machine) :
    p.serve actions s = (p.services actions s).map (·.answer) := by
  induction actions generalizing p s with
  | nil => rfl
  | cons action rest ih =>
    cases action with
    | register token method => exact ih _ s
    | edit change => exact ih p _
    | request request =>
      have answered : p.serve (.request request :: rest) s =
          Service.answer ⟨p, request, s⟩ :: p.serve rest (Service.after ⟨p, request, s⟩) := by
        simp only [serve, Service.answer, Service.after, Service.result]
        cases request.run p s <;> rfl
      rw [answered, ih]
      rfl

end AspectWeaving

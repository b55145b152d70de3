import AspectWeaving.Execution
import Mathlib.Tactic.Common

/-!
Runs of a program, one instruction after another. A `Stage` is what an execution has come to, with the
machine; `Program.after` is the stage after an instruction, and `Program.Leads` goes from a stage to a
later one and lists the instructions on the way (`Visit`). A call that comes to an end is a run from
its start (`Program.start`) to a stage that is finished (`Program.execute_eq_ok_iff`).
-/
namespace AspectWeaving

/-- What an execution has come to, and the machine. -/
abbrev Stage := EStateM.Result Fault Machine Execution

/-- The machine of a stage. -/
def Stage.machine : Stage → Machine
  | .ok _ s => s
  | .error _ s => s

/-- The calls of the host that a machine has recorded and an earlier one has not. -/
def Machine.callsSince (later earlier : Machine) : List HostCall :=
  later.hostCalls.toList.drop earlier.hostCalls.size

/-- The execution of one instruction: the frame at it, the frames below and the calls of the host that it
    made. -/
structure Visit where
  frame : Frame
  callers : List Frame
  calls : List HostCall

namespace Program

/-- The stage after the instruction of a frame. -/
def after (p : Program) (f : Frame) (callers : List Frame) (s : Machine) : Stage :=
  advance p f callers { s with executed := s.executed + 1 }

/-- The instruction of a frame under execution. -/
def visit (p : Program) (f : Frame) (callers : List Frame) (s : Machine) : Visit :=
  ⟨f, callers, (p.after f callers s).machine.callsSince s⟩

/-- Instructions lead from a stage to another one. -/
inductive Leads (p : Program) : Stage → List Visit → Stage → Prop
  | stay (r : Stage) : Leads p r [] r
  | step {f : Frame} {callers : List Frame} {s : Machine} {visits : List Visit} {r : Stage}
      (rest : Leads p (p.after f callers s) visits r) :
      Leads p (.ok (.running f callers) s) (p.visit f callers s :: visits) r

variable {p : Program} {r r' r'' : Stage} {visits visits' : List Visit}

theorem Leads.trans (first : p.Leads r visits r') (second : p.Leads r' visits' r'') :
    p.Leads r (visits ++ visits') r'' := by
  induction first with
  | stay => exact second
  | step _ ih => exact .step (ih second)

/-- One instruction is a run. -/
theorem leads_after (p : Program) (f : Frame) (callers : List Frame) (s : Machine) :
    p.Leads (.ok (.running f callers) s) [p.visit f callers s] (p.after f callers s) :=
  .step (.stay _)

/-- Where some instructions lead, and what is executed on the way. An execution that is over goes nowhere. -/
def trail (p : Program) : Nat → Stage → List Visit × Stage
  | budget + 1, .ok (.running f callers) s =>
    let rest := trail p budget (p.after f callers s)
    (p.visit f callers s :: rest.1, rest.2)
  | _, r => ([], r)

theorem leads_trail (p : Program) (budget : Nat) (r : Stage) : p.Leads r (p.trail budget r).1 (p.trail budget r).2 := by
  induction budget generalizing r with
  | zero => exact .stay r
  | succ budget ih =>
    match r with
    | .ok (.running f callers) s => exact .step (ih _)
    | .ok (.finished outcome) s => exact .stay _
    | .error fault s => exact .stay _

/-- The start of a call. -/
def start (p : Program) (call : Running Progress) : Running Execution := do settle p.module [] (← call)

theorem run_running (p : Program) (budget : Nat) (f : Frame) (callers : List Frame) (s : Machine) :
    run p (budget + 1) (.running f callers) s =
      match p.after f callers s with
      | .ok e t => run p budget e t
      | .error fault t => .error fault t := by
  change EStateM.bind (advance p f callers) (run p budget) { s with executed := s.executed + 1 } = _
  unfold EStateM.bind after
  cases advance p f callers { s with executed := s.executed + 1 } <;> rfl

/-- A run with a budget comes to an end where instructions lead there, not more than the budget. -/
theorem run_eq_ok_iff {budget : Nat} {e : Execution} {s t : Machine} {o : Outcome} :
    run p budget e s = .ok o t ↔
      ∃ visits, p.Leads (.ok e s) visits (.ok (.finished o) t) ∧ visits.length ≤ budget := by
  induction budget generalizing e s with
  | zero =>
    cases e with
    | finished outcome =>
      constructor
      · intro ended
        obtain ⟨rfl, rfl⟩ : outcome = o ∧ s = t := by simpa [run, pure, EStateM.pure] using ended
        exact ⟨[], .stay _, Nat.le_refl 0⟩
      · rintro ⟨visits, leads, -⟩
        cases leads
        rfl
    | running f callers =>
      constructor
      · intro ended
        have stopped : run p 0 (.running f callers) s =
            .error (.execution (.instructionLimitExceeded p.limits.instructions))
              { s with executed := s.executed + 1 } := rfl
        rw [stopped] at ended
        cases ended
      · rintro ⟨visits, leads, none⟩
        obtain rfl : visits = [] := List.length_eq_zero_iff.mp (Nat.le_zero.mp none)
        cases leads
  | succ budget ih =>
    cases e with
    | finished outcome =>
      constructor
      · intro ended
        obtain ⟨rfl, rfl⟩ : outcome = o ∧ s = t := by simpa [run, pure, EStateM.pure] using ended
        exact ⟨[], .stay _, Nat.zero_le _⟩
      · rintro ⟨visits, leads, -⟩
        cases leads
        rfl
    | running f callers =>
      rw [run_running]
      constructor
      · intro ended
        split at ended
        · rename_i next u stepped
          obtain ⟨visits, leads, bound⟩ := ih.mp ended
          exact ⟨_, .step (stepped ▸ leads), Nat.succ_le_succ bound⟩
        · cases ended
      · rintro ⟨visits, leads, bound⟩
        cases leads with
        | step rest =>
          split
          · rename_i next u stepped
            rw [stepped] at rest
            exact ih.mpr ⟨_, rest, Nat.le_of_succ_le_succ bound⟩
          · rename_i fault u stepped
            rw [stepped] at rest
            cases rest

/-- A call is run from its start, with what is left of the limit. -/
theorem execute_eq (p : Program) (call : Running Progress) (s : Machine) :
    p.execute call s =
      match p.start call s with
      | .ok e u => run p (p.limits.instructions - u.executed) e u
      | .error fault u => .error fault u := by
  unfold execute start
  simp only [bind, EStateM.bind]
  cases call s with
  | ok progress u =>
    simp only
    cases settle p.module [] progress u <;> rfl
  | error fault u => rfl

/-- A call comes to an end where instructions lead there from its start, not more than the limit. -/
theorem execute_eq_ok_iff {call : Running Progress} {s t : Machine} {o : Outcome} :
    p.execute call s = .ok o t ↔
      ∃ e u visits, p.start call s = .ok e u ∧ p.Leads (.ok e u) visits (.ok (.finished o) t) ∧
        visits.length ≤ p.limits.instructions - u.executed := by
  rw [execute_eq]
  cases p.start call s with
  | ok e u =>
    simp only [run_eq_ok_iff]
    constructor
    · rintro ⟨visits, leads, bound⟩
      exact ⟨e, u, visits, rfl, leads, bound⟩
    · rintro ⟨_, _, visits, same, leads, bound⟩
      cases same
      exact ⟨visits, leads, bound⟩
  | error fault u => simp

end Program

end AspectWeaving

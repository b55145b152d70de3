import AspectWeaving.Proofs.Catching
import AspectWeaving.Proofs.CompactSteps
import AspectWeaving.Proofs.Regimes

/-!
Outcomes of calls. A body that is called above others comes to an outcome (`Program.EndsWith`), which has nothing to do with what is
to become of it then: nothing that a body does depends on what waits for it (`Program.next_above`). So a body that comes to no
outcome fails or goes on for ever (`Program.ends_or_goes_on`).
-/
namespace AspectWeaving

open Running (compute)

/-! ### Bodies above others -/

/-- The stage behind the next instruction. -/
def Program.next (p : Program) : Stage → Stage
  | .ok (.running f callers) s => p.after f callers s
  | r => r

/-- A body `c` is under execution above others, with bodies above it that it has called. -/
def Stage.above : List Frame → Frame → List Frame → Machine → Stage
  | [], c, frames, s => .ok (.running c frames) s
  | top :: rest, c, frames, s => .ok (.running top (rest ++ c :: frames)) s

/-- A body `c` above others comes to an outcome, whatever is to become of that. -/
inductive Program.EndsWith (p : Program) (frames : List Frame) : List Frame → Frame → Machine → Outcome → Machine → Prop
  | ended {above : List Frame} {c : Frame} {s t : Machine} {o : Outcome}
      (ends : ∀ pending, p.next (.above above { c with pending } frames s) =
        settleAttempt p.module frames (complete p frames.length pending o) t) : EndsWith p frames above c s o t
  | goes {above above' : List Frame} {c c' : Frame} {s t u : Machine} {o : Outcome}
      (onward : ∀ pending, p.next (.above above { c with pending } frames s) = .above above' { c' with pending } frames t)
      (rest : EndsWith p frames above' c' t o u) : EndsWith p frames above c s o u

/-- A call comes to an outcome, at once or by a body. -/
inductive Program.Comes (p : Program) (frames : List Frame) (call : Running Progress) (s : Machine) (o : Outcome) (t : Machine) : Prop
  | done (called : call s = .ok (.done o) t)
  | body {c : Frame} {u : Machine} (called : call s = .ok (.enter c) u) (ends : p.EndsWith frames [] c u o t)

section Outcomes

variable {p : Program} {frames above : List Frame} {c : Frame} {s t : Machine} {o : Outcome}

/-- An instruction of a body above others, or of one that it has called. -/
theorem Program.leads_next (p : Program) (above : List Frame) (c : Frame) (frames : List Frame) (s : Machine) :
    ∃ v, p.Leads (.above above c frames s) [v] (p.next (.above above c frames s)) ∧ frames.length ≤ v.callers.length := by
  cases above with
  | nil => exact ⟨_, p.leads_after c frames s, Nat.le_refl _⟩
  | cons top rest => exact ⟨_, p.leads_after top (rest ++ c :: frames) s, by simp [visit]; omega⟩

/-- A run of a body leads to where its outcome goes on. -/
theorem Program.EndsWith.leads (ends : p.EndsWith frames above c s o t) (pending : List Pending) :
    ∃ visits, p.Leads (.above above { c with pending } frames s) visits
      (settleAttempt p.module frames (complete p frames.length pending o) t) ∧ ∀ v ∈ visits, frames.length ≤ v.callers.length := by
  induction ends with
  | @ended above c s t o ends =>
    obtain ⟨v, leads, higher⟩ := p.leads_next above { c with pending } frames s
    rw [ends pending] at leads
    exact ⟨[v], leads, List.forall_mem_singleton.mpr higher⟩
  | @goes above above' c c' s t u o onward _ ih =>
    obtain ⟨v, leads, higher⟩ := p.leads_next above { c with pending } frames s
    rw [onward pending] at leads
    obtain ⟨visits, further, others⟩ := ih
    exact ⟨v :: visits, leads.trans further, List.forall_mem_cons.mpr ⟨higher, others⟩⟩

end Outcomes

/-! ### What waits for a body -/

section Waiting

variable {m : Module} {p : Program} {frames : List Frame} {c : Frame} {x : HeapRef} {s t : Machine}

theorem catch?_pending (m : Module) (h : Heap) (x : HeapRef) (c : Frame) (pending : List Pending) :
    Frame.catch? m h { c with pending } x = (c.catch? m h x).map fun found => found.map fun g => { g with pending } := by
  simp only [Frame.catch?, bind, Except.bind]
  cases (c.activation.position c.place).mapError Fault.execution with
  | error fault => rfl
  | ok position =>
    dsimp only
    cases (Frame.stillActive c.activation position c.active).mapError Fault.execution with
    | error fault => rfl
    | ok active =>
      dsimp only
      cases Frame.findClause m h c.activation position x 0 c.activation.body.handlers with
      | error fault => rfl
      | ok found => cases found <;> rfl

theorem leave_pending (c : Frame) (target : Handle) (pending : List Pending) :
    Frame.leave { c with pending } target = (c.leave target).map fun g => { g with pending } := by
  simp only [Frame.leave, bind, Except.bind]
  cases c.activation.position target with
  | error cause => rfl
  | ok position =>
    dsimp only
    cases Frame.stillActive c.activation position c.active <;> rfl

theorem step_pending (m : Module) (c : Frame) (i : Instruction) (pending : List Pending) :
    step m { c with pending } i = step m c i := by
  unfold step
  split <;> rfl

theorem receive_pending (c : Frame) (value : Value) (pending : List Pending) :
    ({ c with pending } : Frame).receive value = { c.receive value with pending } := by
  cases value <;> rfl

/-- A method without a result gives none. -/
theorem exit_of_step {i : Instruction} {stack : List Value} {v : Value} (void : c.activation.returnsValue = false)
    (made : step m c i s = .ok (stack, .exit v) t) : v = .void := by
  have action := ensures_step m c i _ _ _ made
  change i.opcode.action = .exit at action
  simp only [step, action, void] at made
  cases made
  rfl

/-- What an instruction comes to in a body above others, without what waits for the body. -/
inductive Lower where
  | failed (fault : Fault) (t : Machine)
  | goes (above : List Frame) (c : Frame) (t : Machine)
  | ended (o : Outcome) (t : Machine)

/-- The stage that it is with what waits for the body. -/
def Lower.stage (p : Program) (frames : List Frame) (pending : List Pending) : Lower → Stage
  | .failed fault t => .error fault t
  | .goes above c t => .above above { c with pending } frames t
  | .ended o t => settleAttempt p.module frames (complete p frames.length pending o) t

/-- It is of a body under execution: that goes on in the same execution, and gives a value only if its method does. -/
def Lower.Of (a : Activation) : Lower → Prop
  | .failed _ _ => True
  | .goes _ c _ => c.activation = a
  | .ended o _ => a.returnsValue = false → ∀ v, o = .returned v → v = .void

/-- An exception that gets out of a body goes on where its outcome does. -/
theorem settleAttempt_threw (p : Program) (frames : List Frame) (pending : List Pending) (x : HeapRef) (s : Machine) :
    settleAttempt p.module frames (complete p frames.length pending (.threw x)) s = unwind p.module x frames s := by
  cases pending <;> rfl

theorem lower_unwind (p : Program) (x : HeapRef) (c : Frame) (frames : List Frame) (s : Machine) :
    ∃ lower : Lower, lower.Of c.activation ∧
      ∀ pending, unwind p.module x ({ c with pending } :: frames) s = lower.stage p frames pending := by
  simp only [unwind_cons, catch?_pending]
  cases caught : c.catch? p.module s.heap x with
  | error fault => exact ⟨.failed fault s, trivial, fun _ => rfl⟩
  | ok found =>
    cases found with
    | none => exact ⟨.ended (.threw x) s, nofun, fun pending => (settleAttempt_threw p frames pending x s).symm⟩
    | some handling =>
      exact ⟨.goes [] handling s, Frame.activation_of_catch? caught, fun _ => rfl⟩

theorem lower_goAhead (p : Program) (c : Frame) (frames : List Frame) (s : Machine) :
    ∃ lower : Lower, lower.Of c.activation ∧ ∀ pending, goAhead { c with pending } frames s = lower.stage p frames pending := by
  simp only [goAhead, Frame.ahead]
  cases c.activation.next c.place with
  | error cause => exact ⟨.failed (.execution cause) s, trivial, fun _ => rfl⟩
  | ok place => exact ⟨.goes [] { c with place } s, rfl, fun _ => rfl⟩

/-- A body that a call returns to. -/
theorem lower_receive (p : Program) (c : Frame) (value : Value) (frames : List Frame) (s : Machine) :
    ∃ lower : Lower, lower.Of c.activation ∧
      ∀ pending, goAhead (({ c with pending } : Frame).receive value) frames s = lower.stage p frames pending := by
  obtain ⟨lower, own, same⟩ := lower_goAhead p (c.receive value) frames s
  rw [(c.beside_receive value).activation] at own
  refine ⟨lower, own, fun pending => ?_⟩
  rw [← same, receive_pending]

theorem lower_raise (p : Program) (fault : Fault) (c : Frame) (frames : List Frame) (s : Machine) :
    ∃ lower : Lower, lower.Of c.activation ∧
      ∀ pending, raise p.module fault ({ c with pending } :: frames) s = lower.stage p frames pending := by
  cases named : fault.exceptionName? with
  | none => exact ⟨.failed fault s, trivial, fun pending => by simp only [raise, named]; rfl⟩
  | some typeName =>
    cases found : c.activation.body.code.get? c.place with
    | none => exact ⟨.failed fault s, trivial, fun pending => by simp only [raise, named, found]; rfl⟩
    | some i =>
      obtain ⟨lower, own, same⟩ := lower_unwind p s.heap.nextRef c frames
        { s with trace := s.trace.push (.raised i typeName), heap := s.heap.push (.exception typeName (some fault.message)) }
      refine ⟨lower, own, fun pending => ?_⟩
      rw [← same]
      simp only [raise, named, found]
      rfl

theorem lower_settleAttempt (p : Program) (c : Frame) (frames : List Frame) (call : Running Progress) (s : Machine) :
    ∃ lower : Lower, lower.Of c.activation ∧
      ∀ pending, settleAttempt p.module ({ c with pending } :: frames) call s = lower.stage p frames pending := by
  simp only [settleAttempt_eq]
  cases call s with
  | error fault t => exact lower_raise p fault c frames t
  | ok progress t =>
    cases progress with
    | enter callee => exact ⟨.goes [callee] c t, rfl, fun _ => rfl⟩
    | done outcome =>
      cases outcome with
      | threw x => exact lower_unwind p x c frames t
      | returned value => exact lower_receive p c value frames t

/-- What an instruction comes to above a body is, for the body, what it comes to itself. -/
theorem lower_of_higher (p : Program) (c : Frame) (frames : List Frame) (higher : Higher) :
    ∃ lower : Lower, lower.Of c.activation ∧
      ∀ pending, higher.stage p.module { c with pending } frames = lower.stage p frames pending := by
  cases higher with
  | failed fault t => exact ⟨.failed fault t, trivial, fun _ => rfl⟩
  | below top between t => exact ⟨.goes (top :: between) c t, rfl, fun _ => rfl⟩
  | threw x t => exact lower_unwind p x c frames t
  | returned value t => exact lower_receive p c value frames t

/-- No instruction of a body depends on what waits for the body. -/
theorem Program.next_above (p : Program) (above : List Frame) (c : Frame) (frames : List Frame) (s : Machine) :
    ∃ lower : Lower, lower.Of c.activation ∧
      ∀ pending, p.next (.above above { c with pending } frames s) = lower.stage p frames pending := by
  cases above with
  | cons top rest =>
    obtain ⟨higher, same⟩ := p.after_higher top rest c frames s
    obtain ⟨lower, own, alike⟩ := lower_of_higher p c frames higher
    exact ⟨lower, own, fun pending => (same pending).trans (alike pending)⟩
  | nil =>
    show ∃ lower : Lower, lower.Of c.activation ∧ ∀ pending, p.after { c with pending } frames s = lower.stage p frames pending
    unfold Program.after
    cases found : c.activation.body.code.get? c.place with
    | none =>
      have missing := fun pending => @advance_of_missing p { c with pending } frames found { s with executed := s.executed + 1 }
      exact ⟨.failed (.execution .invalidBranchTarget) { s with executed := s.executed + 1 }, trivial, missing⟩
    | some i =>
      have stepped := step_pending p.module c i
      have advanced := fun pending => @advance_eq p { c with pending } frames i found { s with executed := s.executed + 1 }
      simp only [advanced, stepped]
      cases made : step p.module c i { s with executed := s.executed + 1 } with
      | error fault t => exact lower_raise p fault c frames t
      | ok result t =>
        obtain ⟨stack, effect⟩ := result
        cases effect with
        | next => exact lower_goAhead p { c with stack } frames t
        | store slot value => exact lower_goAhead p ({ c with stack }.store slot value) frames t
        | jump target => exact ⟨.goes [] { c with stack, place := target } t, rfl, fun _ => rfl⟩
        | leave target =>
          have left := leave_pending { c with stack } target
          cases came : Frame.leave { c with stack } target with
          | error cause =>
            refine ⟨.failed (.execution cause) t, trivial, fun pending => ?_⟩
            have failed := left pending
            rw [came] at failed
            simp only [perform, failed]
            rfl
          | ok g =>
            have own : g.activation = c.activation := by
              obtain ⟨active, rfl⟩ := Frame.leave_eq_ok came
              rfl
            refine ⟨.goes [] g t, own, fun pending => ?_⟩
            have goes := left pending
            rw [came] at goes
            simp only [perform, goes]
            rfl
        | exit value =>
          refine ⟨.ended (.returned value) t, fun void v same => ?_, fun _ => rfl⟩
          cases same
          exact exit_of_step void made
        | throw x => exact lower_unwind p x { c with stack } frames t
        | call target arguments dynamic =>
          exact lower_settleAttempt p { c with stack } frames (call p (frames.length + 1) target arguments dynamic) t
        | construct target arguments =>
          exact lower_settleAttempt p { c with stack } frames (AspectWeaving.construct p (frames.length + 1) target arguments) t

/-- A body comes to an outcome, unless its run fails or goes on for as many instructions as one likes. -/
theorem Program.ends_or_goes_on (p : Program) (frames : List Frame) (above : List Frame) (c : Frame) (s : Machine) (count : Nat) :
    (∃ o t, p.EndsWith frames above c s o t) ∨
      (∃ fault t, ∀ pending, ∃ visits, p.Leads (.above above { c with pending } frames s) visits (.error fault t)) ∨
        ∃ (above' : List Frame) (c' : Frame) (t : Machine), ∀ pending, ∃ visits, visits.length = count ∧
          p.Leads (.above above { c with pending } frames s) visits (.above above' { c' with pending } frames t) := by
  induction count generalizing above c s with
  | zero => exact .inr (.inr ⟨above, c, s, fun pending => ⟨[], rfl, .stay _⟩⟩)
  | succ count ih =>
    obtain ⟨lower, -, same⟩ := p.next_above above c frames s
    have first : ∀ pending, ∃ v, p.Leads (.above above { c with pending } frames s) [v] (lower.stage p frames pending) := fun pending => by
      obtain ⟨v, leads, -⟩ := p.leads_next above { c with pending } frames s
      exact ⟨v, same pending ▸ leads⟩
    cases lower with
    | ended o t => exact .inl ⟨o, t, .ended same⟩
    | failed fault t =>
      refine .inr (.inl ⟨fault, t, fun pending => ?_⟩)
      obtain ⟨v, leads⟩ := first pending
      exact ⟨[v], leads⟩
    | goes above' c' t =>
      rcases ih above' c' t with ⟨o, u, ends⟩ | ⟨fault, u, fails⟩ | ⟨above'', c'', u, onward⟩
      · exact .inl ⟨o, u, .goes same ends⟩
      · refine .inr (.inl ⟨fault, u, fun pending => ?_⟩)
        obtain ⟨v, leads⟩ := first pending
        obtain ⟨visits, further⟩ := fails pending
        exact ⟨v :: visits, leads.trans further⟩
      · refine .inr (.inr ⟨above'', c'', u, fun pending => ?_⟩)
        obtain ⟨v, leads⟩ := first pending
        obtain ⟨visits, length, further⟩ := onward pending
        exact ⟨v :: visits, congrArg (· + 1) length, leads.trans further⟩

end Waiting

end AspectWeaving

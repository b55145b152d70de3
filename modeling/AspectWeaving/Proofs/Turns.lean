import AspectWeaving.Proofs.Catching
import AspectWeaving.Proofs.CompactSteps

/-!
Turns. What an instruction of the top frame comes to (`Turn`), and what one comes to that is executed above a
frame (`Over`): the frame that is called by the other one goes on, or it has a result, or an exception gets to
the frame below. Where an instruction has an effect, it tells which (`store_of_step`, `call_of_step`).
-/
namespace AspectWeaving

open Running (compute)

variable {p : Program} {f g c top : Frame} {cs callers above : List Frame} {s : Machine} {i : Instruction} {x : HeapRef}

/-- What an instruction of the top frame comes to. -/
inductive Turn (p : Program) (f : Frame) (cs : List Frame) (s : Machine) (i : Instruction) : Stage → Prop
  | failed (fault : Fault) (t : Machine) : Turn p f cs s i (.error fault t)
  | next {stack : List Value} {t : Machine}
      (stepped : step p.module f i { s with executed := s.executed + 1 } = .ok (stack, .next) t) :
      Turn p f cs s i (goAhead { f with stack } cs t)
  | store {stack : List Value} {slot : Nat} {value : Value} {t : Machine}
      (stepped : step p.module f i { s with executed := s.executed + 1 } = .ok (stack, .store slot value) t) :
      Turn p f cs s i (goAhead ({ f with stack }.store slot value) cs t)
  | jump {stack : List Value} {active : List ActiveClause} {target : Handle} {t : Machine} (leads : i.target? = some target) :
      Turn p f cs s i (.ok (.running { f with place := target, stack, active } cs) t)
  | exit {value : Value} {t : Machine} (exits : i.opcode.action = .exit) :
      Turn p f cs s i (settleAttempt p.module cs (complete p cs.length f.pending (.returned value)) t)
  | call {stack : List Value} {target : Token} {arguments : List Value} {dynamic : Bool} {progress : Progress} {t u : Machine}
      (stepped : step p.module f i { s with executed := s.executed + 1 } = .ok (stack, .call target arguments dynamic) t)
      (came : call p (cs.length + 1) target arguments dynamic t = .ok progress u) :
      Turn p f cs s i (settle p.module ({ f with stack } :: cs) progress u)
  | construct {stack : List Value} {progress : Progress} {u : Machine} (constructs : i.opcode.action = .construct) :
      Turn p f cs s i (settle p.module ({ f with stack } :: cs) progress u)
  | throw {stack : List Value} {x : HeapRef} {t : Machine} :
      Turn p f cs s i (unwind p.module x ({ f with stack } :: cs) t)

theorem Program.turn (p : Program) (cs : List Frame) (found : f.activation.body.code.get? f.place = some i) (s : Machine) :
    Turn p f cs s i (p.after f cs s) := by
  rw [after_eq p cs found]
  -- A fault that the program sees is an exception.
  have raises : ∀ fault stack t, Turn p f cs s i (raise p.module fault ({ f with stack } :: cs) t) := by
    intro fault stack t
    rcases raise_cases p.module fault ({ f with stack } :: cs) t with ⟨u, ended⟩ | ⟨x, u, raised, -⟩
    · rw [ended]
      exact .failed _ _
    · rw [raised]
      exact .throw
  split
  · rename_i stack effect t stepped
    have made := ensures_step p.module f i _ _ _ stepped
    cases effect with
    | next => exact .next stepped
    | store slot value => exact .store stepped
    | jump target => exact .jump made.1
    | leave target =>
      simp only [perform]
      cases left : Frame.leave { f with stack } target with
      | error cause => exact .failed _ _
      | ok g =>
        obtain ⟨active, rfl⟩ := Frame.leave_eq_ok left
        exact .jump made.1
    | exit value => exact .exit made
    | throw x => exact .throw
    | call target arguments dynamic =>
      simp only [perform, settleAttempt_eq]
      cases came : call p (cs.length + 1) target arguments dynamic t with
      | ok progress u => exact .call stepped came
      | error fault u => exact raises fault stack u
    | construct target arguments =>
      simp only [perform, settleAttempt_eq]
      cases AspectWeaving.construct p (cs.length + 1) target arguments t with
      | ok progress u => exact .construct made
      | error fault u => exact raises fault stack u
  · rename_i fault t failed
    exact raises fault f.stack t

/-- What an instruction comes to that is executed above a frame `g`, in a call that `g` made of `c` or in one
    that `c` made. -/
inductive Over (p : Program) (c g : Frame) (cs : List Frame) : Stage → Prop
  | failed (fault : Fault) (t : Machine) : Over p c g cs (.error fault t)
  | below {top : Frame} {callers : List Frame} (above : List Frame) {c' : Frame} {t : Machine}
      (whole : top :: callers = above ++ c' :: g :: cs) (pending : c'.pending = c.pending) :
      Over p c g cs (.ok (.running top callers) t)
  | exit {value : Value} {t : Machine} :
      Over p c g cs (settleAttempt p.module (g :: cs) (complete p (cs.length + 1) c.pending (.returned value)) t)
  | throw {x : HeapRef} {t : Machine} : Over p c g cs (unwind p.module x (g :: cs) t)

private theorem over_goAhead (pending : f.pending = c.pending) (t : Machine) : Over p c g cs (goAhead f (g :: cs) t) := by
  rcases Program.goAhead_cases f (g :: cs) t with ⟨fault, failed⟩ | ⟨place, -, goes⟩
  · rw [failed]
    exact .failed _ _
  · rw [goes]
    exact .below [] rfl pending

private theorem over_unwind (pending : f.pending = c.pending) (x : HeapRef) (t : Machine) :
    Over p c g cs (unwind p.module x (f :: g :: cs) t) := by
  rw [unwind_cons]
  split
  · rename_i handling caught
    obtain ⟨clause, index, active, -, rfl⟩ := Frame.catch?_eq_some caught
    exact .below [] rfl pending
  · exact .throw
  · exact .failed _ _

private theorem over_settle (pending : f.pending = c.pending) (progress : Progress) (t : Machine) :
    Over p c g cs (settle p.module (f :: g :: cs) progress t) := by
  cases progress with
  | enter callee => exact .below [callee] rfl pending
  | done outcome =>
    cases outcome with
    | threw x => exact over_unwind pending x t
    | returned value => exact over_goAhead ((f.beside_receive value).pending.trans pending) t

theorem Program.over (p : Program) (whole : top :: callers = above ++ c :: g :: cs) (s : Machine) :
    Over p c g cs (p.after top callers s) := by
  cases above with
  | nil =>
    obtain ⟨rfl, rfl⟩ := List.cons.inj whole
    cases found : top.activation.body.code.get? top.place with
    | none =>
      unfold Program.after
      rw [advance_of_missing found]
      exact .failed _ _
    | some i =>
      have turn := p.turn (g :: cs) found s
      generalize p.after top (g :: cs) s = r at turn
      cases turn with
      | failed fault t => exact .failed _ _
      | next => exact over_goAhead (by rfl) _
      | store => exact over_goAhead (by rfl) _
      | jump => exact .below [] rfl rfl
      | exit => exact .exit
      | call => exact over_settle (by rfl) _ _
      | construct => exact over_settle (by rfl) _ _
      | throw => exact over_unwind (by rfl) _ _
  | cons first rest =>
    obtain ⟨rfl, rfl⟩ := List.cons.inj whole
    have higher := p.after_above top rest c (g :: cs) s
    generalize p.after top (rest ++ c :: g :: cs) s = r at higher
    cases higher with
    | failed fault t => exact .failed _ _
    | below top between t => exact .below (top :: between) rfl rfl
    | returned value t => exact over_goAhead (c.beside_receive value).pending t
    | threw x t => exact over_unwind rfl x t

/-! ### Ends of a turn -/

/-- An instruction of a frame ends the run or raises an exception. -/
def Program.Faults (p : Program) (f : Frame) (cs : List Frame) (r : Stage) : Prop :=
  (∃ fault t, r = .error fault t) ∨ ∃ stack x t, r = unwind p.module x ({ f with stack } :: cs) t

theorem Program.faults_raise (p : Program) (f : Frame) (stack : List Value) (cs : List Frame) (fault : Fault) (t : Machine) :
    p.Faults f cs (raise p.module fault ({ f with stack } :: cs) t) := by
  rcases raise_cases p.module fault ({ f with stack } :: cs) t with ⟨u, ended⟩ | ⟨x, u, raised, -⟩
  · exact .inl ⟨fault, u, ended⟩
  · exact .inr ⟨stack, x, u, raised⟩

theorem machine_unwind (m : Module) (x : HeapRef) (frames : List Frame) (t : Machine) :
    Stage.machine (unwind m x frames t) = t := by
  induction frames with
  | nil => rfl
  | cons f frames ih =>
    rw [unwind_cons]
    split
    · rfl
    · exact ih
    · rfl

theorem machine_goAhead (f : Frame) (cs : List Frame) (t : Machine) : Stage.machine (goAhead f cs t) = t := by
  rcases Program.goAhead_cases f cs t with ⟨fault, failed⟩ | ⟨place, -, goes⟩
  · rw [failed]
    rfl
  · rw [goes]
    rfl

theorem machine_settle (m : Module) (frames : List Frame) (progress : Progress) (t : Machine) :
    Stage.machine (settle m frames progress t) = t := by
  cases progress with
  | enter callee => rfl
  | done outcome =>
    cases outcome with
    | threw x => exact machine_unwind m x frames t
    | returned value =>
      cases frames with
      | nil => rfl
      | cons f frames => exact machine_goAhead _ frames t

/-! ### Instructions with an effect -/

theorem call_of_step {m : Module} {i : Instruction} {stack arguments : List Value} {target : Token}
    {dynamic : Bool} (stepped : step m f i s = .ok (stack, .call target arguments dynamic) t) :
    ∃ shape, i.token? = some target ∧ m.callShape target = .ok shape ∧ shape.argumentCount ≤ f.stack.length ∧
      arguments = (f.stack.take shape.argumentCount).reverse ∧ (dynamic && (arguments.head?.map (·.isNull)).getD false) = false ∧ t = s := by
  have action : i.opcode.action = .call dynamic := ensures_step m f i _ _ _ stepped
  unfold step at stepped
  simp only [action] at stepped
  obtain ⟨called, u, required, stepped⟩ := Running.bind_eq_ok.mp stepped
  obtain ⟨shape, u', shaped, stepped⟩ := Running.bind_eq_ok.mp stepped
  obtain ⟨popped, u'', taken, stepped⟩ := Running.bind_eq_ok.mp stepped
  obtain ⟨token, rfl⟩ : i.token? = some called ∧ u = s := by
    unfold Instruction.requireToken at required
    cases token : i.token? <;> rw [token] at required <;> cases required
    exact ⟨rfl, rfl⟩
  obtain ⟨known, rfl⟩ : m.callShape called = .ok shape ∧ u' = u := by
    cases known : m.callShape called <;> rw [known] at shaped <;> cases shaped
    exact ⟨rfl, rfl⟩
  unfold popMany at taken
  by_cases enough : shape.argumentCount ≤ f.stack.length
  · rw [if_pos enough] at taken
    cases taken
    cases null : (dynamic && (((f.stack.take shape.argumentCount).reverse).head?.map (·.isNull)).getD false) with
    | true =>
      simp only [null] at stepped
      cases stepped
    | false =>
      simp only [null] at stepped
      cases stepped
      exact ⟨shape, token, known, enough, rfl, null, rfl⟩
  · rw [if_neg enough] at taken
    cases taken

theorem store_of_step {m : Module} {i : Instruction} {stack : List Value} {slot : Nat} {value : Value}
    (stepped : step m f i s = .ok (stack, .store slot value) t) : ∃ index, i.slot? = some index ∧ slot = index.toNat := by
  obtain ⟨fixed, action⟩ : ∃ fixed, i.opcode.action = .storeLocal fixed := ensures_step m f i _ _ _ stepped
  unfold step at stepped
  simp only [action] at stepped
  obtain ⟨index, u, required, stepped⟩ := Running.bind_eq_ok.mp stepped
  obtain ⟨popped, u', -, stepped⟩ := Running.bind_eq_ok.mp stepped
  obtain ⟨-, u'', -, stepped⟩ := Running.bind_eq_ok.mp stepped
  cases stepped
  cases used : i.slot? with
  | none =>
    rw [used] at required
    cases required
  | some index =>
    rw [used] at required
    cases required
    exact ⟨index, rfl, rfl⟩

end AspectWeaving

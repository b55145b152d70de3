import AspectWeaving.Proofs.Runs

/-!
What one instruction can do. The effect of an instruction fits its operation (`Instruction.Makes`), and
an instruction of a frame leaves the frames below alone until a call returns to them or an exception
gets to them (`Program.after_above`).
-/
namespace AspectWeaving

open Running (compute fail allocate note attempt)

/-! ### Computations -/

namespace Running

variable {α β : Type}

theorem bind_eq_ok {x : Running α} {f : α → Running β} {s u : Machine} {b : β} :
    (x >>= f) s = .ok b u ↔ ∃ a t, x s = .ok a t ∧ f a t = .ok b u := by
  simp only [bind, EStateM.bind]
  cases x s with
  | ok a t =>
    constructor
    · exact fun done => ⟨a, t, rfl, done⟩
    · rintro ⟨_, _, same, done⟩
      cases same
      exact done
  | error fault t => simp

theorem bind_of_ok {x : Running α} {f : α → Running β} {s t : Machine} {a : α} (done : x s = .ok a t) :
    (x >>= f) s = f a t := by
  change EStateM.bind x f s = _
  unfold EStateM.bind
  rw [done]

theorem compute_bind_of_ok {e : Except ExecutionFault α} {f : α → Running β} {s : Machine} {a : α} (done : e = .ok a) :
    (compute e >>= f) s = f a s := by
  subst done
  rfl

theorem compute_bind_of_error {e : Except ExecutionFault α} {f : α → Running β} {s : Machine} {cause : ExecutionFault}
    (failed : e = .error cause) : (compute e >>= f) s = .error (.execution cause) s := by
  subst failed
  rfl

/-- What a computation gives has a property. -/
def Ensures (x : Running α) (Q : α → Prop) : Prop := ∀ s a t, x s = .ok a t → Q a

theorem Ensures.pure {a : α} {Q : α → Prop} (holds : Q a) : Ensures (pure a) Q := by
  intro s b t done
  cases done
  exact holds

theorem Ensures.bind {x : Running α} {f : α → Running β} {P : α → Prop} {Q : β → Prop}
    (first : Ensures x P) (second : ∀ a, P a → Ensures (f a) Q) : Ensures (x >>= f) Q := by
  intro s b u done
  obtain ⟨a, t, start, rest⟩ := bind_eq_ok.mp done
  exact second a (first _ _ _ start) _ _ _ rest

theorem Ensures.always {x : Running α} : Ensures x fun _ => True := fun _ _ _ _ => trivial

theorem Ensures.fails {fault : Fault} {Q : α → Prop} : Ensures (throw fault : Running α) Q := by
  intro s b t done
  cases done

end Running

/-! ### Effects -/

/-- The effects that an instruction may have. -/
def Instruction.Makes (i : Instruction) : Effect → Prop
  | .next =>
    i.opcode.action ≠ .jump ∧ i.opcode.action ≠ .leave ∧ i.opcode.action ≠ .exit ∧
      i.opcode.action ≠ .throw ∧ i.opcode.action ≠ .rethrow ∧ (∀ d, i.opcode.action ≠ .call d) ∧
      i.opcode.action ≠ .construct
  | .store _ _ => ∃ fixed, i.opcode.action = .storeLocal fixed
  | .jump target =>
    i.target? = some target ∧
      (i.opcode.action = .jump ∨ (∃ truth, i.opcode.action = .jumpWhen truth) ∨
        ∃ relation, i.opcode.action = .jumpIf relation)
  | .leave target => i.target? = some target ∧ i.opcode.action = .leave
  | .exit _ => i.opcode.action = .exit
  | .throw _ => i.opcode.action = .throw ∨ i.opcode.action = .rethrow
  | .call _ _ dynamic => i.opcode.action = .call dynamic
  | .construct _ _ => i.opcode.action = .construct

open Running (Ensures)

theorem Instruction.ensures_branchTarget (i : Instruction) :
    Ensures i.branchTarget fun target => i.target? = some target := by
  unfold branchTarget
  split
  · rename_i target found
    exact Ensures.pure found
  · exact Ensures.fails

/-- The effect of an instruction is one that it may have. -/
theorem ensures_step (m : Module) (f : Frame) (i : Instruction) :
    Ensures (step m f i) fun result => i.Makes result.2 := by
  unfold step
  split <;> rename_i operation <;> dsimp only <;>
    repeat' first
      | exact Ensures.pure (by simp [Instruction.Makes, *])
      | exact Ensures.fails
      | refine Ensures.bind (Instruction.ensures_branchTarget i) fun _ target => ?_
      | refine Ensures.bind Ensures.always fun _ _ => ?_
      | split

/-! ### One instruction -/

variable {m : Module} {p : Program} {f g : Frame} {above callers cs : List Frame} {x : HeapRef} {s t : Machine}

/-- A fault that the program does not see ends the run, another one becomes an exception. -/
theorem raise_cases (m : Module) (fault : Fault) (frames : List Frame) (s : Machine) :
    (∃ t, raise m fault frames s = .error fault t) ∨
      ∃ x t, raise m fault frames s = unwind m x frames t ∧ (fault.exceptionName?).isSome ∧
        frames ≠ [] := by
  cases frames with
  | nil => exact .inl ⟨s, rfl⟩
  | cons f callers =>
    cases named : fault.exceptionName? with
    | none => exact .inl ⟨s, by simp only [raise, named]; rfl⟩
    | some typeName =>
      cases found : f.activation.body.code.get? f.place with
      | none => exact .inl ⟨s, by simp only [raise, named, found]; rfl⟩
      | some i => exact .inr ⟨s.heap.nextRef, _, by simp only [raise, named, found]; rfl, rfl, nofun⟩

theorem Program.mem_of_hostMethod?_or (p : Program) {token other : Token} {host : Token × HostMethod}
    (found : (p.hostMethod? token <|> p.hostMethod? other) = some host) : host ∈ p.hostMethods := by
  cases own : p.hostMethod? token with
  | none =>
    rw [own] at found
    exact List.mem_of_find?_eq_some found
  | some first =>
    rw [own] at found
    cases found
    exact List.mem_of_find?_eq_some own

theorem settleAttempt_eq (m : Module) (frames : List Frame) (call : Running Progress) (s : Machine) :
    settleAttempt m frames call s =
      match call s with
      | .ok progress t => settle m frames progress t
      | .error fault t => raise m fault frames t := by
  simp only [settleAttempt, bind, EStateM.bind, attempt]
  cases call s <;> rfl

theorem advance_eq {i : Instruction} (found : f.activation.body.code.get? f.place = some i) (s : Machine) :
    advance p f callers s =
      match step p.module f i s with
      | .ok (stack, effect) t => perform p { f with stack } callers effect t
      | .error fault t => raise p.module fault (f :: callers) t := by
  simp only [advance, Activation.fetch, found, compute, bind, EStateM.bind, attempt, pure, EStateM.pure]
  cases step p.module f i s <;> rfl

theorem advance_of_missing (missing : f.activation.body.code.get? f.place = none) (s : Machine) :
    advance p f callers s = .error (.execution .invalidBranchTarget) s := by
  simp only [advance, Activation.fetch, missing]
  rfl

theorem unwind_cons (m : Module) (x : HeapRef) (f : Frame) (callers : List Frame) (s : Machine) :
    unwind m x (f :: callers) s =
      match f.catch? m s.heap x with
      | .ok (some handling) => .ok (.running handling callers) s
      | .ok none => unwind m x callers s
      | .error fault => .error fault s := by
  rw [unwind]
  change EStateM.bind (ofExcept (f.catch? m s.heap x)) _ s = _
  cases f.catch? m s.heap x with
  | error fault => rfl
  | ok found => cases found <;> rfl

/-! ### Frames below -/

/-- What an instruction of a frame comes to that stands above a frame `g`: the run is over, `g` is still
    below, or it is the turn of `g` again. -/
inductive Above (m : Module) (g : Frame) (cs : List Frame) : Stage → Prop
  | failed (fault : Fault) (t : Machine) : Above m g cs (.error fault t)
  | below (top : Frame) (between : List Frame) (t : Machine) :
      Above m g cs (.ok (.running top (between ++ g :: cs)) t)
  | returned (value : Value) (t : Machine) : Above m g cs (goAhead (g.receive value) cs t)
  | threw (x : HeapRef) (t : Machine) : Above m g cs (unwind m x (g :: cs) t)

/-- What an instruction comes to above a frame, without the frame. -/
inductive Higher where
  | failed (fault : Fault) (t : Machine)
  | below (top : Frame) (between : List Frame) (t : Machine)
  | returned (value : Value) (t : Machine)
  | threw (x : HeapRef) (t : Machine)

/-- The stage that it is with a frame below. -/
def Higher.stage (m : Module) (g : Frame) (cs : List Frame) : Higher → Stage
  | .failed fault t => .error fault t
  | .below top between t => .ok (.running top (between ++ g :: cs)) t
  | .returned value t => goAhead (g.receive value) cs t
  | .threw x t => unwind m x (g :: cs) t

theorem Higher.isAbove (m : Module) (g : Frame) (cs : List Frame) (higher : Higher) : Above m g cs (higher.stage m g cs) := by
  cases higher with
  | failed fault t => exact .failed fault t
  | below top between t => exact .below top between t
  | returned value t => exact .returned value t
  | threw x t => exact .threw x t

theorem higher_unwind (m : Module) (x : HeapRef) (between : List Frame) (cs : List Frame) (s : Machine) :
    ∃ higher : Higher, ∀ g, unwind m x (between ++ g :: cs) s = higher.stage m g cs := by
  induction between with
  | nil => exact ⟨.threw x s, fun _ => rfl⟩
  | cons f between ih =>
    simp only [List.cons_append, unwind_cons]
    split
    · rename_i handling _
      exact ⟨.below handling between s, fun _ => rfl⟩
    · exact ih
    · rename_i fault _
      exact ⟨.failed fault s, fun _ => rfl⟩

theorem higher_goAhead (m : Module) (f : Frame) (between : List Frame) (cs : List Frame) (s : Machine) :
    ∃ higher : Higher, ∀ g, goAhead f (between ++ g :: cs) s = higher.stage m g cs := by
  simp only [goAhead]
  cases f.ahead with
  | ok next => exact ⟨.below next between s, fun _ => rfl⟩
  | error cause => exact ⟨.failed (.execution cause) s, fun _ => rfl⟩

theorem higher_settle (m : Module) (between : List Frame) (cs : List Frame) (progress : Progress) (s : Machine) :
    ∃ higher : Higher, ∀ g, settle m (between ++ g :: cs) progress s = higher.stage m g cs := by
  cases progress with
  | enter callee => exact ⟨.below callee between s, fun _ => rfl⟩
  | done outcome =>
    cases outcome with
    | threw x => exact higher_unwind m x between cs s
    | returned value =>
      cases between with
      | nil => exact ⟨.returned value s, fun _ => rfl⟩
      | cons f between => exact higher_goAhead m (f.receive value) between cs s

/-- Whether a fault is raised is decided by the instruction of the top frame, which may be the one below itself. -/
theorem higher_raise (m : Module) (fault : Fault) (between : List Frame) (g : Frame) (cs : List Frame) (s : Machine) :
    ∃ higher : Higher, ∀ pending, raise m fault (between ++ { g with pending } :: cs) s = higher.stage m { g with pending } cs := by
  cases named : fault.exceptionName? with
  | none =>
    refine ⟨.failed fault s, fun pending => ?_⟩
    cases between <;> (simp only [List.nil_append, List.cons_append, raise, named]; rfl)
  | some typeName =>
    obtain ⟨top, place, first⟩ : ∃ (a : Activation) (place : Handle), ∀ pending, ∃ f rest,
        between ++ { g with pending } :: cs = f :: rest ∧ f.activation = a ∧ f.place = place := by
      cases between with
      | nil => exact ⟨g.activation, g.place, fun pending => ⟨_, _, rfl, rfl, rfl⟩⟩
      | cons f rest => exact ⟨f.activation, f.place, fun pending => ⟨_, _, rfl, rfl, rfl⟩⟩
    cases found : top.body.code.get? place with
    | none =>
      refine ⟨.failed fault s, fun pending => ?_⟩
      obtain ⟨f, rest, whole, rfl, rfl⟩ := first pending
      rw [whole]
      simp only [raise, named, found]
      rfl
    | some i =>
      obtain ⟨higher, same⟩ := higher_unwind m s.heap.nextRef between cs
        { s with trace := s.trace.push (.raised i typeName), heap := s.heap.push (.exception typeName (some fault.message)) }
      refine ⟨higher, fun pending => ?_⟩
      rw [← same]
      obtain ⟨f, rest, whole, rfl, rfl⟩ := first pending
      rw [whole]
      simp only [raise, named, found]
      rfl

theorem higher_settleAttempt (m : Module) (between : List Frame) (g : Frame) (cs : List Frame) (call : Running Progress) (s : Machine) :
    ∃ higher : Higher, ∀ pending,
      settleAttempt m (between ++ { g with pending } :: cs) call s = higher.stage m { g with pending } cs := by
  simp only [settleAttempt_eq]
  cases call s with
  | ok progress t =>
    obtain ⟨higher, same⟩ := higher_settle m between cs progress t
    exact ⟨higher, fun pending => same _⟩
  | error fault t => exact higher_raise m fault between g cs t

/-- What an instruction of a frame does to those below it has nothing to do with what is to become of their outcomes. -/
theorem Program.after_higher (p : Program) (top : Frame) (between : List Frame) (g : Frame) (cs : List Frame) (s : Machine) :
    ∃ higher : Higher, ∀ pending,
      p.after top (between ++ { g with pending } :: cs) s = higher.stage p.module { g with pending } cs := by
  unfold Program.after
  cases found : top.activation.body.code.get? top.place with
  | none =>
    simp only [advance_of_missing found]
    exact ⟨.failed _ _, fun _ => rfl⟩
  | some i =>
    simp only [advance_eq found]
    cases step p.module top i { s with executed := s.executed + 1 } with
    | ok made t =>
      obtain ⟨stack, effect⟩ := made
      have depth : ∀ pending, (between ++ { g with pending } :: cs).length = (between ++ g :: cs).length := by simp
      cases effect with
      | next => exact (higher_goAhead p.module _ between cs t).imp fun _ same pending => same _
      | store slot value => exact (higher_goAhead p.module _ between cs t).imp fun _ same pending => same _
      | jump target => exact ⟨.below _ between t, fun _ => rfl⟩
      | leave target =>
        simp only [perform]
        cases Frame.leave { top with stack } target with
        | ok next => exact ⟨.below next between t, fun _ => rfl⟩
        | error cause => exact ⟨.failed (.execution cause) t, fun _ => rfl⟩
      | exit value =>
        simp only [perform, depth]
        exact higher_settleAttempt p.module between g cs _ t
      | throw x => exact (higher_unwind p.module x ({ top with stack } :: between) cs t).imp fun _ same pending => same _
      | call target arguments dynamic =>
        simp only [perform, depth]
        exact higher_settleAttempt p.module ({ top with stack } :: between) g cs _ t
      | construct target arguments =>
        simp only [perform, depth]
        exact higher_settleAttempt p.module ({ top with stack } :: between) g cs _ t
    | error fault t => exact higher_raise p.module fault (top :: between) g cs t

theorem above_settleAttempt (m : Module) (between : List Frame) (g : Frame) (cs : List Frame)
    (call : Running Progress) (s : Machine) : Above m g cs (settleAttempt m (between ++ g :: cs) call s) := by
  obtain ⟨higher, same⟩ := higher_settleAttempt m between g cs call s
  exact same g.pending ▸ higher.isAbove m g cs

/-- An instruction leaves the frames below its own alone, until a call returns to the next one or an
    exception gets there. -/
theorem Program.after_above (p : Program) (top : Frame) (between : List Frame) (g : Frame) (cs : List Frame)
    (s : Machine) : Above p.module g cs (p.after top (between ++ g :: cs) s) := by
  obtain ⟨higher, same⟩ := p.after_higher top between g cs s
  exact same g.pending ▸ higher.isAbove p.module g cs

end AspectWeaving

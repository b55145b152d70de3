import AspectWeaving.Proofs.CallOutcomes
import AspectWeaving.Proofs.Rethrows
import AspectWeaving.Proofs.Turns

/-!
Activations on their own. A frame goes on from one instruction to the next by what its body says, and by what the calls come to that
it makes (`Frame.Goes`). A call comes to what it comes to above some frames (`Program.Gives`), whatever these are. What an activation may
get to in this way (`Program.Attains`) covers what becomes of it in every run (`Program.Leads.attains`). Behind some of its instructions
it may be left to something else what becomes of a call: a machine that is not the one that the call leaves, or an exception.
-/
namespace AspectWeaving

/-! ### What calls give -/

/-- A call comes to an outcome above some bodies, at once or by the bodies that it enters one after another. A fault that the program sees
    is an exception. -/
inductive Program.Gives (p : Program) (frames : List Frame) : Running Progress → Machine → Outcome → Machine → Prop
  | done {call : Running Progress} {s t : Machine} {o : Outcome} (called : call s = .ok (.done o) t) : Gives p frames call s o t
  | faulted {call : Running Progress} {s t u : Machine} {fault : Fault} {name : String} (failed : call s = .error fault t)
      (seen : fault.exceptionName? = some name) (heap : u.heap = t.heap.push (.exception name (some fault.message))) :
      Gives p frames call s (.threw t.heap.nextRef) u
  | body {call : Running Progress} {c : Frame} {s t u v : Machine} {o o' : Outcome} (called : call s = .ok (.enter c) t)
      (ends : p.EndsWith frames [] c t o u) (rest : Gives p frames (complete p frames.length c.pending o) u o' v) :
      Gives p frames call s o' v

/-- The call that an effect is, above so many bodies. -/
def Effect.call? (p : Program) (depth : Nat) : Effect → Option (Running Progress)
  | .call target arguments dynamic => some (AspectWeaving.call p depth target arguments dynamic)
  | .construct target arguments => some (AspectWeaving.construct p depth target arguments)
  | _ => none

/-! ### Calls without a result -/

section Void

variable {m : Module} {p : Program} {above frames cs : List Frame} {c f : Frame} {s t : Machine} {o : Outcome} {x : HeapRef} {v : Value}
  {token : Token}

/-- What a body gives goes into the array that is made of objects when it is the last of them. -/
theorem heap_collected (p : Program) (frames : List Frame) (objects : Array Value) (v : Value) (t : Machine) :
    (Stage.machine (settleAttempt p.module frames (complete p frames.length [.collect objects []] (.returned v)) t)).heap =
      t.heap.push (.array (objects.push v)) := by
  rw [settleAttempt_eq]
  have came : complete p frames.length [.collect objects []] (.returned v) t =
      .ok (.done (.returned (.ref t.heap.nextRef))) { t with heap := t.heap.push (.array (objects.push v)) } := rfl
  rw [came]
  cases frames with
  | nil => rfl
  | cons f callers => exact congrArg Machine.heap (machine_goAhead _ _ _)

theorem Stage.exists_above (above : List Frame) (c : Frame) (frames : List Frame) (s : Machine) :
    ∃ top callers, Stage.above above c frames s = .ok (.running top callers) s ∧ top :: callers = above ++ c :: frames := by
  cases above with
  | nil => exact ⟨c, frames, rfl, rfl⟩
  | cons top rest => exact ⟨top, rest ++ c :: frames, rfl, rfl⟩

theorem below_done (m : Module) (frames : List Frame) (o : Outcome) (s : Machine) :
    Stage.Below frames.length (settle m frames (.done o) s) := by
  cases o with
  | threw x => exact below_unwind m x frames s
  | returned v =>
    cases frames with
    | nil => nofun
    | cons f callers =>
      intro top others t running
      change goAhead (f.receive v) callers s = _ at running
      unfold goAhead at running
      cases goes : (f.receive v).ahead <;> rw [goes] at running <;> cases running
      exact Nat.lt_succ_self _

/-- An instruction that ends a body of a method without a result gives none. -/
private theorem Program.void_of_ended (void : c.activation.returnsValue = false)
    (ends : ∀ pending, p.next (.above above { c with pending } frames s) =
      settleAttempt p.module frames (complete p frames.length pending (.returned v)) t) : v = .void := by
  obtain ⟨lower, own, same⟩ := p.next_above above c frames s
  -- What waits for the body shows on the heap what the body gives.
  have heaps : ∀ objects, (Stage.machine (lower.stage p frames [.collect objects []])).heap =
      t.heap.push (.array (objects.push v)) := by
    intro objects
    rw [← same, ends]
    exact heap_collected p frames objects v t
  have waits : ¬ ∀ pending, Stage.machine (lower.stage p frames pending) = Stage.machine (lower.stage p frames []) := by
    intro fixed
    have first := heaps #[]
    rw [fixed, ← fixed [.collect #[.null] []], heaps #[.null]] at first
    have last := (Array.push_eq_push.mp (congrArg Heap.objects first)).1
    simp at last
  cases lower with
  | failed fault u => exact absurd (fun _ => rfl) waits
  | goes above' c' u => exact absurd (fun _ => by cases above' <;> rfl) waits
  | ended o u =>
    cases o with
    | threw x =>
      refine absurd (fun pending => ?_) waits
      simp only [Lower.stage, settleAttempt_threw]
    | returned v' =>
      have given := heaps #[]
      have collected := heap_collected p frames #[] v' u
      rw [show Lower.stage p frames [.collect #[] []] (.ended (.returned v') u) =
        settleAttempt p.module frames (complete p frames.length [.collect #[] []] (.returned v')) u from rfl, collected] at given
      have objects := congrArg Heap.objects given
      obtain rfl : v' = v := by simpa [Heap.push] using (Array.push_eq_push.mp objects).1
      exact own void v' rfl

/-- An instruction that a body goes on behind leaves it in the activation that it is in. -/
private theorem Program.activation_of_goes {above' : List Frame} {c' : Frame}
    (onward : ∀ pending, p.next (.above above { c with pending } frames s) = .above above' { c' with pending } frames t) :
    c'.activation = c.activation := by
  obtain ⟨lower, own, same⟩ := p.next_above above c frames s
  have here := (same []).symm.trans (onward [])
  obtain ⟨top, callers, running, whole⟩ := Stage.exists_above above' { c' with pending := [] } frames t
  rw [running] at here
  cases lower with
  | failed fault u => cases here
  | goes above'' c'' u =>
    obtain ⟨top', callers', running', whole'⟩ := Stage.exists_above above'' { c'' with pending := [] } frames u
    rw [show Lower.stage p frames [] (.goes above'' c'' u) = .ok (.running top' callers') u from running'] at here
    cases here
    have bodies := (List.append_inj' (whole.symm.trans whole') rfl).2
    obtain ⟨bare, -⟩ := List.cons.inj bodies
    have same : c'.activation = c''.activation := (Frame.mk.inj bare).1
    exact same.trans own
  | ended o u =>
    have lower := below_done p.module frames o u top callers t ((settleAttempt_eq ..).symm.trans here)
    have lengths := congrArg List.length whole
    simp only [List.length_cons, List.length_append] at lengths
    omega

/-- A body of a method without a result gives none. -/
theorem Program.EndsWith.void (ends : p.EndsWith frames above c s o t) (void : c.activation.returnsValue = false) :
    ∀ v, o = .returned v → v = .void := by
  induction ends with
  | ended ends =>
    rintro v rfl
    exact p.void_of_ended void ends
  | goes onward _ ih => exact ih (p.activation_of_goes onward ▸ void)

/-- A virtual call of a method enters bodies of methods without a result only, and where it enters none it gives none. -/
structure Program.ReturnsVoid (p : Program) (token : Token) : Prop where
  body : ∀ {depth arguments s c t}, call p depth token arguments true s = .ok (.enter c) t →
    c.pending = [] ∧ c.activation.returnsValue = false
  done : ∀ {depth arguments s v t}, call p depth token arguments true s = .ok (.done (.returned v)) t → v = .void

/-- A method without a result gives nothing. -/
theorem Program.ReturnsVoid.gives {arguments : List Value} (void : p.ReturnsVoid token)
    (gives : p.Gives frames (call p frames.length token arguments true) s (.returned v) t) : v = .void := by
  cases gives with
  | done called => exact void.done called
  | body called ends rest =>
    obtain ⟨none, returns⟩ := void.body called
    rw [none] at rest
    cases rest with
    | body called => cases called
    | done called =>
      cases called
      exact ends.void returns v rfl

/-- Nothing is given by a method whose calls are answered by host methods without a result. -/
theorem Program.returnsVoid_of_hosts
    (silent : ∀ host ∈ p.hostMethods, ∀ {arguments h v h'}, host.2 arguments h = .ok (.returned v) h' → v = .void)
    (hosted : (p.hostMethod? token).isSome) : p.ReturnsVoid token := by
  have answers : ∀ {depth arguments s progress t}, call p depth token arguments true s = .ok progress t →
      ∃ o, progress = .done o ∧ ∀ v, o = .returned v → v = .void := by
    intro depth arguments s progress t called
    obtain ⟨h, u, read, called⟩ := Running.bind_eq_ok.mp called
    obtain ⟨target, u', resolved, called⟩ := Running.bind_eq_ok.mp called
    obtain ⟨host, found⟩ : ∃ host, (p.hostMethod? target <|> p.hostMethod? token) = some host := by
      cases own : p.hostMethod? target with
      | some host => exact ⟨host, rfl⟩
      | none => exact Option.isSome_iff_exists.mp hosted
    simp only [found] at called
    obtain ⟨o, u'', answered, called⟩ := Running.bind_eq_ok.mp called
    cases called
    refine ⟨o, rfl, ?_⟩
    rintro v rfl
    unfold Running.callHost at answered
    cases gave : host.2 arguments u'.heap with
    | ok o h' =>
      rw [gave] at answered
      cases answered
      exact silent host (p.mem_of_hostMethod?_or found) gave
    | error fault h' =>
      rw [gave] at answered
      cases answered
  constructor
  · intro depth arguments s c t called
    obtain ⟨o, same, -⟩ := answers called
    cases same
  · intro depth arguments s v t called
    obtain ⟨o, same, void⟩ := answers called
    cases same
    exact void v rfl

end Void

/-! ### What a frame may come to -/

namespace Frame

/-- The instruction of a frame has an effect, and leaves a stack behind. -/
def Makes (p : Program) (f : Frame) (s : Machine) (stack : List Value) (e : Effect) (t : Machine) : Prop :=
  ∃ i, f.activation.body.code.get? f.place = some i ∧ step p.module f i s.counted = .ok (stack, e) t

/-- The instruction of a frame makes a call, and `g` is the frame with what is left of its stack. -/
def Suspends (p : Program) (f : Frame) (s : Machine) (g : Frame) : Prop :=
  ∃ stack e t depth call, f.Makes p s stack e t ∧ e.call? p depth = some call ∧ g = { f with stack }

/-- The call that the instruction of a frame makes comes to an outcome. -/
def Calls (p : Program) (f : Frame) (s : Machine) (g : Frame) (o : Outcome) (t : Machine) : Prop :=
  ∃ stack e u frames call, f.Makes p s stack e u ∧ e.call? p frames.length = some call ∧ p.Gives frames call u o t ∧ g = { f with stack }

/-- The call that the instruction of a frame makes gives a value, and the frame goes on with it. -/
def Resumes (p : Program) (f : Frame) (s : Machine) (h : Frame) (t : Machine) : Prop :=
  ∃ g v, f.Calls p s g (.returned v) t ∧ (g.receive v).ahead = .ok h

/-- An exception gets to a frame at its instruction: one that is thrown there, one that a fault becomes, or one that a call comes to. -/
inductive Raises (p : Program) (f : Frame) (s : Machine) : HeapRef → Machine → Prop
  | thrown {stack : List Value} {x : HeapRef} {t : Machine} (made : f.Makes p s stack (.throw x) t) : Raises p f s x t
  | faulted {i : Instruction} {fault : Fault} {name : String} {t u : Machine} (found : f.activation.body.code.get? f.place = some i)
      (failed : step p.module f i s.counted = .error fault t) (seen : fault.exceptionName? = some name)
      (heap : u.heap = t.heap.push (.exception name (some fault.message))) : Raises p f s t.heap.nextRef u
  | called {g : Frame} {x : HeapRef} {t : Machine} (calls : f.Calls p s g (.threw x) t) : Raises p f s x t

/-- A frame goes on to another instruction without an exception. -/
inductive Passes (p : Program) (f : Frame) (s : Machine) : Frame → Machine → Prop
  | next {stack : List Value} {g : Frame} {t : Machine} (made : f.Makes p s stack .next t) (ahead : { f with stack }.ahead = .ok g) :
      Passes p f s g t
  | store {stack : List Value} {slot : Nat} {value : Value} {g : Frame} {t : Machine} (made : f.Makes p s stack (.store slot value) t)
      (ahead : ({ f with stack }.store slot value).ahead = .ok g) : Passes p f s g t
  | jump {stack : List Value} {target : Handle} {t : Machine} (made : f.Makes p s stack (.jump target) t) :
      Passes p f s { f with stack, place := target } t
  | leave {stack : List Value} {target : Handle} {g : Frame} {t : Machine} (made : f.Makes p s stack (.leave target) t)
      (left : { f with stack }.leave target = .ok g) : Passes p f s g t
  | resumes {g : Frame} {t : Machine} (resumes : f.Resumes p s g t) : Passes p f s g t

/-- A frame goes on to another instruction, behind its own or where that leads, or in a clause that an exception enters. -/
inductive Goes (p : Program) (f : Frame) (s : Machine) : Frame → Machine → Prop
  | passes {g : Frame} {t : Machine} (passes : f.Passes p s g t) : Goes p f s g t
  | catches {g : Frame} {x : HeapRef} {t : Machine} (raises : f.Raises p s x t) (caught : f.catch? p.module t.heap x = .ok (some g)) :
      Goes p f s g t

end Frame

/-- An activation may get to a frame, from any machine that it starts in. Where calls are left `loose`, something else comes between
    them and what is behind them, which may change the machine or throw. -/
inductive Program.Attains (p : Program) (loose : Handle → Prop) (a : Activation) : Frame → Machine → Prop
  | starts {first : Handle} (starts : a.body.code.first? = some first) (pending : List Pending) (s : Machine) :
      Attains p loose a (.start a pending first) s
  | goes {f g : Frame} {s t : Machine} (before : Attains p loose a f s) (goes : f.Goes p s g t) : Attains p loose a g t
  | resumes {f g : Frame} {s t : Machine} (before : Attains p loose a f s) (left : loose f.place) (resumes : f.Resumes p s g t)
      (u : Machine) : Attains p loose a g u
  | catches {f g h : Frame} {s t u : Machine} {x : HeapRef} (before : Attains p loose a f s) (left : loose f.place)
      (resumes : f.Resumes p s g t) (caught : f.catch? p.module u.heap x = .ok (some h)) : Attains p loose a h u

/-- In a body without clauses an activation does not get on from an instruction that control does not pass. -/
theorem Program.Attains.eq_start {p : Program} {loose : Handle → Prop} {a : Activation} {first : Handle} {f : Frame} {s : Machine}
    (attains : p.Attains loose a f s) (starts : a.body.code.first? = some first) (none : a.body.handlers = [])
    (stuck : ∀ {pending s g t}, ¬ (Frame.start a pending first).Passes p s g t) : ∃ pending, f = .start a pending first := by
  have uncaught : ∀ {pending} {h : Heap} {x g}, (Frame.start a pending first).catch? p.module h x ≠ .ok (some g) := by
    intro pending h x g caught
    obtain ⟨c, index, active, among, -⟩ := Frame.catch?_eq_some caught
    rw [show (Frame.start a pending first).activation = a from rfl, none] at among
    cases among
  induction attains with
  | starts own pending s =>
    obtain rfl := Option.some.inj (starts.symm.trans own)
    exact ⟨pending, rfl⟩
  | goes _ goes ih =>
    obtain ⟨pending, rfl⟩ := ih
    cases goes with
    | passes passes => exact absurd passes stuck
    | catches _ caught => exact absurd caught uncaught
  | resumes _ _ resumes _ ih =>
    obtain ⟨pending, rfl⟩ := ih
    exact absurd (.resumes resumes) stuck
  | catches _ _ resumes _ ih =>
    obtain ⟨pending, rfl⟩ := ih
    exact absurd (.resumes resumes) stuck

/-! ### Runs -/

/-- How an activation with some frames below stands at a stage: it may get to the frame that it has, or has got to the one that waits,
    or it is over. -/
inductive Program.Stands (p : Program) (loose : Handle → Prop) (a : Activation) (cs : List Frame) : Stage → Prop
  | turn {f : Frame} {s : Machine} (attains : p.Attains loose a f s) : Stands p loose a cs (.ok (.running f cs) s)
  | waits {f g c : Frame} {above : List Frame} {s t : Machine} (attains : p.Attains loose a f s) (waits : f.Suspends p s g)
      (calls : ∀ {o u o' v}, p.EndsWith (g :: cs) above c t o u → p.Gives (g :: cs) (complete p (cs.length + 1) c.pending o) u o' v →
        f.Calls p s g o' v) :
      Stands p loose a cs (.above above c (g :: cs) t)
  | done {r : Stage} (below : r.Below cs.length) : Stands p loose a cs r

section Runs

variable {p : Program} {loose : Handle → Prop} {a : Activation} {cs : List Frame} {f g : Frame} {s t : Machine} {r r' : Stage} {visits : List Visit}

namespace Program.Stands

theorem failed (fault : Fault) (t : Machine) : p.Stands loose a cs (.error fault t) := .done (below_error _ fault t)

theorem unwind (attains : p.Attains loose a f s) {x : HeapRef} (raises : f.Raises p s x t) (stack : List Value) :
    p.Stands loose a cs (unwind p.module x ({ f with stack } :: cs) t) := by
  rw [unwind_cons]
  -- The stack of a frame has no say in what it catches, and is gone in a clause.
  have same : ({ f with stack } : Frame).catch? p.module t.heap x = f.catch? p.module t.heap x := rfl
  rw [same]
  cases caught : f.catch? p.module t.heap x with
  | error fault => exact failed _ _
  | ok found =>
    cases found with
    | none => exact .done (below_unwind _ _ _ _)
    | some handling => exact .turn (attains.goes (.catches raises caught))

theorem goAhead (attains : p.Attains loose a f s) (passes : ∀ {h}, g.ahead = .ok h → f.Passes p s h t) :
    p.Stands loose a cs (goAhead g cs t) := by
  unfold AspectWeaving.goAhead
  cases goes : g.ahead with
  | error cause => exact failed _ _
  | ok h => exact .turn (attains.goes (.passes (passes goes)))

/-- A call that a frame waits for, or what is left to do of one. -/
theorem settleAttempt (attains : p.Attains loose a f s) (waits : f.Suspends p s g) {call : Running Progress}
    (calls : ∀ {o v}, p.Gives (g :: cs) call t o v → f.Calls p s g o v) :
    p.Stands loose a cs (settleAttempt p.module (g :: cs) call t) := by
  obtain ⟨stack, -, -, -, -, -, -, rfl⟩ := id waits
  rw [settleAttempt_eq]
  cases came : call t with
  | error fault u =>
    dsimp only
    cases named : fault.exceptionName? with
    | none =>
      simp only [raise, named]
      exact failed fault u
    | some name =>
      cases found : f.activation.body.code.get? f.place with
      | none =>
        simp only [raise, named, found]
        exact failed fault u
      | some i =>
        simp only [raise, named, found]
        exact unwind attains (.called (calls (.faulted came named rfl))) stack
  | ok progress u =>
    cases progress with
    | enter c =>
      show p.Stands loose a cs (.above [] c ({ f with stack } :: cs) u)
      exact .waits attains waits fun ends gives => calls (.body came ends gives)
    | done outcome =>
      cases outcome with
      | threw x => exact unwind attains (.called (calls (.done came))) stack
      | returned v => exact goAhead attains fun ahead => .resumes ⟨_, v, calls (.done came), ahead⟩

/-- The turn of the frame itself. -/
theorem after_turn (attains : p.Attains loose a f s) (stays : ¬ f.Exits) : p.Stands loose a cs (p.after f cs s) := by
  cases found : f.activation.body.code.get? f.place with
  | none =>
    unfold Program.after
    rw [advance_of_missing found]
    exact failed _ _
  | some i =>
    rw [Program.after_eq p cs found]
    cases stepped : step p.module f i { s with executed := s.executed + 1 } with
    | error fault u =>
      dsimp only
      cases named : fault.exceptionName? with
      | none =>
        simp only [raise, named]
        exact failed fault u
      | some name =>
        simp only [raise, named, found]
        exact unwind attains (.faulted found stepped named rfl) f.stack
    | ok made u =>
      obtain ⟨stack, effect⟩ := made
      have makes : f.Makes p s stack effect u := ⟨i, found, stepped⟩
      have calls : ∀ {call : Running Progress}, effect.call? p (cs.length + 1) = some call →
          p.Stands loose a cs (AspectWeaving.settleAttempt p.module ({ f with stack } :: cs) call u) := by
        intro call called
        exact settleAttempt attains ⟨stack, effect, u, _, call, makes, called, rfl⟩ fun gives =>
          ⟨stack, effect, u, { f with stack } :: cs, call, makes, called, gives, rfl⟩
      cases effect with
      | next => exact goAhead attains (.next makes)
      | store slot value => exact goAhead attains (.store makes)
      | jump target => exact .turn (attains.goes (.passes (.jump makes)))
      | leave target =>
        simp only [perform]
        cases left : Frame.leave { f with stack } target with
        | error cause => exact failed _ _
        | ok g => exact .turn (attains.goes (.passes (.leave makes left)))
      | exit value => exact absurd ⟨i, found, ensures_step p.module f i _ _ _ stepped⟩ stays
      | throw x => exact unwind attains (.thrown makes) stack
      | call target arguments dynamic => exact calls rfl
      | construct target arguments => exact calls rfl

/-- The turn of a body that the frame waits for, or of one above that. -/
theorem after_waits {c : Frame} {above : List Frame} (attains : p.Attains loose a f s) (waits : f.Suspends p s g)
    (calls : ∀ {o u o' v}, p.EndsWith (g :: cs) above c t o u → p.Gives (g :: cs) (complete p (cs.length + 1) c.pending o) u o' v →
      f.Calls p s g o' v) :
    p.Stands loose a cs (p.next (.above above c (g :: cs) t)) := by
  obtain ⟨lower, -, same⟩ := p.next_above above c (g :: cs) t
  have here : p.next (.above above c (g :: cs) t) = lower.stage p (g :: cs) c.pending := same c.pending
  rw [here]
  cases lower with
  | failed fault u => exact failed fault u
  | goes above' c' u =>
    -- What waits for the body stays the same, whatever the frame says that the step gives.
    have onward : ∀ pending, p.next (.above above { c with pending } (g :: cs) t) =
        .above above' { { c' with pending := c.pending } with pending } (g :: cs) u := same
    exact .waits attains waits fun ends gives => calls (.goes onward ends) gives
  | ended o u => exact settleAttempt attains waits fun gives => calls (.ended same) gives

theorem after {callers : List Frame} (stands : p.Stands loose a cs (.ok (.running f callers) s)) (within : (p.visit f callers s).Within cs) :
    p.Stands loose a cs (p.after f callers s) := by
  obtain ⟨high, stays⟩ := within
  generalize stage : EStateM.Result.ok (Execution.running f callers) s = r at stands
  cases stands with
  | turn attains =>
    cases stage
    exact after_turn attains (stays rfl)
  | @waits f' g c above s' t attains waits calls =>
    have next : p.after f callers s = p.next (.above above c (g :: cs) t) := by rw [← stage]; rfl
    rw [next]
    exact after_waits attains waits calls
  | done below =>
    have lower := below f callers s stage.symm
    exact absurd (Nat.lt_of_le_of_lt high lower) (Nat.lt_irrefl _)

theorem run (stands : p.Stands loose a cs r) (leads : p.Leads r visits r') (within : ∀ v ∈ visits, v.Within cs) : p.Stands loose a cs r' := by
  induction leads with
  | stay => exact stands
  | step _ ih =>
    obtain ⟨here, later⟩ := List.forall_mem_cons.mp within
    exact ih (stands.after here) later

end Program.Stands

/-- In a run an activation has only frames that it may get to, and waits only in such. -/
theorem Program.Leads.attains {pending : List Pending} {first : Handle} {top : Frame} {callers above : List Frame}
    (leads : p.Leads (.entering a pending first cs s) visits (.ok (.running top callers) t)) (starts : a.body.code.first? = some first)
    (within : ∀ v ∈ visits, v.Within cs) (whole : top :: callers = above ++ f :: cs) :
    ∃ g u, p.Attains loose a g u ∧ (f = g ∨ g.Suspends p u f) := by
  have start : p.Stands loose a cs (.entering a pending first cs s) := .turn (.starts starts pending s)
  have stands := start.run leads within
  generalize stage : EStateM.Result.ok (Execution.running top callers) t = r at stands
  cases stands with
  | turn attains =>
    cases stage
    obtain ⟨rfl, -⟩ : f = _ ∧ above = [] := by
      have lengths := congrArg List.length whole
      obtain rfl : above = [] := by
        rw [← List.length_eq_zero_iff]
        simp only [List.length_cons, List.length_append] at lengths
        omega
      exact ⟨(List.cons.inj whole).1.symm, rfl⟩
    exact ⟨f, t, attains, .inl rfl⟩
  | @waits f' g c above' s' u attains waits calls =>
    have frames : top :: callers = (above' ++ [c]) ++ g :: cs := by
      cases above' with
      | nil =>
        cases stage
        rfl
      | cons first rest =>
        cases stage
        simp
    have same := List.append_inj' (whole.symm.trans frames) rfl
    exact ⟨f', s', attains, .inr ((List.cons.inj same.2).1 ▸ waits)⟩
  | done below =>
    have lower := below top callers t stage.symm
    have lengths := congrArg List.length whole
    simp only [List.length_cons, List.length_append] at lengths
    omega

end Runs

end AspectWeaving

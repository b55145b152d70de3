import AspectWeaving.Proofs.ActivationMoves

/-!
What is thrown again. Exceptions enter handlers of an activation, and control leaves these (`Program.Entered`). A frame knows all
that have been entered and not left, in order, but forgets a handler only at a leave or at another exception
(`entered_sublist_active`). So where code gets out of handlers by leaves and exceptions only, and in by exceptions only
(`Body.Confined`), the exception that entered the innermost one is thrown again, and none outside of all
(`rethrow_throws_entered`). Elsewhere an exception is thrown again that had been done with (`Sample.escape_rethrows`).
-/
namespace AspectWeaving

/-! ### Handlers that are entered -/

/-- The handlers of an activation that exceptions have entered and control has not left since, the last one first, with the
    exceptions. The activation has started with the frame `f₀` above `cs`, and its frame is `f` when the turn is that of `top`. -/
inductive Program.Entered (p : Program) (f₀ : Frame) (cs : List Frame) (s₀ : Machine) :
    Frame → List Frame → Machine → Frame → List ActiveClause → Prop
  | start : Entered p f₀ cs s₀ f₀ cs s₀ f₀ []
  | goes {top top' f g : Frame} {callers callers' above : List Frame} {s t : Machine} {entered : List ActiveClause}
      (before : Entered p f₀ cs s₀ top callers s f entered) (stays : callers.length = cs.length → ¬ top.Exits)
      (after : p.after top callers s = .ok (.running top' callers') t) (whole : top' :: callers' = above ++ g :: cs)
      (calm : p.thrown? top callers s = none ∨ above ≠ []) :
      Entered p f₀ cs s₀ top' callers' t g (entered.filter (f₀.activation.body.inHandler ·.index g.place))
  | enters {top f g : Frame} {callers : List Frame} {s t : Machine} {entered : List ActiveClause} {x : HeapRef} {index : Nat}
      (before : Entered p f₀ cs s₀ top callers s f entered) (stays : callers.length = cs.length → ¬ top.Exits)
      (after : p.after top callers s = .ok (.running g cs) t) (thrown : p.thrown? top callers s = some x)
      (clause : f.clauseFor? p.module t.heap x = some index) :
      Entered p f₀ cs s₀ g cs t g (⟨index, x⟩ :: entered.filter (f₀.activation.body.inHandler ·.index g.place))

/-- An activation above some frames is under way at an instruction, and not over with it. -/
def Visit.Within (v : Visit) (cs : List Frame) : Prop :=
  cs.length ≤ v.callers.length ∧ (v.callers.length = cs.length → ¬ v.frame.Exits)

section Handlers

variable {a : Activation} {n index : Nat} {h : Handle}

theorem Activation.handlesAt_eq (live : a.body.Live) (stands : a.body.code.order[n]? = some h) (index : Nat) :
    a.handlesAt n index = .ok (a.body.inHandler index h) := by
  unfold handlesAt Body.inHandler
  cases clause : a.body.handlers[index]? with
  | none => rfl
  | some c =>
    obtain ⟨-, handling, -, span⟩ := live (List.mem_of_getElem? clause)
    rw [Option.bind_some, span, Code.position?_eq_some_iff.mpr stands]
    exact regionHolds_eq span n

/-- The clauses that are still under way at an instruction are those whose handlers hold it. -/
theorem Frame.stillActive_eq (live : a.body.Live) (stands : a.body.code.order[n]? = some h) (active : List ActiveClause) :
    stillActive a n active = .ok (active.filter (a.body.inHandler ·.index h)) := by
  induction active with
  | nil => rfl
  | cons c rest ih =>
    rw [stillActive, Activation.handlesAt_eq live stands, ih, List.filter_cons]
    cases a.body.inHandler c.index h <;> rfl

end Handlers

/-! ### What a frame knows -/

section Knowledge

variable {p : Program} {f₀ top f g : Frame} {cs callers above : List Frame} {s₀ s : Machine} {entered active : List ActiveClause}
  {entry : Option ActiveClause}

/-- The frame of an activation is where it belongs, and knows the handlers that are entered. -/
structure Frame.Knows (f : Frame) (a : Activation) (entered : List ActiveClause) : Prop where
  activation : f.activation = a
  stands : ∃ n : Nat, a.body.code.order[n]? = some f.place
  inside : ∀ c ∈ entered, a.body.inHandler c.index f.place = true
  known : entered.Sublist f.active

theorem Body.Valid.stands_of_goesOn {b : Body} {h g : Handle} (valid : b.Valid) (onward : b.GoesOn h g) :
    ∃ n : Nat, b.code.order[n]? = some g := by
  obtain ⟨i, found, ⟨-, behind⟩ | ⟨-, leads⟩⟩ := onward
  · obtain ⟨n, -, there⟩ := Code.next?_eq_some_iff.mp behind
    exact ⟨_, there⟩
  · exact Code.exists_position ((valid.instruction found).target leads)

/-- A handler holds its first instruction. -/
theorem Body.Valid.starts_inside {b : Body} {index : Nat} {c : Handler} (valid : b.Valid) (clause : b.handlers[index]? = some c) :
    (∃ n : Nat, b.code.order[n]? = some c.handling.start) ∧ b.inHandler index c.handling.start = true := by
  obtain ⟨guarded, handling, encloses⟩ := valid.clause (List.mem_of_getElem? clause)
  have starts := (span?_eq_some_iff.mp encloses.handling_eq).1
  refine ⟨⟨_, starts⟩, ?_⟩
  unfold inHandler
  rw [clause, Option.bind_some, encloses.handling_eq, Code.position?_eq_some_iff.mpr starts]
  simp [Span.contains, encloses.handles]

/-- The handlers that are entered when an activation continues. -/
def enteredBy (b : Body) (entry : Option ActiveClause) (place : Handle) (entered : List ActiveClause) : List ActiveClause :=
  entry.toList ++ entered.filter (b.inHandler ·.index place)

theorem Frame.Knows.continue {a : Activation} (valid : a.body.Valid) (knows : f.Knows a entered) (continues : f.Continues entry g) :
    g.Knows a (enteredBy a.body entry g.place entered) := by
  obtain ⟨rfl, ⟨n, stands⟩, inside, known⟩ := knows
  have kept : ∀ c ∈ entered.filter (f.activation.body.inHandler ·.index g.place), f.activation.body.inHandler c.index g.place = true :=
    fun c member => (List.mem_filter.mp member).2
  cases continues with
  | waits beside =>
    refine ⟨beside.activation, ⟨n, beside.place ▸ stands⟩, kept, ?_⟩
    rw [beside.active]
    exact List.filter_sublist.trans known
  | goes activation active onward =>
    refine ⟨activation, valid.stands_of_goesOn onward, kept, ?_⟩
    rw [active]
    exact List.filter_sublist.trans known
  | leaves activation onward position still =>
    have there := Activation.position_eq_ok position
    rw [stillActive_eq valid.live there] at still
    refine ⟨activation, ⟨_, there⟩, kept, ?_⟩
    rw [← Except.ok.inj still]
    exact known.filter _
  | @enters _ m index c x active activation position still clause place entry =>
    rw [stillActive_eq valid.live (Activation.position_eq_ok position)] at still
    obtain ⟨there, own⟩ := valid.starts_inside clause
    rw [← place] at there own
    refine ⟨activation, there, List.forall_mem_cons.mpr ⟨own, kept⟩, ?_⟩
    rw [entry, ← Except.ok.inj still]
    have all : entered = entered.filter (f.activation.body.inHandler ·.index f.place) := (List.filter_eq_self.mpr inside).symm
    rw [all]
    exact (List.filter_sublist.trans (known.filter _)).cons_cons _

/-! ### Confined handlers -/

/-- Control gets out of the handlers of clauses by leaves and exceptions only, and into them by exceptions only. -/
structure Body.Confined (b : Body) : Prop where
  goes : ∀ {h g}, b.GoesOn h g → ∀ index, b.inHandler index g = b.inHandler index h
  leaves : ∀ {h g}, b.LeavesTo h g → ∀ index, b.inHandler index g = true → b.inHandler index h = true

theorem Body.inHandler_of_length_le {b : Body} {index : Nat} (outside : b.handlers.length ≤ index) (h : Handle) :
    b.inHandler index h = false := by
  unfold inHandler
  rw [List.getElem?_eq_none outside]
  rfl

/-- Whether handlers are confined is seen from the instructions, one by one. -/
theorem Body.confined_iff {b : Body} : b.Confined ↔ ∀ e ∈ b.code.entries, ∀ index < b.handlers.length,
    (e.2.opcode.fallsThrough = true → ∀ g ∈ b.code.next? e.1, b.inHandler index g = b.inHandler index e.1) ∧
    ∀ g ∈ e.2.target?, if e.2.opcode.action = .leave then b.inHandler index g = true → b.inHandler index e.1 = true
      else b.inHandler index g = b.inHandler index e.1 := by
  constructor
  · rintro ⟨goes, leaves⟩ ⟨h, i⟩ member index -
    obtain ⟨n, entry⟩ := List.mem_iff_getElem?.mp member
    have found := (Code.getElem?_entries_eq_some_iff.mp entry).2
    refine ⟨fun falls g behind => goes ⟨i, found, .inl ⟨falls, behind⟩⟩ index, fun g leads => ?_⟩
    split
    · rename_i leave
      exact leaves ⟨i, found, leave, leads⟩ index
    · rename_i other
      exact goes ⟨i, found, .inr ⟨other, leads⟩⟩ index
  · intro checked
    have entry : ∀ {h i}, b.code.get? h = some i → (h, i) ∈ b.code.entries := fun {h i} found => by
      obtain ⟨n, stands⟩ := Code.exists_position (Code.get?_isSome_iff.mp (Option.isSome_of_eq_some found))
      exact List.mem_of_getElem? (Code.getElem?_entries_eq_some_iff.mpr ⟨stands, found⟩)
    constructor
    · rintro h g ⟨i, found, onward⟩ index
      by_cases inside : index < b.handlers.length
      · obtain ⟨next, target⟩ := checked _ (entry found) index inside
        rcases onward with ⟨falls, behind⟩ | ⟨other, leads⟩
        · exact next falls g behind
        · simpa [other] using target g leads
      · rw [inHandler_of_length_le (by omega), inHandler_of_length_le (by omega)]
    · rintro h g ⟨i, found, leave, leads⟩ index there
      by_cases inside : index < b.handlers.length
      · have target := (checked _ (entry found) index inside).2 g leads
        simp only [leave, if_true] at target
        exact target there
      · rw [inHandler_of_length_le (by omega)] at there
        cases there

instance (b : Body) : Decidable b.Confined := decidable_of_iff' _ Body.confined_iff

/-- Of the handlers that a frame knows just those are entered that hold its instruction, and the last one does. -/
structure Frame.Minds (f : Frame) (a : Activation) (entered : List ActiveClause) : Prop extends Knows f a entered where
  exact : entered = f.active.filter (a.body.inHandler ·.index f.place)
  last : ∀ c ∈ f.active.head?, a.body.inHandler c.index f.place = true

theorem filter_inHandler {b : Body} {h g : Handle} (back : ∀ index, b.inHandler index g = true → b.inHandler index h = true)
    (active : List ActiveClause) :
    (active.filter (b.inHandler ·.index h)).filter (b.inHandler ·.index g) = active.filter (b.inHandler ·.index g) := by
  rw [List.filter_filter]
  refine List.filter_congr fun c _ => ?_
  cases there : b.inHandler c.index g with
  | false => rfl
  | true => exact back c.index there

theorem Frame.Minds.continue {a : Activation} (valid : a.body.Valid) (confined : a.body.Confined) (minds : f.Minds a entered)
    (continues : f.Continues entry g) : g.Minds a (enteredBy a.body entry g.place entered) := by
  refine ⟨minds.toKnows.continue valid continues, ?_, ?_⟩
  all_goals obtain ⟨⟨rfl, -, -, -⟩, exact, last⟩ := minds
  · unfold enteredBy
    rw [exact]
    cases continues with
    | waits beside =>
      rw [beside.active, beside.place]
      exact filter_inHandler (fun _ => id) _
    | goes activation active onward =>
      rw [active]
      exact filter_inHandler (fun index there => (confined.goes onward index).symm.trans there) _
    | leaves activation onward position still =>
      rw [stillActive_eq valid.live (Activation.position_eq_ok position)] at still
      rw [← Except.ok.inj still, filter_inHandler fun _ => id]
      exact filter_inHandler (confined.leaves onward) _
    | @enters _ _ index _ x _ activation position still clause place known =>
      rw [stillActive_eq valid.live (Activation.position_eq_ok position)] at still
      have own : f.activation.body.inHandler (ActiveClause.mk index x).index g.place = true := place ▸ (valid.starts_inside clause).2
      rw [known, ← Except.ok.inj still, List.filter_cons, if_pos own]
      rfl
  · cases continues with
    | waits beside => rwa [beside.active, beside.place]
    | goes activation active onward =>
      rw [active]
      exact fun c first => (confined.goes onward c.index).trans (last c first)
    | leaves activation onward position still =>
      rw [stillActive_eq valid.live (Activation.position_eq_ok position)] at still
      rw [← Except.ok.inj still]
      exact fun c first => (List.mem_filter.mp (List.mem_of_mem_head? first)).2
    | enters activation position still clause place known =>
      rw [known]
      rintro _ ⟨⟩
      exact place ▸ (valid.starts_inside clause).2

end Knowledge

/-! ### Runs -/

section Runs

variable {p : Program} {f₀ top f g : Frame} {cs callers above : List Frame} {s₀ s t : Machine} {entered : List ActiveClause} {r : Stage}
  {visits : List Visit}

theorem append_cons_inj {above above' cs : List Frame} {f g : Frame} (same : above ++ f :: cs = above' ++ g :: cs) :
    above = above' ∧ f = g := by
  have lengths : above.length = above'.length := by simpa using congrArg List.length same
  obtain ⟨first, second⟩ := List.append_inj same lengths
  exact ⟨first, (List.cons.inj second).1⟩

/-- What holds of the frame of an activation at the start, with no handler entered, and goes on to hold when the activation
    continues, holds whenever it is under way. It is then on top, or waits for a call. -/
theorem Program.Entered.carries {P : Frame → List ActiveClause → Prop} (first : P f₀ [])
    (next : ∀ {f g entered entry}, P f entered → f.Continues entry g → P g (enteredBy f₀.activation.body entry g.place entered))
    (entering : p.Entered f₀ cs s₀ top callers s f entered) :
    (∃ above, top :: callers = above ++ f :: cs ∧ (above ≠ [] → f.Falls)) ∧ P f entered := by
  have stays' : ∀ {above top callers f}, (callers.length = cs.length → ¬ top.Exits) → top :: callers = above ++ f :: cs → above = [] → ¬ f.Exits := by
    rintro _ top callers f stays whole rfl
    obtain ⟨rfl, rfl⟩ := List.cons.inj whole
    exact stays rfl
  induction entering with
  | start => exact ⟨⟨[], rfl, fun none => absurd rfl none⟩, first⟩
  | goes before stays after whole calm ih =>
    obtain ⟨⟨above₀, whole₀, falls⟩, holds⟩ := ih
    have lengths := congrArg List.length whole
    simp only [List.length_cons, List.length_append] at lengths
    cases p.continued whole₀ (stays' stays whole₀) falls after (by omega) with
    | goes _ whole' calm' continues falls' =>
      obtain ⟨rfl, rfl⟩ := append_cons_inj (whole.symm.trans whole')
      exact ⟨⟨_, whole, falls'⟩, next holds continues⟩
    | enters thrown clause continues =>
      obtain ⟨rfl, rfl⟩ := append_cons_inj ((List.nil_append _).trans whole)
      rcases calm with none | some
      · cases none.symm.trans thrown
      · exact absurd rfl some
  | enters before stays after thrown clause ih =>
    obtain ⟨⟨above₀, whole₀, falls⟩, holds⟩ := ih
    refine ⟨⟨[], rfl, fun none => absurd rfl none⟩, ?_⟩
    cases p.continued whole₀ (stays' stays whole₀) falls after (Nat.le_refl _) with
    | goes _ whole' calm' continues falls' =>
      obtain ⟨rfl, rfl⟩ := append_cons_inj ((List.nil_append _).trans whole')
      rcases calm' with none | some
      · cases none.symm.trans thrown
      · exact absurd rfl some
    | enters thrown' clause' continues =>
      obtain rfl := Option.some.inj (thrown.symm.trans thrown')
      obtain rfl := Option.some.inj (clause.symm.trans clause')
      exact next holds continues

/-- There are such handlers as long as an activation is under way. -/
theorem Program.Entered.exists_of_leads {top' : Frame} {callers' : List Frame} (entering : p.Entered f₀ cs s₀ top callers s f entered)
    (leads : p.Leads (.ok (.running top callers) s) visits (.ok (.running top' callers') t)) (within : ∀ v ∈ visits, v.Within cs)
    (alive : cs.length ≤ callers'.length) : ∃ f' entered', p.Entered f₀ cs s₀ top' callers' t f' entered' := by
  generalize start : EStateM.Result.ok (Execution.running top callers) s = r at leads
  generalize stop : EStateM.Result.ok (Execution.running top' callers') t = r' at leads
  induction leads generalizing top callers s f entered with
  | stay =>
    cases start
    cases stop
    exact ⟨f, entered, entering⟩
  | @step top₁ callers₁ s₁ visits r rest ih =>
    cases start
    obtain ⟨-, stays⟩ := within _ List.mem_cons_self
    have later : ∀ v ∈ visits, v.Within cs := fun v member => within v (List.mem_cons_of_mem _ member)
    obtain ⟨⟨above₀, whole₀, falls⟩, -⟩ := entering.carries (P := fun _ _ => True) trivial fun _ _ => trivial
    -- The execution goes on, to another instruction on the way or to the last one.
    obtain ⟨top₂, callers₂, t₂, after, alive₂⟩ : ∃ top₂ callers₂ t₂,
        p.after top₁ callers₁ s₁ = .ok (.running top₂ callers₂) t₂ ∧ cs.length ≤ callers₂.length := by
      generalize p.after top₁ callers₁ s₁ = r₁ at rest
      cases rest with
      | stay => exact ⟨_, _, _, stop.symm, alive⟩
      | step => exact ⟨_, _, _, rfl, (later _ List.mem_cons_self).1⟩
    have stays' : above₀ = [] → ¬ f.Exits := by
      rintro rfl
      obtain ⟨rfl, rfl⟩ := List.cons.inj whole₀
      exact stays rfl
    cases p.continued whole₀ stays' falls after alive₂ with
    | goes _ whole calm => exact ih (.goes entering stays after whole calm) later after.symm stop
    | enters thrown clause => exact ih (.enters entering stays after thrown clause) later after.symm stop

/-! ### Rethrows -/

variable {a : Activation} {pending : List Pending} {first : Handle} {i : Instruction}

/-- In the beginning no handler has been entered. -/
theorem Frame.minds_start (starts : a.body.code.first? = some first) : (Frame.start a pending first).Minds a [] where
  activation := rfl
  stands := ⟨0, starts⟩
  inside := nofun
  known := .slnil
  exact := rfl
  last := nofun

/-- In a valid body a frame knows all handlers that have been entered and not left, in order. -/
theorem entered_sublist_active (valid : a.body.Valid) (starts : a.body.code.first? = some first)
    (entering : p.Entered (.start a pending first) cs s₀ top callers s f entered) : entered.Sublist f.active :=
  (entering.carries (P := fun f entered => f.Knows a entered) (Frame.minds_start starts).toKnows
    fun knows continues => knows.continue valid continues).2.known

/-- The exception of the first of some handlers is thrown at a frame; without one there is a fault that no program sees. -/
def Program.rethrown (p : Program) (f : Frame) (cs : List Frame) (s : Machine) : List ActiveClause → Stage
  | c :: _ => unwind p.module c.exception (f :: cs) { s with executed := s.executed + 1 }
  | [] => .error (.execution .rethrowOutsideHandler) { s with executed := s.executed + 1 }

theorem Program.after_rethrow {active : List ActiveClause} (found : f.activation.body.code.get? f.place = some i)
    (rethrows : i.opcode.action = .rethrow) (known : f.active = active) (cs : List Frame) (s : Machine) :
    p.after f cs s = p.rethrown f cs s active := by
  rw [after_eq p cs found]
  cases active with
  | nil =>
    have stepped : ∀ t, step p.module f i t = .error (.execution .rethrowOutsideHandler) t := fun t => by
      simp only [step, rethrows, known]
      rfl
    rw [stepped]
    rfl
  | cons c rest =>
    have stepped : ∀ t, step p.module f i t = .ok (f.stack, .throw c.exception) t := fun t => by
      simp only [step, rethrows, known]
      rfl
    rw [stepped]
    rfl

/-- In a valid body with confined handlers, a rethrow throws the exception again that entered the innermost of the handlers that
    have been entered and not left, which all hold it, and fails if there is none. -/
theorem rethrow_throws_entered (valid : a.body.validate = .ok ()) (confined : a.body.Confined) (starts : a.body.code.first? = some first)
    (reached : p.Leads (.ok (.running (.start a pending first) cs) s₀) visits (.ok (.running f cs) s)) (within : ∀ v ∈ visits, v.Within cs)
    (found : f.activation.body.code.get? f.place = some i) (rethrows : i.opcode.action = .rethrow) :
    (∃ entered, p.Entered (.start a pending first) cs s₀ f cs s f entered) ∧
    ∀ entered, p.Entered (.start a pending first) cs s₀ f cs s f entered →
      (∀ c ∈ entered, a.body.inHandler c.index f.place = true) ∧ p.after f cs s = p.rethrown f cs s entered := by
  have valid := Body.validate_eq_ok_iff.mp valid
  have minded : ∀ {g entered}, p.Entered (.start a pending first) cs s₀ f cs s g entered → g = f ∧ f.Minds a entered := by
    intro g entered entering
    obtain ⟨⟨above, whole, -⟩, minds⟩ := entering.carries (P := fun f entered => f.Minds a entered) (Frame.minds_start starts)
      fun minds continues => minds.continue valid confined continues
    obtain ⟨-, rfl⟩ := append_cons_inj ((List.nil_append _).trans whole)
    exact ⟨rfl, minds⟩
  constructor
  · obtain ⟨g, entered, entering⟩ := Program.Entered.exists_of_leads .start reached within (Nat.le_refl _)
    obtain ⟨rfl, -⟩ := minded entering
    exact ⟨entered, entering⟩
  · intro entered entering
    obtain ⟨-, minds⟩ := minded entering
    refine ⟨minds.inside, ?_⟩
    rw [Program.after_rethrow found rethrows rfl, minds.exact]
    cases known : f.active with
    | nil => rfl
    | cons c rest =>
      rw [List.filter_cons, if_pos (minds.last c (by rw [known]; rfl))]
      rfl

end Runs

namespace Sample

/-- Code that throws nothing, which is an exception, and has a handler for it. -/
def failing (behind : List Instruction) (stop : Option Handle) : Body where
  code := .ofList (⟨.ldnull, .none⟩ :: ⟨.throw, .none⟩ :: ⟨.pop, .none⟩ :: behind)
  handlers := [{ guarded := ⟨⟨0⟩, some ⟨2⟩⟩, handling := ⟨⟨2⟩, stop⟩, catchType := none }]

/-- The execution of a body without arguments. -/
def activation (b : Body) : Activation := .ofMethod { echo with parameters := [], result := .void } b []

/-- The handler of this body throws again. -/
def again : Body := failing [⟨.rethrow, .none⟩] none

/-- The handler of this one jumps to where the exception is thrown again. -/
def escape : Body := failing [⟨.br, .target ⟨4⟩⟩, ⟨.rethrow, .none⟩] (some ⟨4⟩)

/-- The first instruction of a body, and what three of its instructions lead to. -/
def entered (b : Body) : Stage := .ok (.running (.start (activation b) [] ⟨0⟩) []) {}

/-- The stage of an execution without callers is at an instruction of an opcode. -/
def standsAt (opcode : Opcode) : Stage → Bool
  | .ok (.running f []) _ => (f.activation.body.code.get? f.place).any (·.opcode == opcode)
  | _ => false

/-- The object that an execution without callers has thrown. -/
def thrownIn? : Stage → Option HeapRef
  | .ok (.finished (.threw x)) _ => some x
  | _ => none

theorem exists_of_standsAt {opcode : Opcode} {r : Stage} (stands : standsAt opcode r = true) :
    ∃ f s i, r = .ok (.running f []) s ∧ f.activation.body.code.get? f.place = some i ∧ i.opcode = opcode := by
  unfold standsAt at stands
  split at stands
  · rename_i f s
    rw [Option.any_eq_true] at stands
    obtain ⟨i, found, same⟩ := stands
    exact ⟨f, s, i, rfl, found, beq_iff_eq.mp same⟩
  · cases stands

set_option maxRecDepth 100000 in
/-- The exception that has entered the handler is thrown again in it. -/
theorem again_rethrows :
    ∃ f s, ((program rows).trail 3 (entered again)).2 = .ok (.running f []) s ∧
      (∃ known, (program rows).Entered (.start (activation again) [] ⟨0⟩) [] {} f [] s f known) ∧
      ∀ known, (program rows).Entered (.start (activation again) [] ⟨0⟩) [] {} f [] s f known →
        (∀ c ∈ known, again.inHandler c.index f.place = true) ∧ (program rows).after f [] s = (program rows).rethrown f [] s known := by
  obtain ⟨_, valid⟩ := exists_ok (show again.validate.isOk = true by decide +kernel)
  obtain ⟨f, s, i, reached, found, rethrows⟩ :=
    exists_of_standsAt (show standsAt .rethrow ((program rows).trail 3 (entered again)).2 = true by decide +kernel)
  have leads := (program rows).leads_trail 3 (entered again)
  rw [reached] at leads
  have returns : ((program rows).trail 3 (entered again)).1.all fun v =>
      (v.frame.activation.body.code.get? v.frame.place).all (·.opcode.action ≠ .exit) := by decide +kernel
  have within : ∀ v ∈ ((program rows).trail 3 (entered again)).1, v.Within [] := fun v member => by
    refine ⟨Nat.zero_le _, fun _ => ?_⟩
    rintro ⟨j, there, exits⟩
    simpa [there, exits] using List.all_eq_true.mp returns v member
  have action : i.opcode.action = .rethrow := by rw [rethrows]; rfl
  exact ⟨f, s, reached, rethrow_throws_entered valid (by decide +kernel) (by decide +kernel) leads within found action⟩

set_option maxRecDepth 100000 in
/-- Outside of the handler, which control has left, the exception is thrown again that had entered it. -/
theorem escape_rethrows :
    escape.validate.isOk ∧ escape.inHandler 0 ⟨4⟩ = false ∧
      standsAt .rethrow ((program rows).trail 4 (entered escape)).2 ∧
      thrownIn? ((program rows).trail 5 (entered escape)).2 = some ⟨1⟩ := by
  decide +kernel

end Sample

end AspectWeaving

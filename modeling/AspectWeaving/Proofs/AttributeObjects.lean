import AspectWeaving.Proofs.Lookups
import AspectWeaving.Proofs.TandemRuns

/-!
Objects of attributes, wherever they are made. If an attribute becomes an object on a fresh machine, it does so on every
machine and below any frames, since the constructor does the same there: its run on the fresh machine is mirrored
(`Program.Constructs.collects`).
-/
namespace AspectWeaving

/-! ### Preliminaries -/

theorem HostMethod.Quiet.keeps {method : HostMethod} (quiet : HostMethod.Quiet method) : method.Keeps where
  ok done := by
    rw [quiet] at done
    cases done
    exact .refl _
  error done := by
    rw [quiet] at done
    cases done

theorem Program.Leads.keeps {p : Program} (spares : p.Spares) {r r' : Stage} {visits : List Visit} (leads : p.Leads r visits r') :
    r.machine.heap.Keeps r'.machine.heap := leads.heap Heap.allows_keeps spares.within

/-- A module is the same but for its bodies, which are the same as well. -/
theorem Module.Alters.refl {B : MethodDef → Body → Body → Prop} (same : ∀ d b, B d b b) (m : Module) : m.Alters B m where
  types := List.forall₂_same.mpr fun t _ => ⟨List.forall₂_same.mpr fun d _ =>
    ⟨by cases d.body with | none => exact .none | some b => exact .some (same d b), rfl⟩, rfl⟩
  rest := rfl

theorem Program.Twins.refl {q : Program} {limits : Limits} (quiet : ∀ host ∈ q.hostMethods, HostMethod.Quiet host.2) :
    Program.Twins (Decor.Bodies none) { q with limits } q where
  modules := .refl (fun _ _ => .inl rfl) q.module
  starts same first := by
    obtain rfl | ⟨δ, none, -⟩ := same
    · exact first
    · cases none
  hosts := rfl
  quiet := quiet

/-- A heap without objects is found in every heap. -/
theorem Heap.Mapped.empty (h : Heap) : Heap.Mapped [] {} h where
  size := rfl
  object takes := by cases takes.2
  nodup := List.nodup_nil

/-! ### Objects that are made -/

/-- A new object of a type has been made, and what has been there is as before. -/
structure Heap.Makes (h h' : Heap) (type : Token) (x : HeapRef) : Prop where
  kept : h'.Extends h
  made : h'.get? x = some (.instance type)
  new : h.get? x = none

/-- What happens on an empty heap happens on another one as well, apart from what is there. -/
theorem Machine.Shadows.makes {τ : HeapMap} {h : Heap} {t t' : Machine} {a x : HeapRef} {type : Token}
    (shadows : Machine.Shadows [] τ h t t') (takes : τ.Takes a x) (made : t'.heap.get? x = some (.instance type)) :
    t.heap.Makes t'.heap type x where
  kept found := (shadows.spares List.not_mem_nil found).2
  made := made
  new := by
    cases found : t.heap.get? x with
    | none => rfl
    | some o => exact absurd takes.mem (shadows.spares List.not_mem_nil found).1

/-- An attribute becomes an object on a fresh machine within some limits. -/
def Program.Constructs (p : Program) (own : Attribute) (limits : Limits) : Prop :=
  ∃ v t, Program.execute { p with limits } (instantiate { p with limits } 0 own) {} = .ok (.returned v) t

section Constructs

variable {q : Program} {own : Attribute} {limits : Limits} {f : Frame} {cs : List Frame} {t : Machine}

/-- An attribute without arguments becomes an object if there is no constructor to call. -/
theorem Program.Constructs.of_no_constructor (arguments : own.arguments = [])
    (none : ∀ d ∈ ((q.module.typeDef? own.type).map (·.methods)).getD [], d.isConstructor = false) : q.Constructs own limits := by
  have found : (((q.module.typeDef? own.type).map (·.methods)).getD []).find?
      (fun d => d.isConstructor && d.parameters.length == 0) = .none :=
    List.find?_eq_none.mpr fun d member => by simp [none d member]
  refine ⟨.ref ⟨1⟩, { heap := Heap.push {} (.instance own.type) },
    Program.execute_eq_ok_iff.mpr ⟨.finished (.returned (.ref ⟨1⟩)), _, [], ?_, .stay _, Nat.zero_le _⟩⟩
  unfold Program.start instantiate
  simp only [arguments, List.mapM_nil, pure_bind, List.length_nil, found]
  rfl

/-- An attribute has been looked up: it has become the one object of an array, which a frame goes on with. -/
def Program.Obtains (q : Program) (own : Attribute) (f : Frame) (cs : List Frame) (t : Machine) (r : Stage) : Prop :=
  ∃ visits r' x t', q.Leads r visits (goAhead (f.receive (.ref r')) cs t') ∧ (∀ v ∈ visits, cs.length < v.callers.length) ∧
    t.heap.Makes t'.heap own.type x ∧ t'.heap.get? r' = some (.array #[.ref x]) ∧ t.heap.get? r' = none

theorem Program.Obtains.of_made {x : HeapRef} (t' : Machine) (makes : t.heap.Makes t'.heap own.type x) (visits : List Visit) {r : Stage}
    (leads : q.Leads r visits
      (goAhead (f.receive (.ref t'.heap.nextRef)) cs { t' with heap := t'.heap.push (.array #[.ref x]) }))
    (above : ∀ v ∈ visits, cs.length < v.callers.length) : q.Obtains own f cs t r := by
  refine ⟨visits, _, x, _, leads, above, ⟨fun found => Heap.get?_push (makes.kept found) _, Heap.get?_push makes.made _, makes.new⟩,
    t'.heap.get?_nextRef _, ?_⟩
  cases found : t.heap.get? t'.heap.nextRef with
  | none => rfl
  | some o =>
    have there := makes.kept found
    rw [Heap.get?_nextRef_eq_none] at there
    cases there

/-- A constructor that runs on a new object does below other frames what it does on a fresh machine, and then the object is collected. -/
theorem Program.Obtains.of_entered {σ : HeapMap} {d d' : MethodDef} {body : Body} {vs ws : List Value} {first : Handle} {x x' : HeapRef}
    {s t₀ final : Machine} {v : Value} {visits : List Visit} (quiet : ∀ host ∈ q.hostMethods, HostMethod.Quiet host.2)
    (room : limits.callDepth + (cs.length + 1) ≤ q.limits.callDepth) (fits : 0 < limits.callDepth)
    (shadows : Machine.Shadows [] σ s.heap t t₀) (takes : σ.Takes x x') (made : t₀.heap.get? x' = some (.instance own.type))
    (method : d.Alters (Decor.Bodies none) d') (arguments : List.Forall₂ (Value.Mapped σ) vs ws)
    (leads : Program.Leads { q with limits } (.ok (.running (.start (.ofMethod d body vs) [.construct x] first) []) s) visits
      (.ok (.finished (.returned v)) final)) :
    q.Obtains own f cs t (.ok (.running (.start (.ofMethod d' body ws) [.construct x', .collect #[] []] first) (f :: cs)) t₀) := by
  have spares : q.Spares := fun host member => (quiet host member).keeps
  let T : Tandem :=
    { left := { q with limits }, right := q, decor? := none, base := f :: cs,
      ends := ([.construct x], [.construct x', .collect #[] []]), bottom := .same }
  have sound : T.Sound := ⟨.refl quiet, nofun, nofun, room⟩
  have frames : T.Mirrors σ t₀.heap [.start (.ofMethod d body vs) [.construct x] first]
      (.start (.ofMethod d' body ws) [.construct x', .collect #[] []] first :: f :: cs) :=
    .last (Frame.start_mirrored method arguments ⟨rfl, rfl⟩)
  cases sound.run frames shadows.heap fits leads with
  | escapes threw => cases threw
  | @returns τ f' g' i s' t' front more visits' _ found ret onward leads' along frame =>
    rcases T.left.after_ret [] found ret s' with ⟨fault, u', failed⟩ | ⟨w, stack, returned⟩
    · rw [failed] at onward
      cases onward
    · obtain ⟨w', stack', -, returned'⟩ := returned.mapped frame.housed.values
      obtain ⟨j, there, alike⟩ := frame.housed.houses.instruction found
      rw [← frame.housed.place] at there
      have ret' : j.opcode = .ret := Opcode.action_eq_exit_iff.mp (alike.action.symm.trans (Opcode.action_eq_exit_iff.mpr ret))
      have after : q.after g' (f :: cs) t' = goAhead (f.receive (.ref t'.heap.nextRef)) cs
          { t'.counted with heap := t'.heap.push (.array #[.ref x']) } := by
        rw [q.after_returning _ there ret' returned', frame.ends.2, settleAttempt_eq]
        rfl
      have kept := leads'.keeps spares x' own.type made
      refine .of_made t'.counted ((shadows.trans along.shadows).makes (takes.mono along.shadows.grows) kept) _
        (after ▸ leads'.trans (q.leads_after g' (f :: cs) t')) fun v member => ?_
      rcases List.mem_append.mp member with inner | last
      · exact along.above v inner
      · obtain rfl := List.mem_singleton.mp last
        exact Nat.lt_succ_self _

/-- An attribute that becomes an object on a fresh machine becomes one below other frames as well, and is collected. -/
theorem Program.Constructs.collects (constructs : q.Constructs own limits) (quiet : ∀ host ∈ q.hostMethods, HostMethod.Quiet host.2)
    (distinct : q.module.Distinct) (room : limits.callDepth + (cs.length + 1) ≤ q.limits.callDepth) (f : Frame) (t : Machine) :
    q.Obtains own f cs t (settleAttempt q.module (f :: cs) (collect q (cs.length + 1) #[] [own]) t) := by
  obtain ⟨v, final, ended⟩ := constructs
  obtain ⟨e, u, visits, started, leads, -⟩ := Program.execute_eq_ok_iff.mp ended
  have twins : Program.Twins (Decor.Bodies none) { q with limits } q := .refl quiet
  have spares : q.Spares := fun host member => (quiet host member).keeps
  have deep : 0 < limits.callDepth → cs.length + 1 < q.limits.callDepth := by omega
  have empty : Heap.Mapped [] ({} : Heap) t.heap := .empty _
  have start := follows_instantiate (σ := []) twins deep own {} t empty
  obtain ⟨P, u₀, called, settled⟩ := Running.bind_eq_ok.mp started
  obtain ⟨x, -, made, outcome⟩ := instantiate_cases (p := { q with limits }) spares distinct called
  rw [called] at start
  generalize there : instantiate q (cs.length + 1) own t = r at start
  obtain @⟨τ, a, b, s₀, t₀, tracks, progress⟩ | - | - := start
  -- The object is at a place of its own on the other machine.
  have keeps : ∀ {x'}, τ.Takes x x' → t₀.heap.get? x' = some (.instance own.type) := by
    intro x' takes
    obtain ⟨o, o', here, there, same⟩ := tracks.heap.object takes
    obtain rfl : o = .instance own.type := Option.some.inj (here.symm.trans made)
    cases same
    exact there
  rcases outcome with ⟨y, rfl⟩ | rfl | ⟨f₀, rfl, pending⟩
  · cases settled
    cases leads
  · obtain @⟨-, -, @⟨-, w, value⟩⟩ := progress
    obtain ⟨x', rfl, takes⟩ := value.of_ref
    refine .of_made t₀ (tracks.toShadows.makes takes (keeps takes)) [] ?_ nofun
    have whole : collect q (cs.length + 1) #[] [own] t =
        .ok (.result (.ref t₀.heap.nextRef)) { t₀ with heap := t₀.heap.push (.array #[.ref x']) } :=
      (Running.bind_of_ok there).trans rfl
    rw [settleAttempt_eq, whole]
    exact .stay _
  · cases progress with | enter enters fits =>
    obtain @⟨d, d', body, body', vs, ws, rest, rest', first, first', method, bodies, arguments, -, starts, starts', both⟩ := enters
    obtain rfl : body' = body := by
      obtain same | ⟨δ, none, -⟩ := bodies
      · exact same
      · cases none
    obtain rfl : first = first' := Option.some.inj (starts.symm.trans starts')
    obtain rfl : rest = [.construct x] := pending
    obtain ⟨_, _, same, none, rfl⟩ := List.forall₂_cons_left_iff.mp both
    obtain ⟨x', rfl, takes⟩ := same.of_construct
    cases none
    cases settled
    have whole : collect q (cs.length + 1) #[] [own] t =
        .ok (.enter (.start (.ofMethod d' body' ws) [.construct x', .collect #[] []] first)) t₀ :=
      (Running.bind_of_ok there).trans rfl
    rw [settleAttempt_eq, whole]
    exact .of_entered quiet room fits tracks.toShadows takes (keeps takes) method arguments leads

end Constructs

end AspectWeaving

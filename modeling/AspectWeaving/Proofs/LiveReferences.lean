import AspectWeaving.Proofs.Instances
import AspectWeaving.Proofs.Requests

/-!
References that are live. No object is ever taken away, and an object stays of its kind and size (`Heap.Evolves`). So where the host
deals only with references that lead to objects (`HostMethod.Careful`), every reference leads to one at all times, in
the frames under execution as well as in the objects, and no request fails for a reference that does not
(`references_stay_live`).
-/
namespace AspectWeaving

open Running (Obeys)

/-! ### Heaps -/

/-- The number of elements, of an array. -/
def HeapObject.length? : HeapObject → Option Nat
  | .array elements => some elements.size
  | _ => none

theorem HeapObject.Becomes.kind_eq {o o' : HeapObject} (becomes : o.Becomes o') : o'.kind = o.kind := by
  cases becomes <;> rfl

theorem HeapObject.Becomes.length?_eq {o o' : HeapObject} (becomes : o.Becomes o') : o'.length? = o.length? := by
  cases becomes with
  | elements size => exact congrArg some size
  | _ => rfl

namespace Heap

/-- A later heap has the objects of an earlier one, of the same kinds and sizes. -/
def Evolves (h h' : Heap) : Prop :=
  ∀ r o, h.get? r = some o → ∃ o', h'.get? r = some o' ∧ o'.kind = o.kind ∧ o'.length? = o.length?

variable {h h' h'' : Heap} {r : HeapRef} {v : Value}

theorem Evolves.refl (h : Heap) : h.Evolves h := fun _ o found => ⟨o, found, rfl, rfl⟩

theorem Evolves.trans (first : h.Evolves h') (second : h'.Evolves h'') : h.Evolves h'' := by
  intro r o found
  obtain ⟨o', found', kind, length⟩ := first r o found
  obtain ⟨o'', found'', kind', length'⟩ := second r o' found'
  exact ⟨o'', found'', kind'.trans kind, length'.trans length⟩

theorem Has.mono (evolves : h.Evolves h') (has : h.Has v) : h'.Has v := by
  intro r refers
  obtain ⟨o, found⟩ := Option.isSome_iff_exists.mp (has r refers)
  obtain ⟨o', found', -⟩ := evolves r o found
  exact Option.isSome_iff_exists.mpr ⟨o', found'⟩

theorem evolves_push (h : Heap) (o : HeapObject) : h.Evolves (h.push o) := fun _ o' found => ⟨o', get?_push found o, rfl, rfl⟩

theorem has_nextRef (h : Heap) (o : HeapObject) : (h.push o).Has (.ref h.nextRef) := by
  intro r refers
  obtain rfl : h.nextRef = r := Option.some.inj refers
  rw [get?_nextRef]
  rfl

/-- The objects of a heap with another one are those of before and that one. -/
theorem get?_push_cases {o added : HeapObject} (found : (h.push added).get? r = some o) : h.get? r = some o ∨ o = added := by
  unfold get? push at found
  unfold get?
  split at found
  · cases found
  · rename_i some
    rw [if_neg some]
    rw [Array.getElem?_push] at found
    split at found
    · cases found
      exact .inr rfl
    · exact .inl found

theorem Closed.push (closed : h.Closed) {o : HeapObject} (values : ∀ v ∈ o.values, h.Has v) : (h.push o).Closed := by
  intro r o' found v member
  rcases get?_push_cases found with old | rfl
  · exact (closed r o' old v member).mono (h.evolves_push o)
  · exact (values v member).mono (h.evolves_push o')

theorem evolves_modify {f : HeapObject → HeapObject} (becomes : ∀ o, h.get? r = some o → o.Becomes (f o)) :
    h.Evolves (h.modify r f) := by
  intro q o found
  rw [get?_modify]
  by_cases same : q = r
  · subst same
    refine ⟨f o, by rw [if_pos rfl, found]; rfl, (becomes o found).kind_eq, (becomes o found).length?_eq⟩
  · exact ⟨o, by rw [if_neg same, found], rfl, rfl⟩

theorem Closed.modify (closed : h.Closed) {f : HeapObject → HeapObject} (evolves : h.Evolves (h.modify r f))
    (values : ∀ o, h.get? r = some o → ∀ v ∈ (f o).values, h.Has v) : (h.modify r f).Closed := by
  intro q o found v member
  rw [get?_modify] at found
  split at found
  · rename_i same
    subst same
    obtain ⟨before, there, rfl⟩ := Option.map_eq_some_iff.mp found
    exact (values before there v member).mono evolves
  · exact (closed q o found v member).mono evolves

end Heap

/-! ### The regime -/

/-- A reference has been followed that leads to no object. -/
def Fault.isDangling : Fault → Bool
  | .execution (.invalidHeapReference _) => true
  | _ => false

/-- All references that are in use or in objects lead to objects. -/
def Regime.live : Regime where
  sound s := s.heap.Closed
  becomes s t := s.heap.Evolves t.heap
  admits s v := s.heap.Has v
  fails fault := fault.isDangling = false

theorem lawful_live {m : Module} : Regime.live.Lawful m where
  refl s := .refl s.heap
  trans first second := first.trans second
  mono evolves has := has.mono evolves
  plain none r refers := by
    rw [none] at refers
    cases refers
  held closed found := closed _ _ found
  ordinary {fault} ordinary := by
    cases fault with
    | execution cause => cases cause <;> first | rfl | cases ordinary
    | _ => rfl
  endless _ := rfl
  dangling {s r} has missing := by
    have there := has r rfl
    rw [missing] at there
    cases there
  push {s o} closed values := ⟨closed.push values, s.heap.evolves_push o, s.heap.has_nextRef o⟩
  modify closed changes :=
    have evolves := Heap.evolves_modify fun o found => (changes o found).1
    ⟨closed.modify evolves fun o found => (changes o found).2, evolves⟩
  note {s _} closed := ⟨closed, .refl s.heap⟩

theorem refuses_live (p : Program) (depth : Nat) : Regime.live.Refuses p depth := fun _ _ => rfl

/-! ### Hosts -/

/-- What a call comes to is there. -/
def Heap.HasOutcome (h : Heap) : Outcome → Prop
  | .returned value => h.Has value
  | .threw x => h.Has (.ref x)

/-- A host method that deals only with references that lead to objects: it gives back and puts into objects no other ones, and
    comes across none. The objects that there are stay of their kinds and sizes. -/
structure HostMethod.Careful (method : HostMethod) : Prop where
  ok : ∀ {arguments heap outcome heap'}, heap.Closed → (∀ v ∈ arguments, heap.Has v) →
    method arguments heap = .ok outcome heap' →
      heap.Evolves heap' ∧ heap'.Closed ∧ heap'.HasOutcome outcome
  error : ∀ {arguments heap fault heap'}, heap.Closed → (∀ v ∈ arguments, heap.Has v) →
    method arguments heap = .error fault heap' → heap.Evolves heap' ∧ heap'.Closed ∧ fault.isDangling = false

/-- What the host does deals only with references that lead to objects. -/
def HostAction.Careful : HostAction → Prop
  | .request _ => True
  | .register _ method => HostMethod.Careful method
  | .edit change => ∀ h : Heap, h.Closed → h.Evolves (change h) ∧ (change h).Closed

theorem abides_live {p : Program} (hosts : ∀ host ∈ p.hostMethods, HostMethod.Careful host.2) : p.Abides .live := by
  intro host among s arguments closed admits
  have careful := hosts host among
  unfold Obeys Running.callHost
  cases called : host.2 arguments s.heap with
  | ok outcome heap =>
    obtain ⟨evolves, closed, live⟩ := careful.ok closed admits called
    refine ⟨closed, evolves, ?_⟩
    cases outcome <;> exact live
  | error fault heap =>
    obtain ⟨evolves, closed, fails⟩ := careful.error closed admits called
    exact ⟨closed, evolves, fails⟩

/-! ### Requests -/

/-- All references lead to objects, in the frames under execution and in the objects. -/
def Stage.Live : Stage → Prop
  | .ok (.running top callers) s => s.heap.Closed ∧ ∀ f ∈ top :: callers, f.Admitted .live s
  | .ok (.finished outcome) s => s.heap.Closed ∧ s.heap.HasOutcome outcome
  | .error fault s => s.heap.Closed ∧ fault.isDangling = false

theorem Stage.Live.closed {r : Stage} (live : r.Live) : r.machine.heap.Closed := by
  match r with
  | .ok (.running top callers) s => exact live.1
  | .ok (.finished outcome) s => exact live.1
  | .error fault s => exact live.1

theorem Stage.Allowed.live {bound : Nat} {r : Stage} (allowed : r.Allowed .live bound) : r.Live := by
  match r with
  | .ok (.running top callers) s => exact ⟨allowed.1, allowed.2.1⟩
  | .ok (.finished (.returned value)) s => exact allowed
  | .ok (.finished (.threw x)) s => exact allowed
  | .error fault s => exact allowed

/-- The references of a request are live all the time. -/
structure Service.Live (x : Service) : Prop where
  before : x.machine.heap.Evolves x.start.machine.heap
  live : ∀ {visits r}, x.program.Leads x.start visits r → r.Live
  stays : ∀ {visits r visits' r'}, x.program.Leads x.start visits r → x.program.Leads r visits' r' →
    r.machine.heap.Evolves r'.machine.heap
  after : x.after.heap = x.last.machine.heap
  answer : ∀ fault, x.answer = .error fault → fault.isDangling = false

theorem Service.heap_after (x : Service) : x.after.heap = x.last.machine.heap := by
  unfold after
  rw [x.result_eq]
  match x.last with
  | .ok (.finished outcome) s => rfl
  | .ok (.running f callers) s => rfl
  | .error fault s => rfl

theorem Service.isLive {x : Service} (closed : x.machine.heap.Closed)
    (hosts : ∀ host ∈ x.program.hostMethods, HostMethod.Careful host.2)
    (arguments : ∀ v ∈ x.request.arguments, x.machine.heap.Has v) : x.Live := by
  have abides := abides_live hosts
  have goesOn : ∀ {visits r r'}, x.program.Leads r visits r' → r.Allowed .live x.program.limits.callDepth →
      r.machine.heap.Evolves r'.machine.heap ∧ r'.Allowed .live x.program.limits.callDepth :=
    fun leads start =>
      leads.allowed lawful_live abides (refuses_live _) (fun s closed => ⟨closed, .refl s.heap⟩) (Nat.le_refl _) start
  obtain ⟨before, start⟩ :=
    (HostRequest.obeys_start lawful_live abides (refuses_live _ 0) closed x.request arguments).allowed
  refine ⟨before, fun leads => (goesOn leads start).2.live, ?_, x.heap_after, ?_⟩
  · intro visits r visits' r' first second
    exact (goesOn second (goesOn first start).2).1
  · intro fault answered
    have last := (goesOn x.leads start).2
    unfold answer at answered
    rw [x.result_eq] at answered
    match ends : x.last with
    | .ok (.finished outcome) s =>
      rw [ends] at answered
      cases answered
    | .ok (.running f callers) s =>
      rw [ends] at answered
      cases answered
      rfl
    | .error cause s =>
      rw [ends] at answered last
      cases answered
      exact last.2

/-- A host that asks for calls with live references, and works with no other ones in between: no object is ever taken away, every
    reference leads to an object at all times, and no request fails for one that does not. -/
theorem references_stay_live {p : Program} {actions : List HostAction} {s : Machine} (closed : s.heap.Closed)
    (hosts : ∀ host ∈ p.hostMethods, HostMethod.Careful host.2) (careful : ∀ action ∈ actions, action.Careful)
    (arguments : ∀ x ∈ p.services actions s, ∀ v ∈ x.request.arguments, x.machine.heap.Has v) :
    (∀ x ∈ p.services actions s, s.heap.Evolves x.machine.heap ∧ x.machine.heap.Closed ∧ x.Live) ∧
      (p.services actions s).Pairwise (fun x y => x.after.heap.Evolves y.machine.heap) ∧
        ∀ fault, .error fault ∈ p.serve actions s → fault.isDangling = false := by
  have live : (∀ x ∈ p.services actions s, s.heap.Evolves x.machine.heap ∧ x.machine.heap.Closed ∧ x.Live) ∧
      (p.services actions s).Pairwise (fun x y => x.after.heap.Evolves y.machine.heap) := by
    induction actions generalizing p s with
    | nil => exact ⟨nofun, .nil⟩
    | cons action rest ih =>
      obtain ⟨first, others⟩ := List.forall_mem_cons.mp careful
      cases action with
      | register token method =>
        exact ih (p := p.register token method) closed (List.forall_mem_cons.mpr ⟨first, hosts⟩) others arguments
      | edit change =>
        obtain ⟨evolves, closed⟩ := first s.heap closed
        obtain ⟨each, pairs⟩ := ih (s := { s with heap := change s.heap }) closed hosts others arguments
        exact ⟨fun x member => ⟨evolves.trans (each x member).1, (each x member).2⟩, pairs⟩
      | request request =>
        obtain ⟨own, later⟩ := List.forall_mem_cons.mp arguments
        have requested : Service.Live ⟨p, request, s⟩ := Service.isLive closed hosts own
        have last := requested.live (Service.leads _)
        have kept : s.heap.Evolves (Service.after ⟨p, request, s⟩).heap := by
          rw [requested.after]
          exact requested.before.trans (requested.stays (.stay _) (Service.leads _))
        have left : (Service.after ⟨p, request, s⟩).heap.Closed := by
          rw [requested.after]
          exact last.closed
        obtain ⟨each, pairs⟩ := ih left hosts others later
        refine ⟨List.forall_mem_cons.mpr ⟨⟨.refl _, closed, requested⟩, fun x member => ?_⟩, ?_⟩
        · exact ⟨kept.trans (each x member).1, (each x member).2⟩
        · exact List.pairwise_cons.mpr ⟨fun y member => (each y member).1, pairs⟩
  refine ⟨live.1, live.2, fun fault failed => ?_⟩
  rw [Program.serve_eq_map] at failed
  obtain ⟨x, member, answered⟩ := List.mem_map.mp failed
  exact (live.1 x member).2.2.answer fault answered

namespace Sample

/-- A host that makes an array, stands in for a hook, and calls the method with the array. -/
def holds : List HostAction :=
  [.edit (·.push (.array #[.null])), .register kind.onEntry silent, .request (.invoke echo.token [.ref ⟨1⟩])]

/-- The method is called with a reference to an object, and gives it back. -/
theorem holds_live :
    ({} : Heap).Closed ∧ (∀ action ∈ holds, action.Careful) ∧
      (∀ x ∈ (program rows).services holds {}, ∀ v ∈ x.request.arguments, x.machine.heap.Has v) ∧
        ∃ x ∈ (program rows).services holds {}, x.Live ∧ x.answer = .ok (.returned (.ref ⟨1⟩)) := by
  have closed : ∀ h : Heap, h.Closed → (h.push (.array #[.null])).Closed := fun h closed =>
    closed.push fun v member => by
      obtain rfl : v = .null := by simpa [HeapObject.values] using member
      intro r same
      cases same
  have careful : ∀ action ∈ holds, action.Careful := by
    refine List.forall_mem_cons.mpr ⟨fun h live => ⟨h.evolves_push _, closed h live⟩, ?_⟩
    refine List.forall_mem_cons.mpr ⟨⟨fun live _ done => ?_, fun _ _ done => ?_⟩, List.forall_mem_singleton.mpr trivial⟩
    · cases done
      refine ⟨.refl _, live, fun r same => ?_⟩
      cases same
    · cases done
  have arguments : ∀ x ∈ (program rows).services holds {}, ∀ v ∈ x.request.arguments, x.machine.heap.Has v := by
    refine List.forall_mem_singleton.mpr (List.forall_mem_singleton.mpr ?_)
    exact Heap.has_nextRef {} _
  refine ⟨Heap.closed_empty, careful, arguments, _, List.mem_singleton.mpr rfl, ?_, rfl⟩
  exact ((references_stay_live Heap.closed_empty (by simp [program]) careful arguments).1 _ (List.mem_singleton.mpr rfl)).2.2

end Sample

end AspectWeaving

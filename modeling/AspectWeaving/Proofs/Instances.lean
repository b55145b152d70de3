import AspectWeaving.Proofs.RegimeRuns

/-!
Instances stay. An object of a type of the module is one for ever, whatever a program does, as long as the
host methods leave it alone (`Program.after_keeps`).
-/
namespace AspectWeaving

namespace Heap

variable {h h' h'' : Heap} {r : HeapRef} {o : HeapObject}

/-- A later heap has the instances of an earlier one. -/
def Keeps (h h' : Heap) : Prop := ∀ r type, h.get? r = some (.instance type) → h'.get? r = some (.instance type)

theorem Keeps.refl (h : Heap) : h.Keeps h := fun _ _ found => found

theorem Keeps.trans (first : h.Keeps h') (second : h'.Keeps h'') : h.Keeps h'' :=
  fun r type found => second r type (first r type found)

theorem get?_push (found : h.get? r = some o) (added : HeapObject) : (h.push added).get? r = some o := by
  unfold get? at found ⊢
  split at found
  · cases found
  · rename_i some
    have inside := (Array.getElem?_eq_some_iff.mp found).1
    rw [if_neg some, push, Array.getElem?_push_lt inside, ← Array.getElem?_eq_getElem inside, found]

theorem get?_nextRef (h : Heap) (o : HeapObject) : (h.push o).get? h.nextRef = some o := by
  simp [get?, push, nextRef, size]

theorem keeps_push (h : Heap) (o : HeapObject) : h.Keeps (h.push o) := fun _ _ found => get?_push found o

theorem get?_modify (h : Heap) (r q : HeapRef) (f : HeapObject → HeapObject) :
    (h.modify r f).get? q = if q = r then (h.get? q).map f else h.get? q := by
  obtain ⟨a⟩ := r
  obtain ⟨b⟩ := q
  simp only [get?, modify, HeapRef.mk.injEq]
  by_cases null : b = 0
  · simp [null]
  · rw [if_neg null, if_neg null]
    split
    · rw [if_neg (by omega)]
    · rename_i some
      rw [Array.getElem?_modify]
      by_cases same : b = a
      · rw [if_pos same, if_pos (by omega)]
      · rw [if_neg same, if_neg (by omega)]

theorem keeps_modify {r : HeapRef} {f : HeapObject → HeapObject} (becomes : ∀ o, h.get? r = some o → o.Becomes (f o)) :
    h.Keeps (h.modify r f) := by
  intro q type found
  rw [get?_modify]
  split
  · rename_i same
    subst same
    have changed := becomes _ found
    rw [found]
    generalize made : f (.instance type) = o at changed
    cases changed
    exact congrArg some made
  · exact found

end Heap

/-! ### Computations -/

namespace Running

variable {α β : Type}

/-- A computation leaves the instances alone that there are, whether it fails or not. -/
structure Keeps (x : Running α) : Prop where
  ok : ∀ {s a t}, x s = .ok a t → s.heap.Keeps t.heap
  error : ∀ {s fault t}, x s = .error fault t → s.heap.Keeps t.heap

end Running

open Running (Keeps Obeys)

/-- A host method leaves the instances alone. -/
structure HostMethod.Keeps (method : HostMethod) : Prop where
  ok : ∀ {arguments heap outcome heap'}, method arguments heap = .ok outcome heap' → heap.Keeps heap'
  error : ∀ {arguments heap fault heap'}, method arguments heap = .error fault heap' → heap.Keeps heap'

/-- The host methods leave the instances alone. -/
def Program.Spares (p : Program) : Prop := ∀ host ∈ p.hostMethods, HostMethod.Keeps host.2

/-! ### Programs -/

theorem Heap.allows_keeps : Heap.Allows Heap.Keeps where
  refl := Heap.Keeps.refl
  trans := Heap.Keeps.trans
  push := Heap.keeps_push
  modify _ := Heap.keeps_modify

section Sparing

variable {p : Program} {depth : Nat}

theorem Program.Spares.within (spares : p.Spares) : ∀ host ∈ p.hostMethods, HostMethod.Within Heap.Keeps host.2 :=
  fun host among => ⟨(spares host among).ok, (spares host among).error⟩

/-- A computation that keeps to the regime leaves the instances alone. -/
theorem keeps_of_obeys {α : Type} {x : Running α} {Q : Machine → α → Prop} (obeys : ∀ s, Obeys (.heap Heap.Keeps) s x Q) : Keeps x where
  ok {s _ _} done := ((obeys s).ok done).2.1
  error {s _ _} failed := ((obeys s).error failed).2.1

theorem keeps_callDefinition (spares : p.Spares) (token : Token) (arguments : List Value) :
    Keeps (callDefinition p depth token arguments) :=
  keeps_of_obeys fun _ =>
    obeys_callDefinition (lawful_heap Heap.allows_keeps) (abides_heap spares.within) refuses_heap trivial token fun _ _ => trivial

theorem keeps_collect (spares : p.Spares) (objects : Array Value) (attributes : List Attribute) :
    Keeps (collect p depth objects attributes) :=
  keeps_of_obeys fun _ =>
    obeys_collect (lawful_heap Heap.allows_keeps) (abides_heap spares.within) refuses_heap trivial (fun _ _ => trivial) attributes

/-- One instruction leaves the instances alone. -/
theorem Program.after_keeps (spares : p.Spares) (f : Frame) (cs : List Frame) (s : Machine) :
    s.heap.Keeps (p.after f cs s).machine.heap := p.after_heap Heap.allows_keeps spares.within f cs s

end Sparing

end AspectWeaving

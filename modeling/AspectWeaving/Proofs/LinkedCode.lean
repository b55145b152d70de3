import AspectWeaving.Arena
import AspectWeaving.Proofs.BranchLayout
import AspectWeaving.Proofs.ControlFlow

/-!
Linked code is code. `Code.arena` links the instructions of code as they stand in its order, and every operation of an arena does to the
linked form what the operation of the same name does to code; the patched links of an insertion come out as the neighbours that the new
order gives. So an arena that has come about by operations is the linked form of code: one chain, of which each handle has its place.
-/
namespace AspectWeaving

/-- So many handles from a number on. -/
def Handle.range (start count : Nat) : List Handle := (List.range count).map fun n => ⟨start + n⟩

theorem Handle.range_succ (start count : Nat) : range start (count + 1) = ⟨start⟩ :: range (start + 1) count := by
  rw [range, List.range_succ_eq_map, List.map_cons, List.map_map, Nat.add_zero, range]
  congr 1
  exact List.map_congr_left fun n _ => congrArg Handle.mk (by simp only [Nat.succ_eq_add_one]; omega)

/-! ### Neighbours -/

namespace Code

variable {c d : Code} {h g : Handle} {i : Instruction} {place n : Nat}

theorem eq_of_parts (instructions : c.instructions = d.instructions) (order : c.order = d.order) : c = d := by
  cases c
  cases d
  cases instructions
  cases order
  rfl

/-- The handle before a place. -/
def before? (c : Code) (place : Nat) : Option Handle := if place = 0 then none else c.order[place - 1]?

theorem next?_of_stands (stands : c.order[n]? = some h) : c.next? h = c.order[n + 1]? := by
  simp [next?, position?_eq_some_iff.mpr stands]

theorem prev?_of_stands (stands : c.order[n]? = some h) : c.prev? h = c.before? n := by
  simp [prev?, before?, position?_eq_some_iff.mpr stands]

theorem position?_of_foreign (foreign : c.size ≤ h.index) : c.position? h = none := by
  simp [position?, contains, Nat.not_lt.mpr foreign]

theorem next?_of_foreign (foreign : c.size ≤ h.index) : c.next? h = none := by simp [next?, position?_of_foreign foreign]

theorem prev?_of_foreign (foreign : c.size ≤ h.index) : c.prev? h = none := by simp [prev?, position?_of_foreign foreign]

theorem before?_eq_some_iff : c.before? place = some h ↔ ∃ n, place = n + 1 ∧ c.order[n]? = some h := by
  cases place with
  | zero => simp [before?]
  | succ n => simp [before?]

theorem prev?_eq_some_iff : c.prev? g = some h ↔ c.next? h = some g := by
  rw [next?_eq_some_iff]
  constructor
  · intro found
    obtain ⟨n, stands⟩ : ∃ n, c.position? g = some n := by
      by_contra none
      simp [prev?, Option.eq_none_iff_forall_ne_some.mpr (not_exists.mp none)] at found
    have there := position?_eq_some_iff.mp stands
    rw [prev?_of_stands there, before?_eq_some_iff] at found
    obtain ⟨m, rfl, at_⟩ := found
    exact ⟨m, at_, there⟩
  · rintro ⟨n, at_, there⟩
    rw [prev?_of_stands there, before?_eq_some_iff]
    exact ⟨n, rfl, at_⟩

/-! ### One instruction more -/

theorem size_insertAt (c : Code) (place : Nat) (is : List Instruction) : (c.insertAt place is).size = c.size + is.length := by
  simp [size, insertAt]

theorem get?_insertAt (c : Code) (place : Nat) (is : List Instruction) (h : Handle) :
    (c.insertAt place is).get? h = if h.index < c.size then c.get? h else is[h.index - c.size]? := by
  by_cases inside : h.index < c.instructions.size
  · simp [get?, insertAt, size, Array.getElem?_append, inside]
  · simp [get?, insertAt, size, Array.getElem?_append, inside]

theorem getElem?_order_insertAt (bound : place ≤ c.size) :
    (c.insertAt place [i]).order[n]? =
      if n < place then c.order[n]? else if n = place then some c.nextHandle else c.order[n - 1]? := by
  have long : (c.order.toList.take place).length = place := by
    rw [List.length_take, Array.length_toList, size_order]
    omega
  have order : (c.insertAt place [i]).order[n]? =
      (c.order.toList.take place ++ c.nextHandle :: c.order.toList.drop place)[n]? := by
    simp [insertAt, nextHandle]
  rw [order]
  by_cases front : n < place
  · rw [if_pos front, List.getElem?_append_left (by omega), List.getElem?_take_of_lt front, Array.getElem?_toList]
  rw [if_neg front, List.getElem?_append_right (by omega), long]
  by_cases here : n = place
  · simp [here]
  · obtain ⟨k, rfl⟩ : ∃ k, n = place + k + 1 := ⟨n - place - 1, by omega⟩
    have index : place + k + 1 - place = k + 1 := by omega
    rw [if_neg here, index, List.getElem?_cons_succ, List.getElem?_drop, Array.getElem?_toList]
    rfl

theorem stands_insertAt_early (bound : place ≤ c.size) (stands : c.order[n]? = some h) (early : n < place) :
    (c.insertAt place [i]).order[n]? = some h := by
  rw [getElem?_order_insertAt bound, if_pos early, stands]

theorem stands_insertAt_late (bound : place ≤ c.size) (stands : c.order[n]? = some h) (late : place ≤ n) :
    (c.insertAt place [i]).order[n + 1]? = some h := by
  rw [getElem?_order_insertAt bound, if_neg (by omega), if_neg (by omega)]
  exact stands

theorem stands_insertAt_new (bound : place ≤ c.size) : (c.insertAt place [i]).order[place]? = some c.nextHandle := by
  simp [getElem?_order_insertAt bound]

theorem before?_insertAt (bound : place ≤ c.size) :
    (c.insertAt place [i]).before? n =
      if n ≤ place then c.before? n else if n = place + 1 then some c.nextHandle else c.before? (n - 1) := by
  cases n with
  | zero => simp [before?]
  | succ n =>
    have shape : (c.insertAt place [i]).before? (n + 1) = (c.insertAt place [i]).order[n]? := by simp [before?]
    rw [shape, getElem?_order_insertAt bound]
    by_cases early : n < place
    · rw [if_pos early, if_pos (by omega)]
      simp [before?]
    by_cases here : n = place
    · rw [if_neg early, if_pos here, if_neg (by omega), if_pos (by omega)]
    · rw [if_neg early, if_neg here, if_neg (by omega), if_neg (by omega), Nat.add_sub_cancel, before?, if_neg (by omega)]

/-- Behind an insertion the new handle comes before the one that stood at the place and after the one before it; other neighbours stay. -/
theorem next?_insertAt (bound : place ≤ c.size) (h : Handle) :
    (c.insertAt place [i]).next? h =
      if h = c.nextHandle then c.order[place]? else if c.before? place = some h then some c.nextHandle else c.next? h := by
  by_cases new : h = c.nextHandle
  · rw [if_pos new, new, next?_of_stands (stands_insertAt_new bound), getElem?_order_insertAt bound, if_neg (by omega), if_neg (by omega),
      Nat.add_sub_cancel]
  rw [if_neg new]
  by_cases inside : h.index < c.size
  · obtain ⟨n, stands⟩ := c.exists_position inside
    have last : c.before? place = some h ↔ place = n + 1 := by
      rw [before?_eq_some_iff]
      constructor
      · rintro ⟨m, rfl, at_⟩
        rw [order_inj at_ stands]
      · rintro rfl
        exact ⟨n, rfl, stands⟩
    rw [next?_of_stands stands]
    by_cases early : n < place
    · rw [next?_of_stands (stands_insertAt_early bound stands early), getElem?_order_insertAt bound]
      by_cases at_ : place = n + 1
      · rw [if_pos (last.mpr at_), if_neg (by omega), if_pos at_.symm]
      · rw [if_neg (fun found => at_ (last.mp found)), if_pos (by omega)]
    · rw [next?_of_stands (stands_insertAt_late bound stands (by omega)), getElem?_order_insertAt bound, if_neg (by omega), if_neg (by omega),
        if_neg (fun found => by have := last.mp found; omega)]
      rfl
  · have foreign : c.before? place ≠ some h := by
      intro found
      obtain ⟨m, -, at_⟩ := before?_eq_some_iff.mp found
      exact inside ((c.mem_order_iff h).mp (Array.mem_of_getElem? at_))
    have index : h.index ≠ c.size := fun same => new (Handle.eq_iff.mpr same)
    rw [if_neg foreign, next?_of_foreign (by rw [size_insertAt, List.length_singleton]; omega), next?_of_foreign (by omega)]

theorem prev?_insertAt (bound : place ≤ c.size) (h : Handle) :
    (c.insertAt place [i]).prev? h =
      if h = c.nextHandle then c.before? place else if c.order[place]? = some h then some c.nextHandle else c.prev? h := by
  by_cases new : h = c.nextHandle
  · rw [if_pos new, new, prev?_of_stands (stands_insertAt_new bound), before?_insertAt bound]
    simp
  rw [if_neg new]
  by_cases inside : h.index < c.size
  · obtain ⟨n, stands⟩ := c.exists_position inside
    have first : c.order[place]? = some h ↔ place = n := by
      constructor
      · exact fun at_ => order_inj at_ stands
      · rintro rfl
        exact stands
    rw [prev?_of_stands stands]
    by_cases early : n < place
    · rw [prev?_of_stands (stands_insertAt_early bound stands early), before?_insertAt bound, if_pos (by omega),
        if_neg (fun found => by have := first.mp found; omega)]
    · rw [prev?_of_stands (stands_insertAt_late bound stands (by omega)), before?_insertAt bound, if_neg (by omega)]
      by_cases at_ : place = n
      · rw [if_pos (first.mpr at_), if_pos (by omega)]
      · rw [if_neg (by omega), if_neg (fun found => at_ (first.mp found))]
        rfl
  · have foreign : c.order[place]? ≠ some h := fun found => inside ((c.mem_order_iff h).mp (Array.mem_of_getElem? found))
    have index : h.index ≠ c.size := fun same => new (Handle.eq_iff.mpr same)
    rw [if_neg foreign, prev?_of_foreign (by rw [size_insertAt, List.length_singleton]; omega), prev?_of_foreign (by omega)]

end Code

/-! ### Patched links -/

namespace Arena

variable {a b : Arena} {h anchor : Handle} {i : Instruction} {n : Nat}

theorem eq_of_parts (nodes : ∀ n : Nat, a.nodes[n]? = b.nodes[n]?) (head : a.head = b.head) (tail : a.tail = b.tail) : a = b := by
  obtain ⟨rows, first, last⟩ := a
  cases head
  cases tail
  rw [show rows = b.nodes from Array.ext_getElem? nodes]

/-- A new instruction between two handles, either of which may be missing at an end: the one before it is linked with it forward, and the
    one behind it backward. -/
def between (a : Arena) (before behind : Option Handle) (i : Instruction) : Arena where
  nodes := (a.nodes.mapIdx fun n node =>
    { node with
      previous := if behind = some ⟨n⟩ then some a.nextHandle else node.previous
      next := if before = some ⟨n⟩ then some a.nextHandle else node.next }).push ⟨i, before, behind⟩
  head := if before = none then some a.nextHandle else a.head
  tail := if behind = none then some a.nextHandle else a.tail

/-- A missing handle is held in any case. -/
def ContainsEnd (a : Arena) (bound : Option Handle) : Prop := ∀ h, bound = some h → h.index < a.size

theorem getElem?_between (before behind : Option Handle) :
    (a.between before behind i).nodes[n]? =
      if n = a.size then some ⟨i, before, behind⟩
      else a.nodes[n]?.map fun node =>
        { node with
          previous := if behind = some ⟨n⟩ then some a.nextHandle else node.previous
          next := if before = some ⟨n⟩ then some a.nextHandle else node.next } := by
  rw [between, Array.getElem?_push, Array.size_mapIdx, Array.getElem?_mapIdx]
  rfl

@[simp] theorem getElem?_alloc : (a.alloc i).nodes[n]? = if n = a.size then some { instruction := i } else a.nodes[n]? := by
  rw [alloc, Array.getElem?_push]
  rfl

@[simp] theorem getElem?_setNext (next : Option Handle) :
    (a.setNext h next).nodes[n]? =
      a.nodes[n]?.map fun node => { node with next := if h = ⟨n⟩ then next else node.next } := by
  simp only [setNext, Array.getElem?_modify, Handle.eq_iff]
  by_cases at_ : h.index = n <;> simp [at_]

@[simp] theorem getElem?_setPrevious (previous : Option Handle) :
    (a.setPrevious h previous).nodes[n]? =
      a.nodes[n]?.map fun node => { node with previous := if h = ⟨n⟩ then previous else node.previous } := by
  simp only [setPrevious, Array.getElem?_modify, Handle.eq_iff]
  by_cases at_ : h.index = n <;> simp [at_]

/-- A handle that the arena holds is not that of the next node. -/
theorem ne_of_held (inside : h.index < a.size) : h ≠ ⟨a.size⟩ := by
  rintro rfl
  exact Nat.lt_irrefl _ inside

theorem nextHandle_eq (small : a.size < UInt32.size) : a.nextHandle = ⟨a.size⟩ := by
  rw [nextHandle, Nat.mod_eq_of_lt small]

theorem push_eq_between (small : a.size < UInt32.size) (held : a.ContainsEnd a.tail) :
    a.push i = (a.between a.tail none i, a.nextHandle) := by
  have kept : (a.alloc i).tail = a.tail := rfl
  unfold push
  simp only [kept]
  refine Prod.ext (eq_of_parts ?_ ?_ ?_) rfl
  · intro n
    rw [getElem?_between, nextHandle_eq small]
    cases last : a.tail with
    | none => simp
    | some tail =>
      have other := ne_of_held (held tail last)
      by_cases new : n = a.size
      · simp [new, other]
      · simp [new, Ne.symm new, Function.comp_def]
  · cases last : a.tail <;> simp [alloc, between, setNext, setPrevious]
  · cases last : a.tail <;> simp [between]

theorem alloc_links (inside : anchor.index < a.size) :
    (a.alloc i).prev? anchor = a.prev? anchor ∧ (a.alloc i).next? anchor = a.next? anchor := by
  simp [prev?, next?, Nat.ne_of_lt inside]

theorem insertBefore_eq_between (small : a.size < UInt32.size) (inside : anchor.index < a.size) (held : a.ContainsEnd (a.prev? anchor)) :
    a.insertBefore anchor i = (a.between (a.prev? anchor) (some anchor) i, some a.nextHandle) := by
  have other := ne_of_held inside
  unfold insertBefore
  rw [if_pos (by simpa [contains] using inside)]
  simp only [(alloc_links inside).1]
  refine Prod.ext (eq_of_parts ?_ ?_ ?_) rfl
  · intro n
    rw [getElem?_between, nextHandle_eq small]
    cases before : a.prev? anchor with
    | none =>
      by_cases new : n = a.size
      · simp [new, other]
      · simp [new, Ne.symm new]
    | some previous =>
      have early := ne_of_held (held previous before)
      by_cases new : n = a.size
      · simp [new, other, early]
      · simp [new, Ne.symm new, Function.comp_def]
  · cases before : a.prev? anchor <;> simp [alloc, between, setNext, setPrevious]
  · cases before : a.prev? anchor <;> simp [alloc, between, setNext, setPrevious]

theorem insertAfter_eq_between (small : a.size < UInt32.size) (inside : anchor.index < a.size) (held : a.ContainsEnd (a.next? anchor)) :
    a.insertAfter anchor i = (a.between (some anchor) (a.next? anchor) i, some a.nextHandle) := by
  have other := ne_of_held inside
  unfold insertAfter
  rw [if_pos (by simpa [contains] using inside)]
  simp only [(alloc_links inside).2]
  refine Prod.ext (eq_of_parts ?_ ?_ ?_) rfl
  · intro n
    rw [getElem?_between, nextHandle_eq small]
    cases behind : a.next? anchor with
    | none =>
      by_cases new : n = a.size
      · simp [new, other]
      · simp [new, Ne.symm new]
    | some next =>
      have late := ne_of_held (held next behind)
      by_cases new : n = a.size
      · simp [new, other, late]
      · simp [new, Ne.symm new, Function.comp_def]
  · cases behind : a.next? anchor <;> simp [alloc, between, setNext, setPrevious]
  · cases behind : a.next? anchor <;> simp [alloc, between, setNext, setPrevious]

end Arena

/-! ### The linked form of code -/

namespace Code

variable {c : Code} {h g anchor : Handle} {i : Instruction} {is : List Instruction} {place n : Nat}

/-- Code with its instructions linked as they stand. -/
def arena (c : Code) : Arena where
  nodes := c.instructions.mapIdx fun n i => ⟨i, c.prev? ⟨n⟩, c.next? ⟨n⟩⟩
  head := c.first?
  tail := c.last?

@[simp] theorem size_arena (c : Code) : c.arena.size = c.size := by simp [arena, Arena.size, size]

theorem nextHandle_arena (small : c.size < UInt32.size) : c.arena.nextHandle = c.nextHandle := by
  rw [Arena.nextHandle_eq (by simpa using small), size_arena, nextHandle]

theorem getElem?_arena : c.arena.nodes[n]? = (c.get? ⟨n⟩).map fun i => ⟨i, c.prev? ⟨n⟩, c.next? ⟨n⟩⟩ := by
  simp [arena, get?]

@[simp] theorem get?_arena (c : Code) (h : Handle) : c.arena.get? h = c.get? h := by
  rw [Arena.get?, getElem?_arena]
  cases c.get? h <;> rfl

@[simp] theorem next?_arena (c : Code) (h : Handle) : c.arena.next? h = c.next? h := by
  rw [Arena.next?, getElem?_arena]
  cases found : c.get? h with
  | none => exact (next?_of_foreign (by simpa [get?, size] using found)).symm
  | some i => rfl

@[simp] theorem prev?_arena (c : Code) (h : Handle) : c.arena.prev? h = c.prev? h := by
  rw [Arena.prev?, getElem?_arena]
  cases found : c.get? h with
  | none => exact (prev?_of_foreign (by simpa [get?, size] using found)).symm
  | some i => rfl

theorem last?_eq_before? (c : Code) : c.last? = c.before? c.size := by
  rw [last?, Array.back?_eq_getElem?, size_order, before?]
  split
  · rename_i empty
    simp [empty, c.size_order]
  · rfl

theorem containsEnd_of_stands (at_ : ∀ h, bound = some h → ∃ n : Nat, c.order[n]? = some h) : c.arena.ContainsEnd bound := by
  intro h found
  obtain ⟨n, stands⟩ := at_ h found
  rw [size_arena]
  exact (c.mem_order_iff h).mp (Array.mem_of_getElem? stands)

theorem containsEnd_before (c : Code) (place : Nat) : c.arena.ContainsEnd (c.before? place) := by
  apply containsEnd_of_stands
  intro h found
  obtain ⟨n, -, stands⟩ := before?_eq_some_iff.mp found
  exact ⟨n, stands⟩

theorem containsEnd_behind (c : Code) (place : Nat) : c.arena.ContainsEnd c.order[place]? :=
  containsEnd_of_stands fun _ found => ⟨place, found⟩

/-- One instruction more is linked in between those around its place. -/
theorem arena_insertAt (small : c.size < UInt32.size) (bound : place ≤ c.size) :
    (c.insertAt place [i]).arena = c.arena.between (c.before? place) c.order[place]? i := by
  have sizes : (c.insertAt place [i]).size = c.size + 1 := c.size_insertAt place [i]
  refine Arena.eq_of_parts ?_ ?_ ?_
  · intro n
    rw [Arena.getElem?_between, getElem?_arena, getElem?_arena, nextHandle_arena small, next?_insertAt bound, prev?_insertAt bound,
      get?_insertAt, size_arena]
    by_cases new : n = c.size
    · simp [new, nextHandle]
    · have other : (⟨n⟩ : Handle) ≠ c.nextHandle := by simpa [nextHandle] using new
      have kept : (if n < c.size then c.get? ⟨n⟩ else [i][n - c.size]?) = c.get? ⟨n⟩ := by
        by_cases inside : n < c.size
        · rw [if_pos inside]
        · have foreign : c.get? ⟨n⟩ = none := by simpa [get?, size] using inside
          rw [if_neg inside, foreign, List.getElem?_singleton, if_neg (by omega)]
      rw [if_neg new, if_neg other, if_neg other, kept, Option.map_map]
      rfl
  · change (c.insertAt place [i]).order[0]? = _
    rw [getElem?_order_insertAt bound, Arena.between, nextHandle_arena small]
    cases place with
    | zero => simp [before?]
    | succ n =>
      have there : c.order[n]?.isSome := by simp [c.size_order]; omega
      have occupied : c.before? (n + 1) ≠ none := by simpa [before?, Option.isSome_iff_ne_none] using there
      simp [occupied]
      rfl
  · change (c.insertAt place [i]).last? = if c.order[place]? = none then some c.arena.nextHandle else c.last?
    rw [last?_eq_before?, sizes, before?_insertAt bound, nextHandle_arena small]
    by_cases end_ : place = c.size
    · have nothing : c.order[place]? = none := by simp [c.size_order, end_]
      rw [if_neg (by omega), if_pos (by omega), if_pos nothing]
    · have there : c.order[place]? ≠ none := by simp [c.size_order]; omega
      rw [if_neg (by omega), if_neg (by omega), Nat.add_sub_cancel, if_neg there, ← last?_eq_before?]

/-! ### Operations -/

theorem insertAt_nil (c : Code) (place : Nat) : c.insertAt place [] = c := by
  apply eq_of_parts
  · simp [insertAt]
  · simp [insertAt]

/-- Instructions that are put in one after another, each behind the one before, stand there in their order. -/
theorem insertAt_cons (bound : place ≤ c.size) : c.insertAt place (i :: is) = (c.insertAt place [i]).insertAt (place + 1) is := by
  have long : (c.order.toList.take place).length = place := by
    rw [List.length_take, Array.length_toList, size_order]
    omega
  apply eq_of_parts
  · simp [insertAt]
  · have sizes : (c.insertAt place [i]).size = c.size + 1 := c.size_insertAt place [i]
    have order : (c.insertAt place [i]).order.toList = (c.order.toList.take place ++ [⟨c.size⟩]) ++ c.order.toList.drop place := by
      simp [insertAt]
    have front : (c.order.toList.take place ++ [(⟨c.size⟩ : Handle)]).length = place + 1 := by simp [long]
    change (c.order.toList.take place ++ Handle.range c.size (is.length + 1) ++ c.order.toList.drop place).toArray =
      ((c.insertAt place [i]).order.toList.take (place + 1) ++ Handle.range (c.insertAt place [i]).size is.length ++
        (c.insertAt place [i]).order.toList.drop (place + 1)).toArray
    rw [order, sizes, Handle.range_succ, List.take_left' front, List.drop_left' front]
    simp

theorem push_eq_insertAt (c : Code) (i : Instruction) : c.push i = c.insertAt c.size [i] := by
  have long : c.order.toList.length = c.size := by rw [Array.length_toList, size_order]
  apply eq_of_parts
  · simp [push, insertAt]
  · apply Array.toList_inj.mp
    have whole : c.order.toList.take c.size = c.order.toList := List.take_of_length_le (Nat.le_of_eq long)
    have nothing : c.order.toList.drop c.size = [] := List.drop_eq_nil_iff.mpr (Nat.le_of_eq long)
    simp [push, insertAt, whole, nothing, nextHandle]

theorem arena_push (small : c.size < UInt32.size) : c.arena.push i = ((c.push i).arena, c.nextHandle) := by
  have held : c.arena.ContainsEnd c.arena.tail := by
    change c.arena.ContainsEnd c.last?
    rw [last?_eq_before?]
    exact c.containsEnd_before _
  have nothing : c.order[c.size]? = none := by simp [c.size_order]
  rw [Arena.push_eq_between (by simpa using small) held, push_eq_insertAt, arena_insertAt small (Nat.le_refl _), nothing,
    nextHandle_arena small, ← last?_eq_before?]
  rfl

theorem arena_insertBefore (small : c.size < UInt32.size) (stands : c.order[n]? = some anchor) :
    c.arena.insertBefore anchor i = ((c.insertAt n [i]).arena, some c.nextHandle) := by
  have inside : anchor.index < c.size := (c.mem_order_iff anchor).mp (Array.mem_of_getElem? stands)
  have bound : n ≤ c.size := c.size_order ▸ Nat.le_of_lt (Array.getElem?_eq_some_iff.mp stands).1
  have held : c.arena.ContainsEnd (c.arena.prev? anchor) := by
    rw [prev?_arena, prev?_of_stands stands]
    exact c.containsEnd_before n
  rw [Arena.insertBefore_eq_between (by simpa using small) (by simpa using inside) held, arena_insertAt small bound, prev?_arena,
    prev?_of_stands stands, stands, nextHandle_arena small]

theorem arena_insertAfter (small : c.size < UInt32.size) (stands : c.order[n]? = some anchor) :
    c.arena.insertAfter anchor i = ((c.insertAt (n + 1) [i]).arena, some c.nextHandle) := by
  have inside : anchor.index < c.size := (c.mem_order_iff anchor).mp (Array.mem_of_getElem? stands)
  have bound : n + 1 ≤ c.size := c.size_order ▸ (Array.getElem?_eq_some_iff.mp stands).1
  have held : c.arena.ContainsEnd (c.arena.next? anchor) := by
    rw [next?_arena, next?_of_stands stands]
    exact c.containsEnd_behind _
  have before : c.before? (n + 1) = some anchor := by simpa [before?] using stands
  rw [Arena.insertAfter_eq_between (by simpa using small) (by simpa using inside) held, arena_insertAt small bound, next?_arena,
    next?_of_stands stands, before, nextHandle_arena small]

/-- The anchor moves on by one place with each instruction that is put in before it. -/
theorem arena_insertEach (small : c.size + is.length ≤ UInt32.size) (stands : c.order[n]? = some anchor) :
    c.arena.insertEach anchor is = ((c.insertAt n is).arena, some (Handle.range c.size is.length)) := by
  induction is generalizing c n with
  | nil => rw [insertAt_nil]; rfl
  | cons i rest ih =>
    have bound : n ≤ c.size := c.size_order ▸ Nat.le_of_lt (Array.getElem?_eq_some_iff.mp stands).1
    rw [List.length_cons] at small ⊢
    have sizes : (c.insertAt n [i]).size = c.size + 1 := c.size_insertAt n [i]
    have others := ih (c := c.insertAt n [i]) (by omega) (stands_insertAt_late bound stands (Nat.le_refl n))
    have whole : c.insertAt n (i :: rest) = (c.insertAt n [i]).insertAt (n + 1) rest := insertAt_cons bound
    rw [Arena.insertEach, arena_insertBefore (by omega) stands, Handle.range_succ, whole, ← sizes]
    simp only [others, Option.map_some]
    rfl

theorem arena_ofList (small : is.length ≤ UInt32.size) : Arena.ofList is = (Code.ofList is).arena := by
  suffices pushed : ∀ (c : Code), c.size + is.length ≤ UInt32.size →
      is.foldl (fun a i => (a.push i).1) c.arena = (c.append is).arena by
    exact pushed .empty (by simpa [size, empty] using small)
  clear small
  induction is with
  | nil => exact fun _ _ => rfl
  | cons i rest ih =>
    intro c small
    rw [List.length_cons] at small
    have sizes : (c.push i).size = c.size + 1 := by simp [size, push]
    rw [List.foldl_cons, arena_push (by omega), ih (c.push i) (by omega)]
    rfl

theorem arena_modify (f : Instruction → Instruction) : c.arena.modify h f = ((c.modify h f).arena, c.get? h) := by
  have place : ∀ g, (c.modify h f).position? g = c.position? g := by
    intro g
    have sizes : (c.modify h f).size = c.size := by simp [modify, size]
    rw [position?, position?, contains, contains, sizes]
    rfl
  have after : ∀ g, (c.modify h f).next? g = c.next? g := by
    intro g
    rw [next?, place]
    rfl
  have before : ∀ g, (c.modify h f).prev? g = c.prev? g := by
    intro g
    rw [prev?, place]
    rfl
  refine Prod.ext (Arena.eq_of_parts ?_ rfl rfl) (c.get?_arena h)
  intro n
  rw [getElem?_arena, after, before]
  simp only [Arena.modify, Array.getElem?_modify, getElem?_arena, get?, modify]
  by_cases at_ : h.index = n
  · simp [at_, Function.comp_def]
  · simp [at_]

/-! ### Walks -/

theorem walk_forward (c : Code) (k n : Nat) : c.arena.walk (·.next) k c.order[n]? = (c.entries.drop n).take k := by
  induction k generalizing n with
  | zero => rfl
  | succ k ih =>
    cases stands : c.order[n]? with
    | none =>
      have past : c.entries.length ≤ n := by
        rw [← List.length_map Prod.fst, map_fst_entries, Array.length_toList]
        exact Array.getElem?_eq_none_iff.mp stands
      rw [List.drop_of_length_le past]
      rfl
    | some h =>
      obtain ⟨i, found⟩ := get?_eq_some_of_order stands
      obtain ⟨inside, here⟩ := List.getElem?_eq_some_iff.mp (getElem?_entries_eq_some_iff.mpr ⟨stands, found⟩)
      rw [List.drop_eq_getElem_cons inside, here, List.take_succ_cons, ← ih (n + 1), ← next?_of_stands stands]
      simp only [Arena.walk, getElem?_arena, found, Option.map_some]

theorem walk_backward (c : Code) {k n : Nat} (bound : n ≤ c.size) :
    c.arena.walk (·.previous) k (c.before? n) = (c.entries.take n).reverse.take k := by
  induction k generalizing n with
  | zero => rfl
  | succ k ih =>
    cases n with
    | zero => rfl
    | succ n =>
      obtain ⟨h, stands⟩ : ∃ h, c.order[n]? = some h := by
        rw [← Option.isSome_iff_exists]
        simp [c.size_order]
        omega
      obtain ⟨i, found⟩ := get?_eq_some_of_order stands
      have entry := getElem?_entries_eq_some_iff.mpr ⟨stands, found⟩
      have before : c.before? (n + 1) = some h := before?_eq_some_iff.mpr ⟨n, rfl, stands⟩
      have last : (c.entries.take (n + 1)).reverse = (h, i) :: (c.entries.take n).reverse := by
        rw [List.take_add_one, entry, Option.toList_some, List.reverse_append, List.reverse_singleton, List.singleton_append]
      rw [last, before, List.take_succ_cons, ← ih (by omega), ← prev?_of_stands stands]
      simp only [Arena.walk, getElem?_arena, found, Option.map_some]

theorem length_entries (c : Code) : c.entries.length = c.size := by
  rw [← List.length_map Prod.fst, map_fst_entries, Array.length_toList, size_order]

/-- The handles of listed instructions are those from zero on. -/
theorem entries_ofList (is : List Instruction) : (Code.ofList is).entries = (Handle.range 0 is.length).zip is := by
  have order : (Code.ofList is).order.toList = Handle.range 0 is.length := append_order is
  have instructions : (Code.ofList is).instructions.toList = is := append_instructions is
  have get : ∀ n, (Code.ofList is).get? ⟨n⟩ = is[n]? := by
    intro n
    rw [get?, ← Array.getElem?_toList, instructions]
  apply List.ext_getElem?
  intro n
  apply Option.ext
  rintro ⟨h, i⟩
  rw [getElem?_entries_eq_some_iff, List.getElem?_zip_eq_some, ← order, Array.getElem?_toList]
  refine and_congr_right fun stands => ?_
  have listed : (Handle.range 0 is.length)[n]? = some h := by rw [← order, Array.getElem?_toList, stands]
  obtain rfl : h = ⟨n⟩ := by
    simpa [Handle.range, eq_comm] using (List.getElem?_eq_some_iff.mp listed).2
  rw [get]

theorem entries_arena (c : Code) : c.arena.entries = c.entries := by
  rw [Arena.entries, size_arena]
  change c.arena.walk (·.next) c.size c.order[0]? = _
  rw [walk_forward, List.drop_zero, List.take_of_length_le (Nat.le_of_eq c.length_entries)]

theorem handles_arena (c : Code) : c.arena.handles = c.order.toList := by
  rw [Arena.handles, entries_arena, map_fst_entries]

theorem positions_arena (c : Code) (h : Handle) : c.arena.positions[h]? = c.position? h := by
  have apart : c.order.toList.zipIdx.Pairwise fun a b => (a.1 == b.1) = false := by
    have once := c.nodup_order
    rw [← List.zipIdx_map_fst 0 c.order.toList] at once
    simpa using List.pairwise_map.mp once
  rw [Arena.positions, handles_arena]
  cases found : c.position? h with
  | none =>
    apply Std.HashMap.getElem?_ofList_of_contains_eq_false
    rw [List.zipIdx_map_fst, ← Bool.not_eq_true, List.contains_iff_mem]
    intro listed
    obtain ⟨n, stands⟩ := Array.mem_iff_getElem?.mp (Array.mem_toList_iff.mp listed)
    rw [position?_eq_some_iff.mpr stands] at found
    cases found
  | some n =>
    apply Std.HashMap.getElem?_ofList_of_mem (k := h) (beq_self_eq_true h) apart
    rw [List.mem_zipIdx_iff_getElem?, Array.getElem?_toList]
    exact position?_eq_some_iff.mp found

end Code

end AspectWeaving

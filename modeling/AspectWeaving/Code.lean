import AspectWeaving.Instruction

/-!
Code: a sequence of instructions with a handle each. Handles count the instructions in the order in
which they were made, and `Code.order` is the order in which they stand; every handle stands in it
exactly once (`Code.order_perm`). Instructions are only ever added, so a handle stays good for ever
while new code goes in around it. An operation at a handle that the code does not hold gives `none`.
-/
namespace AspectWeaving

/-- The array of a size that holds every listed value at its index and a default elsewhere. -/
def scatter {α : Type} (size : Nat) (default : α) (entries : List (Nat × α)) : Array α :=
  entries.foldl (fun a e => a.setIfInBounds e.1 e.2) (Array.replicate size default)

private theorem foldl_set_of_not_mem {α : Type} (entries : List (Nat × α)) (a : Array α) {i : Nat}
    (h : i ∉ entries.map Prod.fst) :
    (entries.foldl (fun a e => a.setIfInBounds e.1 e.2) a)[i]? = a[i]? := by
  induction entries generalizing a with
  | nil => rfl
  | cons e rest ih =>
    simp only [List.map_cons, List.mem_cons, not_or] at h
    rw [List.foldl_cons, ih _ h.2, Array.getElem?_setIfInBounds_ne (Ne.symm h.1)]

private theorem foldl_set_of_mem {α : Type} (entries : List (Nat × α)) (a : Array α) {i : Nat} {x : α}
    (once : (entries.map Prod.fst).Nodup) (mem : (i, x) ∈ entries) (inside : i < a.size) :
    (entries.foldl (fun a e => a.setIfInBounds e.1 e.2) a)[i]? = some x := by
  induction entries generalizing a with
  | nil => cases mem
  | cons e rest ih =>
    rw [List.map_cons, List.nodup_cons] at once
    rw [List.foldl_cons]
    rcases List.mem_cons.mp mem with rfl | later
    · rw [foldl_set_of_not_mem rest _ once.1, Array.getElem?_setIfInBounds_self_of_lt inside]
    · exact ih _ once.2 later (by simpa using inside)

/-- An index that is listed once holds its value. -/
theorem scatter_of_mem {α : Type} {size : Nat} {default : α} {entries : List (Nat × α)} {i : Nat} {x : α}
    (once : (entries.map Prod.fst).Nodup) (mem : (i, x) ∈ entries) (inside : i < size) :
    (scatter size default entries)[i]? = some x :=
  foldl_set_of_mem entries _ once mem (by simpa using inside)

@[simp] theorem size_scatter {α : Type} (size : Nat) (default : α) (entries : List (Nat × α)) :
    (scatter size default entries).size = size := by
  suffices h : ∀ a : Array α, (entries.foldl (fun a e => a.setIfInBounds e.1 e.2) a).size = a.size by
    rw [scatter, h, Array.size_replicate]
  induction entries with
  | nil => exact fun _ => rfl
  | cons e rest ih => intro a; rw [List.foldl_cons, ih]; simp

/-- A sequence of instructions with handles. -/
structure Code where
  /-- The instructions by handle. -/
  instructions : Array Instruction
  /-- The handles in the order in which the instructions stand. -/
  order : Array Handle
  /-- Every handle stands exactly once. -/
  order_perm : order.toList.Perm ((List.range instructions.size).map Handle.mk)

namespace Code

/-- The code without instructions. -/
def empty : Code := ⟨#[], #[], .nil⟩

instance : Inhabited Code := ⟨empty⟩

/-- The number of instructions. -/
def size (c : Code) : Nat := c.instructions.size

/-- The handle of the instruction that is added next. -/
def nextHandle (c : Code) : Handle := ⟨c.size⟩

/-- The code holds the handle. -/
def contains (c : Code) (h : Handle) : Bool := h.index < c.size

/-- The instruction of a handle. -/
def get? (c : Code) (h : Handle) : Option Instruction := c.instructions[h.index]?

/-- The first handle. -/
def first? (c : Code) : Option Handle := c.order[0]?

/-- The last handle. -/
def last? (c : Code) : Option Handle := c.order.back?

/-- The place of a handle in the order. -/
def position? (c : Code) (h : Handle) : Option Nat :=
  if c.contains h then c.order.idxOf? h else none

/-- The handle after a handle. -/
def next? (c : Code) (h : Handle) : Option Handle :=
  (c.position? h).bind fun p => c.order[p + 1]?

/-- The handle before a handle. -/
def prev? (c : Code) (h : Handle) : Option Handle :=
  (c.position? h).bind fun p => if p = 0 then none else c.order[p - 1]?

/-- The handles with their instructions, in order. -/
def entries (c : Code) : List (Handle × Instruction) :=
  c.order.toList.filterMap fun h => (c.get? h).map (h, ·)

/-- The place of every handle, by the index of the handle. -/
def positions (c : Code) : Array Nat :=
  scatter c.size 0 (c.order.toList.zipIdx.map fun e => (e.1.index, e.2))

/-- The sizes of the instructions before each, with the handles of those. -/
def offsetsFrom (start : Nat) : List (Handle × Instruction) → List (Nat × Nat)
  | [] => []
  | (h, i) :: rest => (h.index, start) :: offsetsFrom (start + i.size) rest

/-- The size of instructions in bytes. -/
def totalSize : List (Handle × Instruction) → Nat
  | [] => 0
  | (_, i) :: rest => i.size + totalSize rest

/-- The byte offset of every instruction, by the index of its handle. -/
def offsets (c : Code) : Array Nat := scatter c.size 0 (offsetsFrom 0 c.entries)

/-- The size of the code in bytes. -/
def byteSize (c : Code) : Nat := totalSize c.entries

/-- Adds an instruction at the end; its handle is `nextHandle`. -/
def push (c : Code) (i : Instruction) : Code :=
  let added := c.nextHandle
  { instructions := c.instructions.push i
    order := c.order.push added
    order_perm := by
      simp only [Array.toList_push, Array.size_push, List.range_succ, List.map_append, List.map_cons,
        List.map_nil]
      exact c.order_perm.append_right _ }

/-- Adds instructions at the end. -/
def append (c : Code) (is : List Instruction) : Code := is.foldl push c

/-- The code of a list of instructions. -/
def ofList (is : List Instruction) : Code := empty.append is

/-- Adds instructions before the one that stands at `place`, in their order. -/
def insertAt (c : Code) (place : Nat) (is : List Instruction) : Code where
  instructions := c.instructions ++ is.toArray
  order := (c.order.toList.take place ++ ((List.range is.length).map fun n => Handle.mk (c.size + n)) ++
    c.order.toList.drop place).toArray
  order_perm := by
    have fresh : (List.range (c.instructions.size + is.length)).map Handle.mk =
        (List.range c.instructions.size).map Handle.mk ++
          (List.range is.length).map fun n => Handle.mk (c.size + n) := by
      rw [List.range_add, List.map_append, List.map_map]; rfl
    simp only [Array.size_append, List.size_toArray, fresh]
    refine .trans ?_ (c.order_perm.append_right _)
    rw [List.append_assoc]
    refine .trans (List.Perm.append_left _ List.perm_append_comm) ?_
    rw [← List.append_assoc, List.take_append_drop]

/-- Adds instructions before a handle. -/
def insertAllBefore? (c : Code) (h : Handle) (is : List Instruction) : Option Code :=
  (c.position? h).map fun p => c.insertAt p is

/-- Adds an instruction before a handle. -/
def insertBefore? (c : Code) (h : Handle) (i : Instruction) : Option Code := c.insertAllBefore? h [i]

/-- Adds an instruction after a handle. -/
def insertAfter? (c : Code) (h : Handle) (i : Instruction) : Option Code :=
  (c.position? h).map fun p => c.insertAt (p + 1) [i]

/-- Replaces the instruction of a handle by a function of it; without the handle nothing changes. -/
def modify (c : Code) (h : Handle) (f : Instruction → Instruction) : Code where
  instructions := c.instructions.modify h.index f
  order := c.order
  order_perm := by rw [Array.size_modify]; exact c.order_perm

/-- Replaces every instruction by a function of its handle and it. -/
def mapInstructions (c : Code) (f : Handle → Instruction → Instruction) : Code where
  instructions := c.instructions.mapIdx fun n => f ⟨n⟩
  order := c.order
  order_perm := by rw [Array.size_mapIdx]; exact c.order_perm

/-- The handles of the order are those the code holds. -/
theorem mem_order_iff (c : Code) (h : Handle) : h ∈ c.order ↔ h.index < c.size := by
  rw [← Array.mem_toList_iff, c.order_perm.mem_iff]
  cases h
  simp [size]

theorem nodup_order (c : Code) : c.order.toList.Nodup := by
  rw [c.order_perm.nodup_iff]
  exact List.Pairwise.map _ (fun a b (h : a ≠ b) e => h (Handle.mk.inj e)) List.nodup_range

theorem size_order (c : Code) : c.order.size = c.size := by
  simpa [size] using c.order_perm.length_eq

end Code

end AspectWeaving

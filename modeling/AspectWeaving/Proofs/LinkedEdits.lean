import AspectWeaving.Proofs.LinkedCode

/-!
Edits of linked code. Whatever is done to an arena, it remains one chain (`Arena.Chained`): a walk forward meets every handle once and ends
at the last one, a walk backward is its reverse, and every handle has its position. Each edit puts its new handles where it was asked to and
leaves the others as they are, or is refused and changes nothing (`Arena.Edit.Effect`). Both follow from the linked form of code, which an
edit takes to that of the edited code (`Arena.Edit.perform_arena`).
-/
namespace AspectWeaving

namespace Arena

/-- A linked sequence is one chain. -/
structure Chained (a : Arena) : Prop where
  /-- A walk forward comes to its end, -/
  forward : ∀ n, a.size ≤ n → a.walk (·.next) n a.head = a.entries
  /-- and meets each handle once, with its instruction, -/
  nodup : a.handles.Nodup
  mem_handles : ∀ h, h ∈ a.handles ↔ a.contains h
  held : ∀ e ∈ a.entries, a.get? e.1 = some e.2
  /-- from the first to the last. -/
  first : a.handles.head? = a.head
  last : a.handles.getLast? = a.tail
  /-- A walk backward is its reverse. -/
  backward : ∀ n, a.size ≤ n → a.walk (·.previous) n a.tail = a.entries.reverse
  inverse : ∀ h g, a.next? h = some g ↔ a.prev? g = some h
  /-- The position of a handle is where the walk meets it. The handles have positions, one each, and those are all up to their number. -/
  position : ∀ (h : Handle) (n : Nat), a.positions[h]? = some n ↔ a.handles[n]? = some h
  placed : ∀ h, a.contains h ↔ ∃ n : Nat, a.positions[h]? = some n
  apart : ∀ (h g : Handle) (n : Nat), a.positions[h]? = some n → a.positions[g]? = some n → h = g
  onto : ∀ n, n < a.size ↔ ∃ h : Handle, a.positions[h]? = some n

/-- New instructions stand between the handles of the front and those of the back, which keep their order and their instructions. The
    new ones have the next handles. -/
structure Grows (a b : Arena) (front back : List Handle) (is : List Instruction) : Prop where
  before : a.handles = front ++ back
  after : b.handles = front ++ Handle.range a.size is.length ++ back
  size : b.size = a.size + is.length
  added : (Handle.range a.size is.length).map b.get? = is.map some
  kept : ∀ h, a.contains h → b.get? h = a.get? h

/-- What can be done to linked code. -/
inductive Edit where
  | push (i : Instruction)
  | insertBefore (anchor : Handle) (i : Instruction)
  | insertAfter (anchor : Handle) (i : Instruction)
  | insertAllBefore (anchor : Handle) (is : List Instruction)
  | modify (h : Handle) (f : Instruction → Instruction)

namespace Edit

/-- An edit, with the new handles unless it is refused. -/
def perform (a : Arena) : Edit → Arena × Option (List Handle)
  | push i => ((a.push i).1, some [(a.push i).2])
  | insertBefore anchor i => ((a.insertBefore anchor i).1, (a.insertBefore anchor i).2.map ([·]))
  | insertAfter anchor i => ((a.insertAfter anchor i).1, (a.insertAfter anchor i).2.map ([·]))
  | insertAllBefore anchor is => a.insertAllBefore anchor is
  | modify h f => ((a.modify h f).1, (a.modify h f).2.map fun _ => [])

/-- The edit of code. -/
def code (c : Code) : Edit → Code
  | push i => c.push i
  | insertBefore anchor i => (c.insertBefore? anchor i).getD c
  | insertAfter anchor i => (c.insertAfter? anchor i).getD c
  | insertAllBefore anchor is => (c.insertAllBefore? anchor is).getD c
  | modify h f => c.modify h f

/-- The handle that an edit needs. -/
def anchor? : Edit → Option Handle
  | push _ => none
  | insertBefore anchor _ | insertAfter anchor _ | insertAllBefore anchor _ | modify anchor _ => some anchor

/-- The instructions that an edit adds. -/
def added : Edit → List Instruction
  | push i | insertBefore _ i | insertAfter _ i => [i]
  | insertAllBefore _ is => is
  | modify _ _ => []

/-- An arena holds the handle that an edit needs. -/
def Applies (e : Edit) (a : Arena) : Prop := ∀ h, e.anchor? = some h → a.contains h

/-- What an edit that applies does to an arena. -/
def Done (a b : Arena) : Edit → Prop
  | push i => a.Grows b a.handles [] [i]
  | insertBefore anchor i => ∃ front back, a.Grows b front (anchor :: back) [i]
  | insertAfter anchor i => ∃ front back, a.Grows b (front ++ [anchor]) back [i]
  | insertAllBefore anchor is => ∃ front back, a.Grows b front (anchor :: back) is
  | modify h f => b.handles = a.handles ∧ b.size = a.size ∧ ∀ g, b.get? g = if g = h then (a.get? g).map f else a.get? g

/-- What an edit does, and answers. -/
structure Effect (e : Edit) (a b : Arena) (answer : Option (List Handle)) : Prop where
  done : e.Applies a → answer = some (Handle.range a.size e.added.length) ∧ e.Done a b
  refused : ¬ e.Applies a → answer = none ∧ b = a

end Edit

/-- Edits one after another. -/
def editAll (a : Arena) (edits : List Edit) : Arena := edits.foldl (fun a e => (e.perform a).1) a

/-! ### Sizes -/

variable {a : Arena} {c : Code} {e : Edit} {h anchor : Handle} {i : Instruction} {is : List Instruction} {n : Nat}

theorem size_push (a : Arena) (i : Instruction) : (a.push i).1.size = a.size + 1 := by
  unfold push
  dsimp only
  split <;> simp [size, alloc, setNext, setPrevious]

theorem insertBefore_of_held (held : a.contains anchor) (i : Instruction) :
    (a.insertBefore anchor i).1.size = a.size + 1 ∧ (a.insertBefore anchor i).2 = some a.nextHandle := by
  unfold insertBefore
  rw [if_pos held]
  refine ⟨?_, rfl⟩
  dsimp only
  split <;> simp [size, alloc, setNext, setPrevious]

theorem size_insertAfter (held : a.contains anchor) (i : Instruction) : (a.insertAfter anchor i).1.size = a.size + 1 := by
  unfold insertAfter
  rw [if_pos held]
  dsimp only
  split <;> simp [size, alloc, setNext, setPrevious]

theorem size_insertEach (held : a.contains anchor) : (a.insertEach anchor is).1.size = a.size + is.length := by
  induction is generalizing a with
  | nil => rfl
  | cons i rest ih =>
    obtain ⟨grown, answered⟩ := insertBefore_of_held held i
    have still : (a.insertBefore anchor i).1.contains anchor := by
      simp only [contains, decide_eq_true_eq] at held ⊢
      omega
    have others := ih still
    rw [insertEach, List.length_cons]
    revert grown answered others
    generalize a.insertBefore anchor i = put
    obtain ⟨b, answer⟩ := put
    rintro grown rfl others
    dsimp only at grown others ⊢
    omega

/-- An edit that is not refused adds its instructions. -/
theorem Edit.size_perform (applies : e.Applies a) : (e.perform a).1.size = a.size + e.added.length := by
  cases e with
  | push i => exact a.size_push i
  | insertBefore anchor i => exact (insertBefore_of_held (applies anchor rfl) i).1
  | insertAfter anchor i => exact size_insertAfter (applies anchor rfl) i
  | insertAllBefore anchor is =>
    have held := applies anchor rfl
    rw [perform, Arena.insertAllBefore, if_pos held]
    exact size_insertEach held
  | modify h f => simp [perform, Arena.modify, size, added]

/-! ### The chain -/

theorem chained_arena (c : Code) : c.arena.Chained := by
  have long := c.length_entries
  have position : ∀ (h : Handle) (n : Nat), c.arena.positions[h]? = some n ↔ c.order[n]? = some h := by
    intro h n
    rw [c.positions_arena, Code.position?_eq_some_iff]
  have listed : ∀ (h : Handle) (n : Nat), c.arena.handles[n]? = some h ↔ c.order[n]? = some h := by
    intro h n
    rw [c.handles_arena, Array.getElem?_toList]
  have contains : ∀ h, c.arena.contains h ↔ h ∈ c.order := by
    intro h
    rw [c.mem_order_iff]
    simp [Arena.contains]
  constructor
  case forward =>
    intro n whole
    rw [Code.size_arena] at whole
    change c.arena.walk (·.next) n c.order[0]? = _
    rw [Code.walk_forward, Code.entries_arena, List.drop_zero, List.take_of_length_le (by omega)]
  case nodup => exact c.handles_arena ▸ c.nodup_order
  case mem_handles =>
    intro h
    rw [c.handles_arena, contains, Array.mem_toList_iff]
  case held =>
    intro e met
    obtain ⟨n, at_⟩ := List.mem_iff_getElem?.mp (c.entries_arena ▸ met)
    rw [Code.get?_arena]
    exact (Code.getElem?_entries_eq_some_iff.mp at_).2
  case first =>
    rw [c.handles_arena, List.head?_eq_getElem?, Array.getElem?_toList]
    rfl
  case last =>
    rw [c.handles_arena, Array.getLast?_toList]
    rfl
  case backward =>
    intro n whole
    rw [Code.size_arena] at whole
    change c.arena.walk (·.previous) n c.last? = _
    rw [Code.last?_eq_before?, Code.walk_backward _ (Nat.le_refl _), Code.entries_arena, List.take_of_length_le (Nat.le_of_eq long),
      List.take_of_length_le (by rw [List.length_reverse]; omega)]
  case inverse =>
    intro h g
    rw [Code.next?_arena, Code.prev?_arena, Code.prev?_eq_some_iff]
  case position =>
    intro h n
    rw [position, listed]
  case placed =>
    intro h
    simp only [position, contains, Array.mem_iff_getElem?]
  case apart =>
    intro h g n here there
    have same := (position h n).mp here
    rw [(position g n).mp there] at same
    exact (Option.some.inj same).symm
  case onto =>
    intro n
    simp only [position, Code.size_arena, ← c.size_order]
    refine ⟨fun inside => ⟨_, Array.getElem?_eq_getElem inside⟩, ?_⟩
    rintro ⟨h, at_⟩
    exact (Array.getElem?_eq_some_iff.mp at_).1

/-! ### Edits of the linked form -/

/-- Instructions put in at a place stand there, and the others around them. -/
theorem grows_insertAt (c : Code) (n : Nat) (is : List Instruction) :
    c.arena.Grows (c.insertAt n is).arena (c.order.toList.take n) (c.order.toList.drop n) is where
  before := by rw [Code.handles_arena, List.take_append_drop]
  after := by
    rw [Code.handles_arena, Code.size_arena]
    rfl
  size := by simp [Code.size_insertAt]
  added := by
    rw [Code.size_arena]
    apply List.ext_getElem?
    intro k
    simp only [Handle.range, List.map_map, List.getElem?_map]
    by_cases inside : k < is.length
    · have beyond : ¬ c.size + k < c.size := by omega
      simp [inside, beyond, Code.get?_insertAt]
    · simp [inside]
  kept := by
    intro h held
    have inside : h.index < c.size := by simpa [contains] using held
    simp [Code.get?_insertAt, inside]

/-- Code at a handle that it holds, split there. -/
theorem order_split (stands : c.order[n]? = some anchor) :
    c.order.toList.drop n = anchor :: c.order.toList.drop (n + 1) ∧
      c.order.toList.take (n + 1) = c.order.toList.take n ++ [anchor] := by
  have listed : c.order.toList[n]? = some anchor := by rw [Array.getElem?_toList, stands]
  obtain ⟨inside, here⟩ := List.getElem?_eq_some_iff.mp listed
  constructor
  · rw [List.drop_eq_getElem_cons inside, here]
  · rw [List.take_add_one, listed, Option.toList_some]

theorem contains_arena_iff : c.arena.contains h ↔ c.position? h ≠ none := by
  rw [← Option.isSome_iff_ne_none, Option.isSome_iff_exists]
  simp only [Code.position?_eq_some_iff, ← Array.mem_iff_getElem?, Code.mem_order_iff]
  simp [contains]

theorem modify_of_foreign {a : Arena} (f : Instruction → Instruction) (foreign : a.contains h = false) : a.modify h f = (a, none) := by
  have outside : a.nodes.size ≤ h.index := Nat.not_lt.mp (of_decide_eq_false foreign)
  have nothing : a.nodes[h.index]? = none := by simp [outside]
  refine Prod.ext (eq_of_parts ?_ rfl rfl) (by simp [modify, get?, nothing])
  intro n
  simp only [modify, Array.getElem?_modify]
  by_cases at_ : h.index = n
  · rw [if_pos at_, ← at_, nothing]
    rfl
  · rw [if_neg at_]

namespace Edit

/-- An edit without its handle is refused. -/
theorem perform_of_foreign {a : Arena} (needs : e.anchor? = some anchor) (foreign : a.contains anchor = false) :
    e.perform a = (a, none) := by
  cases e with
  | push i => cases needs
  | insertBefore anchor i =>
    cases needs
    simp [perform, Arena.insertBefore, foreign]
  | insertAfter anchor i =>
    cases needs
    simp [perform, Arena.insertAfter, foreign]
  | insertAllBefore anchor is =>
    cases needs
    simp [perform, Arena.insertAllBefore, foreign]
  | modify h f =>
    cases needs
    simp [perform, modify_of_foreign f foreign]

theorem code_of_foreign (needs : e.anchor? = some anchor) (foreign : c.position? anchor = none) : e.code c = c := by
  cases e with
  | push i => cases needs
  | insertBefore anchor i =>
    cases needs
    simp [code, Code.insertBefore?, Code.insertAllBefore?, foreign]
  | insertAfter anchor i =>
    cases needs
    simp [code, Code.insertAfter?, foreign]
  | insertAllBefore anchor is =>
    cases needs
    simp [code, Code.insertAllBefore?, foreign]
  | modify h f =>
    cases needs
    have outside : c.instructions.size ≤ anchor.index := by
      by_contra inside
      obtain ⟨n, stands⟩ := c.exists_position (Nat.not_le.mp inside)
      rw [Code.position?_eq_some_iff.mpr stands] at foreign
      cases foreign
    refine Code.eq_of_parts (Array.ext_getElem? fun n => ?_) rfl
    simp only [code, Code.modify, Array.getElem?_modify]
    by_cases at_ : anchor.index = n
    · have nothing : c.instructions[n]? = none := by simp [← at_, outside]
      rw [if_pos at_, nothing]
      rfl
    · rw [if_neg at_]

/-- An edit of linked code that has its handle is the edit of the code, and does what it should. -/
theorem perform_of_held (small : c.size + e.added.length ≤ UInt32.size) (held : ∀ h, e.anchor? = some h → ∃ n, c.position? h = some n) :
    e.perform c.arena = ((e.code c).arena, some (Handle.range c.size e.added.length)) ∧ e.Done c.arena (e.code c).arena := by
  cases e with
  | push i =>
    have long : c.order.toList.length = c.size := Array.length_toList.trans c.size_order
    have grows := grows_insertAt c c.size [i]
    rw [← Code.push_eq_insertAt, List.take_of_length_le (Nat.le_of_eq long), List.drop_of_length_le (Nat.le_of_eq long),
      ← c.handles_arena] at grows
    refine ⟨?_, grows⟩
    rw [perform, Code.arena_push small]
    rfl
  | insertBefore anchor i =>
    obtain ⟨n, found⟩ := held anchor rfl
    have stands := Code.position?_eq_some_iff.mp found
    have put : code c (insertBefore anchor i) = c.insertAt n [i] := by simp [code, Code.insertBefore?, Code.insertAllBefore?, found]
    rw [perform, Code.arena_insertBefore small stands, put]
    refine ⟨rfl, c.order.toList.take n, c.order.toList.drop (n + 1), ?_⟩
    rw [← (order_split stands).1]
    exact grows_insertAt c n [i]
  | insertAfter anchor i =>
    obtain ⟨n, found⟩ := held anchor rfl
    have stands := Code.position?_eq_some_iff.mp found
    have put : code c (insertAfter anchor i) = c.insertAt (n + 1) [i] := by simp [code, Code.insertAfter?, found]
    rw [perform, Code.arena_insertAfter small stands, put]
    refine ⟨rfl, c.order.toList.take n, c.order.toList.drop (n + 1), ?_⟩
    rw [← (order_split stands).2]
    exact grows_insertAt c (n + 1) [i]
  | insertAllBefore anchor is =>
    obtain ⟨n, found⟩ := held anchor rfl
    have stands := Code.position?_eq_some_iff.mp found
    have there : c.arena.contains anchor = true := by simp [contains_arena_iff, found]
    have put : code c (insertAllBefore anchor is) = c.insertAt n is := by simp [code, Code.insertAllBefore?, found]
    change c.size + is.length ≤ UInt32.size at small
    rw [perform, Arena.insertAllBefore, if_pos there, Code.arena_insertEach small stands, put]
    refine ⟨rfl, c.order.toList.take n, c.order.toList.drop (n + 1), ?_⟩
    rw [← (order_split stands).1]
    exact grows_insertAt c n is
  | modify h f =>
    obtain ⟨n, found⟩ := held h rfl
    obtain ⟨i, there⟩ := Code.get?_eq_some_of_order (Code.position?_eq_some_iff.mp found)
    refine ⟨?_, ?_, ?_, ?_⟩
    · rw [perform, Code.arena_modify, there]
      rfl
    · rw [Code.handles_arena, Code.handles_arena]
      rfl
    · simp [code, Code.modify, Code.size]
    · intro g
      simp only [Code.get?_arena, code, Code.get?, Code.modify, Array.getElem?_modify, Handle.eq_iff]
      by_cases at_ : h.index = g.index
      · simp [at_]
      · simp [at_, Ne.symm at_]

theorem size_perform_le (a : Arena) (e : Edit) : a.size ≤ (e.perform a).1.size := by
  by_cases applies : e.Applies a
  · rw [size_perform applies]
    exact Nat.le_add_right _ _
  · obtain ⟨anchor, needs, missing⟩ : ∃ anchor, e.anchor? = some anchor ∧ a.contains anchor = false := by
      simpa [Applies] using applies
    exact Nat.le_of_eq (by rw [perform_of_foreign needs missing])

/-- An edit of the linked form of code leaves that of the edited code, and does what it should. -/
theorem perform_arena (c : Code) (e : Edit) (small : (e.perform c.arena).1.size ≤ UInt32.size) :
    (e.perform c.arena).1 = (e.code c).arena ∧ e.Effect c.arena (e.code c).arena (e.perform c.arena).2 := by
  by_cases applies : e.Applies c.arena
  · rw [size_perform applies, Code.size_arena] at small
    have held : ∀ h, e.anchor? = some h → ∃ n, c.position? h = some n := by
      intro h needs
      exact Option.ne_none_iff_exists'.mp (contains_arena_iff.mp (applies h needs))
    obtain ⟨performed, done⟩ := perform_of_held small held
    rw [performed]
    exact ⟨rfl, fun _ => ⟨by rw [Code.size_arena], done⟩, fun refused => absurd applies refused⟩
  · obtain ⟨anchor, needs, missing⟩ : ∃ anchor, e.anchor? = some anchor ∧ c.arena.contains anchor = false := by
      simpa [Applies] using applies
    have foreign : c.position? anchor = none := by
      by_contra found
      rw [contains_arena_iff.mpr found] at missing
      cases missing
    rw [perform_of_foreign needs missing, code_of_foreign needs foreign]
    exact ⟨rfl, fun held => absurd held applies, fun _ => ⟨rfl, rfl⟩⟩

end Edit

/-! ### All edits -/

theorem size_le_editAll (a : Arena) (edits : List Edit) : a.size ≤ (a.editAll edits).size := by
  induction edits generalizing a with
  | nil => exact Nat.le_refl _
  | cons e rest ih => exact Nat.le_trans (Edit.size_perform_le a e) (ih _)

/-- Edits of the linked form of code leave that of the edited code. -/
theorem editAll_arena (edits : List Edit) (small : (c.arena.editAll edits).size ≤ UInt32.size) :
    c.arena.editAll edits = (edits.foldl Edit.code c).arena := by
  induction edits generalizing c with
  | nil => rfl
  | cons e rest ih =>
    have first := (Edit.perform_arena c e (Nat.le_trans (size_le_editAll _ rest) small)).1
    change ((e.perform c.arena).1.editAll rest).size ≤ UInt32.size at small
    change (e.perform c.arena).1.editAll rest = _
    rw [first] at small ⊢
    exact ih small

theorem size_ofList (is : List Instruction) : (ofList is).size = is.length := by
  suffices pushed : ∀ a : Arena, (is.foldl (fun a i => (a.push i).1) a).size = a.size + is.length by
    exact (pushed {}).trans (Nat.zero_add _)
  induction is with
  | nil => exact fun _ => rfl
  | cons i rest ih =>
    intro a
    rw [List.foldl_cons, ih, size_push, List.length_cons]
    omega

/-- Instructions are made into linked code, and edits follow one another, as long as the handles are enough. The result is linked as the
    edited code stands. Before and after the last edit it is one chain, and that edit has put its instructions in where it should, or has
    been refused. -/
theorem edits_keep_chain (start : List Instruction) (edits : List Edit) (e : Edit)
    (small : (e.perform ((ofList start).editAll edits)).1.size ≤ UInt32.size) :
    let a := (ofList start).editAll edits
    (ofList start).entries = (Handle.range 0 start.length).zip start ∧ a = (edits.foldl Edit.code (.ofList start)).arena ∧
      a.Chained ∧ (e.perform a).1.Chained ∧ e.Effect a (e.perform a).1 (e.perform a).2 := by
  intro a
  have before : a.size ≤ UInt32.size := Nat.le_trans (Edit.size_perform_le a e) small
  have few : start.length ≤ UInt32.size := by
    rw [← size_ofList]
    exact Nat.le_trans (size_le_editAll _ edits) before
  have made := Code.arena_ofList few
  have linked : a = (edits.foldl Edit.code (Code.ofList start)).arena := by
    change (ofList start).editAll edits = _
    rw [made]
    exact editAll_arena edits (made ▸ before)
  have first : (ofList start).entries = (Handle.range 0 start.length).zip start := by
    rw [made, Code.entries_arena, Code.entries_ofList]
  refine ⟨first, linked, ?_⟩
  change (e.perform a).1.size ≤ UInt32.size at small
  clear_value a
  subst linked
  obtain ⟨performed, effect⟩ := Edit.perform_arena _ e small
  rw [performed]
  exact ⟨chained_arena _, chained_arena _, effect⟩

end Arena

namespace Sample

/-- A branch over the end of a list, and two instructions before its first one. -/
def splices : List Arena.Edit :=
  [.insertAfter ⟨0⟩ ⟨.br, .target ⟨1⟩⟩, .insertAllBefore ⟨0⟩ [⟨.ldcI4_1, .none⟩, ⟨.pop, .none⟩]]

/-- The list with the branch, and then one instruction more before its last one. -/
theorem splices_keep_chain :
    let a := (Arena.ofList [⟨.nop, .none⟩, ⟨.ret, .none⟩]).editAll splices
    let b := (Arena.Edit.insertBefore ⟨1⟩ ⟨.nop, .none⟩).perform a
    a.handles = [⟨3⟩, ⟨4⟩, ⟨0⟩, ⟨2⟩, ⟨1⟩] ∧ b.1.handles = [⟨3⟩, ⟨4⟩, ⟨0⟩, ⟨2⟩, ⟨5⟩, ⟨1⟩] ∧ b.1.size ≤ UInt32.size ∧ b.1.Chained :=
  ⟨by decide +kernel, by decide +kernel, by decide +kernel,
    (Arena.edits_keep_chain [⟨.nop, .none⟩, ⟨.ret, .none⟩] splices (.insertBefore ⟨1⟩ ⟨.nop, .none⟩) (by decide +kernel)).2.2.2.1⟩

end Sample

end AspectWeaving

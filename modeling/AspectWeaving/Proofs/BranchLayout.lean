import AspectWeaving.Proofs.Validation

/-!
Layouts of branches. A layout of code has some of its short branches in their long form (`Code.Wider`), and it is one
that can be encoded if every branch that is still short reaches its target (`Code.Reaches`). The more branches are long
the longer is the code between any two places (`Code.Wider.span_le`), so a branch that does not reach its target goes on
not to reach it until it is long itself (`Code.Wider.inShortReach`). Hence the rounds of widening, which come to an end
(`Code.settles_iff`), never make a branch long that is short in any layout that can be encoded (`Code.Settles.least`):
they come to the least of those layouts (`Body.widen_least`).
-/
namespace AspectWeaving

namespace Instruction

variable {i : Instruction}

private theorem size_le_longForm {o l : Opcode} (found : o.longForm? = some l) :
    o.size + o.operandKind.size ≤ l.size + l.operandKind.size := by
  cases o <;> cases found <;> decide

theorem size_le_widened (i : Instruction) : i.size ≤ i.widened.size := by
  unfold widened
  split
  · rename_i long found
    exact size_le_longForm found
  · exact Nat.le_refl _

theorem widened_of_long (long : i.opcode.isShortBranch = false) : i.widened = i := by
  unfold widened
  rw [← i.opcode.isSome_longForm?, Option.isSome_eq_false_iff, Option.isNone_iff_eq_none] at long
  rw [long]

theorem isShortBranch_widened (i : Instruction) : i.widened.opcode.isShortBranch = false := by
  unfold widened
  split
  · rename_i long found
    exact Opcode.not_isShortBranch_longForm found
  · rename_i missing
    rw [← i.opcode.isSome_longForm?, missing]
    rfl

@[simp] theorem widened_widened (i : Instruction) : i.widened.widened = i.widened :=
  widened_of_long i.isShortBranch_widened

/-- A short branch is widened to its long form. -/
theorem exists_longForm (short : i.opcode.isShortBranch = true) :
    ∃ long, i.opcode.longForm? = some long ∧ i.widened = { i with opcode := long } := by
  rw [← i.opcode.isSome_longForm?, Option.isSome_iff_exists] at short
  obtain ⟨long, found⟩ := short
  exact ⟨long, found, by unfold widened; rw [found]⟩

end Instruction

namespace Code

variable {c d e : Code} {h target : Handle} {i : Instruction} {p q n : Nat} {x y : Int}

/-! ### Offsets -/

/-- The bytes before a place of the code. -/
def offsetAt (c : Code) (place : Nat) : Nat := totalSize (c.entries.take place)

private theorem totalSize_append (es es' : List (Handle × Instruction)) :
    totalSize (es ++ es') = totalSize es + totalSize es' := by
  induction es with
  | nil => exact (Nat.zero_add _).symm
  | cons entry es ih => simp only [List.cons_append, totalSize, ih, Nat.add_assoc]

theorem offsetAt_succ (stands : c.order[p]? = some h) (found : c.get? h = some i) :
    c.offsetAt (p + 1) = c.offsetAt p + i.size := by
  unfold offsetAt
  rw [List.take_add_one, getElem?_entries_eq_some_iff.mpr ⟨stands, found⟩, totalSize_append]
  rfl

private theorem mem_offsetsFrom {es : List (Handle × Instruction)} {start : Nat} (listed : es[p]? = some (h, i)) :
    (h.index, start + totalSize (es.take p)) ∈ offsetsFrom start es := by
  induction es generalizing start p with
  | nil => cases listed
  | cons entry es ih =>
    obtain ⟨g, j⟩ := entry
    cases p with
    | zero =>
      cases listed
      exact List.mem_cons_self
    | succ p =>
      rw [List.take_succ_cons, totalSize, ← Nat.add_assoc]
      exact List.mem_cons_of_mem _ (ih listed)

private theorem map_fst_offsetsFrom (es : List (Handle × Instruction)) (start : Nat) :
    (offsetsFrom start es).map Prod.fst = es.map (·.1.index) := by
  induction es generalizing start with
  | nil => rfl
  | cons entry es ih => simp only [offsetsFrom, List.map_cons, ih]

theorem map_fst_entries (c : Code) : c.entries.map Prod.fst = c.order.toList := by
  refine List.ext_getElem? fun p => ?_
  rw [List.getElem?_map, c.order.getElem?_toList]
  cases stands : c.order[p]? with
  | none =>
    cases listed : c.entries[p]? with
    | none => rfl
    | some entry => exact absurd (getElem?_entries_eq_some_iff.mp listed).1 (by simp [stands])
  | some h =>
    obtain ⟨i, found⟩ := get?_eq_some_of_order stands
    rw [getElem?_entries_eq_some_iff.mpr ⟨stands, found⟩]
    rfl

theorem offsets_eq (stands : c.order[p]? = some h) : c.offsets[h.index]? = some (c.offsetAt p) := by
  obtain ⟨i, found⟩ := get?_eq_some_of_order stands
  have listed : (h.index, 0 + c.offsetAt p) ∈ offsetsFrom 0 c.entries :=
    mem_offsetsFrom (getElem?_entries_eq_some_iff.mpr ⟨stands, found⟩)
  rw [Nat.zero_add] at listed
  refine scatter_of_mem ?_ listed ((c.mem_order_iff h).mp (Array.mem_of_getElem? stands))
  have handles : c.entries.map (·.1.index) = (c.entries.map Prod.fst).map Handle.index := List.map_map.symm
  rw [map_fst_offsetsFrom, handles, map_fst_entries]
  exact List.Pairwise.map _ (fun a b (differs : a ≠ b) same => differs (Handle.eq_iff.mpr same)) c.nodup_order

theorem offsetAt_le (before : p ≤ q) : c.offsetAt p ≤ c.offsetAt q := by
  obtain ⟨n, rfl⟩ := Nat.exists_eq_add_of_le before
  unfold offsetAt
  rw [List.take_add, totalSize_append]
  exact Nat.le_add_right _ _

theorem exists_position_of_offset {offset : Nat} (found : c.offsets[h.index]? = some offset) :
    ∃ p : Nat, c.order[p]? = some h ∧ c.offsetAt p = offset := by
  have inside : h.index < c.size := by simpa [offsets] using (Array.getElem?_eq_some_iff.mp found).1
  obtain ⟨p, stands⟩ := exists_position inside
  rw [offsets_eq stands] at found
  exact ⟨p, stands, Option.some.inj found⟩

/-- A displacement is from the end of a branch to the place of its target, in bytes. -/
theorem displacement?_eq_some_iff : displacement? c.offsets h i = some x ↔
    ∃ target p q, i.target? = some target ∧ c.order[p]? = some h ∧ c.order[q]? = some target ∧
      x = (c.offsetAt q : Int) - (c.offsetAt p + i.size) := by
  simp only [displacement?, bind, pure, Option.bind_eq_some_iff, Option.some.injEq]
  constructor
  · rintro ⟨place, here, target, aims, goal, there, rfl⟩
    obtain ⟨p, stands, rfl⟩ := exists_position_of_offset here
    obtain ⟨q, ends, rfl⟩ := exists_position_of_offset there
    exact ⟨target, p, q, aims, stands, ends, rfl⟩
  · rintro ⟨target, p, q, aims, stands, ends, rfl⟩
    exact ⟨_, offsets_eq stands, target, aims, _, offsets_eq ends, rfl⟩

/-! ### Layouts -/

/-- A layout of code: some of its short branches are in the long form, and all else is the same. -/
structure Wider (c d : Code) : Prop where
  order : d.order = c.order
  instruction : ∀ {h i}, c.get? h = some i → d.get? h = some i ∨ d.get? h = some i.widened

theorem Wider.refl (c : Code) : c.Wider c := ⟨rfl, .inl⟩

theorem Wider.trans (first : c.Wider d) (second : d.Wider e) : c.Wider e where
  order := second.order.trans first.order
  instruction found := by
    rcases first.instruction found with same | long
    · exact second.instruction same
    · exact .inr (by simpa using second.instruction long)

theorem Wider.size_eq (wider : c.Wider d) : d.size = c.size := by
  rw [← d.size_order, ← c.size_order, wider.order]

theorem Wider.size_le {j : Instruction} (wider : c.Wider d) (found : c.get? h = some i) (there : d.get? h = some j) :
    i.size ≤ j.size := by
  rcases wider.instruction found with same | long
  · exact Nat.le_of_eq (congrArg Instruction.size (Option.some.inj (same.symm.trans there)))
  · rw [Option.some.inj (there.symm.trans long)]
    exact i.size_le_widened

theorem Wider.offsetAt_succ_le (wider : c.Wider d) (q : Nat) :
    c.offsetAt (q + 1) + d.offsetAt q ≤ d.offsetAt (q + 1) + c.offsetAt q := by
  cases stands : c.order[q]? with
  | none =>
    have beyond : ∀ {f : Code}, f.order = c.order → f.offsetAt (q + 1) = f.offsetAt q := fun {f} same => by
      have short : f.entries.length ≤ q := by
        rw [← List.length_map (f := Prod.fst), map_fst_entries, same]
        simpa using stands
      unfold offsetAt
      rw [List.take_of_length_le short, List.take_of_length_le (Nat.le_succ_of_le short)]
    rw [beyond rfl, beyond wider.order]
    exact Nat.le_of_eq (Nat.add_comm _ _)
  | some h =>
    obtain ⟨i, found⟩ := get?_eq_some_of_order stands
    have there : d.order[q]? = some h := wider.order ▸ stands
    obtain ⟨j, behind⟩ := get?_eq_some_of_order there
    rw [offsetAt_succ stands found, offsetAt_succ there behind]
    have := wider.size_le found behind
    omega

/-- No two places come closer in a wider layout. -/
theorem Wider.span_le (wider : c.Wider d) (before : p ≤ q) :
    c.offsetAt q + d.offsetAt p ≤ d.offsetAt q + c.offsetAt p := by
  induction before with
  | refl => exact Nat.le_of_eq (Nat.add_comm _ _)
  | @step q before ih =>
    have := wider.offsetAt_succ_le q
    rw [Nat.succ_eq_add_one]
    omega

/-- A branch that reaches its target in a wider layout reaches it. -/
theorem Wider.inShortReach (wider : c.Wider d) (found : c.get? h = some i) (there : d.get? h = some i)
    (narrow : displacement? c.offsets h i = some x) (wide : displacement? d.offsets h i = some y)
    (fits : inShortReach y = true) : inShortReach x = true := by
  obtain ⟨target, p, q, aims, stands, ends, rfl⟩ := displacement?_eq_some_iff.mp narrow
  obtain ⟨target', p', q', aims', stands', ends', rfl⟩ := displacement?_eq_some_iff.mp wide
  obtain rfl : target = target' := Option.some.inj (aims.symm.trans aims')
  rw [wider.order] at stands' ends'
  obtain rfl := order_inj stands stands'
  obtain rfl := order_inj ends ends'
  simp only [Code.inShortReach, Bool.and_eq_true, decide_eq_true_eq] at fits ⊢
  rcases Nat.lt_or_ge p q with ahead | back
  · -- The branch itself is as long in both, so its end is a place of both.
    have endOfBranch := offsetAt_succ stands found
    have endThere := offsetAt_succ (wider.order ▸ stands : d.order[p]? = some h) there
    have span := wider.span_le (p := p + 1) ahead
    have order : c.offsetAt (p + 1) ≤ c.offsetAt q := offsetAt_le ahead
    omega
  · have span := wider.span_le back
    have order : c.offsetAt q ≤ c.offsetAt p := offsetAt_le back
    omega

/-- Every short branch whose target is in the code reaches it. -/
def Reaches (c : Code) : Prop :=
  ∀ {h i x}, c.get? h = some i → i.opcode.isShortBranch = true → displacement? c.offsets h i = some x →
    -128 ≤ x ∧ x ≤ 127

theorem inShortReach_iff : inShortReach x = true ↔ -128 ≤ x ∧ x ≤ 127 := by
  simp [inShortReach]

theorem mem_outOfReach_iff : h ∈ c.outOfReach ↔ ∃ i x, c.get? h = some i ∧ i.opcode.isShortBranch = true ∧
    displacement? c.offsets h i = some x ∧ inShortReach x = false := by
  simp only [outOfReach, List.mem_filterMap, Prod.exists, Option.ite_none_right_eq_some, Option.some.injEq,
    Bool.and_eq_true, Option.any_eq_true, Bool.not_eq_true']
  constructor
  · rintro ⟨g, i, listed, ⟨short, x, far, unfit⟩, rfl⟩
    obtain ⟨p, entry⟩ := List.mem_iff_getElem?.mp listed
    exact ⟨i, x, (getElem?_entries_eq_some_iff.mp entry).2, short, far, unfit⟩
  · rintro ⟨i, x, found, short, far, unfit⟩
    obtain ⟨p, stands⟩ := exists_position (get?_isSome_iff.mp (Option.isSome_iff_exists.mpr ⟨i, found⟩))
    exact ⟨h, i, List.mem_of_getElem? (getElem?_entries_eq_some_iff.mpr ⟨stands, found⟩), ⟨short, x, far, unfit⟩, rfl⟩

private theorem filterMap_sublist_map {α β : Type} {f : α → Option β} {g : α → β}
    (agrees : ∀ a b, f a = some b → g a = b) (l : List α) : (l.filterMap f).Sublist (l.map g) := by
  induction l with
  | nil => exact .slnil
  | cons a l ih =>
    rw [List.filterMap_cons, List.map_cons]
    split
    · exact ih.cons _
    · rename_i b kept
      rw [agrees a b kept]
      exact ih.cons_cons _

theorem nodup_outOfReach (c : Code) : c.outOfReach.Nodup := by
  refine List.Nodup.sublist (filterMap_sublist_map (g := Prod.fst) ?_ c.entries) (c.map_fst_entries ▸ c.nodup_order)
  rintro ⟨h, i⟩ g kept
  exact (Option.ite_none_right_eq_some.mp kept).2 |> Option.some.inj

theorem reaches_iff : c.Reaches ↔ c.outOfReach = [] := by
  rw [List.eq_nil_iff_forall_not_mem]
  constructor
  · intro reaches h out
    obtain ⟨i, x, found, short, far, unfit⟩ := mem_outOfReach_iff.mp out
    rw [inShortReach_iff.mpr (reaches found short far)] at unfit
    cases unfit
  · intro none h i x found short far
    rw [← inShortReach_iff]
    by_contra unfit
    exact none h (mem_outOfReach_iff.mpr ⟨i, x, found, short, far, Bool.not_eq_true _ ▸ unfit⟩)

/-! ### Rounds -/

theorem get?_modify (c : Code) (h g : Handle) (f : Instruction → Instruction) :
    (c.modify h f).get? g = if g = h then (c.get? g).map f else c.get? g := by
  simp only [get?, modify, Array.getElem?_modify, Handle.eq_iff, eq_comm]

theorem get?_widenEach (c : Code) (handles : List Handle) (h : Handle) :
    (c.widenEach handles).get? h = if h ∈ handles then (c.get? h).map Instruction.widened else c.get? h := by
  unfold widenEach
  induction handles generalizing c with
  | nil => rfl
  | cons g rest ih =>
    rw [List.foldl_cons, ih, get?_modify]
    by_cases same : h = g <;> by_cases later : h ∈ rest <;> simp [same, later, Function.comp_def]

theorem order_widenEach (c : Code) (handles : List Handle) : (c.widenEach handles).order = c.order :=
  (c.alike_widenEach handles).order

theorem wider_widenEach (c : Code) (handles : List Handle) : c.Wider (c.widenEach handles) where
  order := c.order_widenEach handles
  instruction {h i} found := by
    rw [get?_widenEach, found]
    split
    · exact .inr rfl
    · exact .inl rfl

/-- A branch that a round widens is long in every wider layout in which all short branches reach their targets. -/
theorem Wider.widenEach (wider : c.Wider e) (reaches : e.Reaches) : (c.widenEach c.outOfReach).Wider e where
  order := wider.order.trans (c.order_widenEach _).symm
  instruction {h j} found := by
    rw [get?_widenEach] at found
    split at found
    · rename_i out
      obtain ⟨i, x, here, short, far, unfit⟩ := mem_outOfReach_iff.mp out
      rw [here] at found
      cases found
      refine .inl ((wider.instruction here).resolve_left fun same => ?_)
      obtain ⟨target, p, q, aims, stands, ends, -⟩ := displacement?_eq_some_iff.mp far
      have wide := displacement?_eq_some_iff.mpr ⟨target, p, q, aims, wider.order ▸ stands, wider.order ▸ ends, rfl⟩
      have fits := wider.inShortReach here same far wide (inShortReach_iff.mpr (reaches same short wide))
      rw [unfit] at fits
      cases fits
    · exact wider.instruction found

/-- Rounds lead from code to code: each widens all short branches that do not reach their targets, and the last finds
    none. They count the branches. -/
inductive Settles : Code → Code → Nat → Prop
  | done {c : Code} (settled : c.outOfReach = []) : Settles c c 0
  | round {c d : Code} {n : Nat} (unsettled : c.outOfReach ≠ []) (rest : Settles (c.widenEach c.outOfReach) d n) :
    Settles c d (c.outOfReach.length + n)

private theorem shortBranchCount_eq (c : Code) :
    c.shortBranchCount = c.order.toList.countP fun h => (c.get? h).any (·.opcode.isShortBranch) := by
  unfold shortBranchCount
  rw [← map_fst_entries, List.countP_map]
  refine List.countP_congr fun ⟨h, i⟩ listed => ?_
  obtain ⟨p, entry⟩ := List.mem_iff_getElem?.mp listed
  simp [(getElem?_entries_eq_some_iff.mp entry).2]

private theorem countP_lt_countP {α : Type} {a : α} {l : List α} {f g : α → Bool} (fewer : ∀ b, f b = true → g b = true)
    (mem : a ∈ l) (lost : f a = false) (had : g a = true) : l.countP f < l.countP g := by
  obtain ⟨before, behind, rfl⟩ := List.append_of_mem mem
  have first : before.countP f ≤ before.countP g := List.countP_mono_left fun b _ => fewer b
  have rest : behind.countP f ≤ behind.countP g := List.countP_mono_left fun b _ => fewer b
  simp only [List.countP_append, List.countP_cons, lost, had]
  simp only [Bool.false_eq_true, if_false, if_true]
  omega

/-- A round that widens a branch leaves fewer short ones. -/
theorem shortBranchCount_widenEach_lt (unsettled : c.outOfReach ≠ []) :
    (c.widenEach c.outOfReach).shortBranchCount < c.shortBranchCount := by
  obtain ⟨h, out⟩ := List.exists_mem_of_ne_nil _ unsettled
  obtain ⟨i, x, found, short, -, -⟩ := mem_outOfReach_iff.mp out
  have inside := get?_isSome_iff.mp (Option.isSome_iff_exists.mpr ⟨i, found⟩)
  rw [shortBranchCount_eq, shortBranchCount_eq, order_widenEach]
  refine countP_lt_countP (a := h) (fun g short => ?_) (Array.mem_toList_iff.mpr ((c.mem_order_iff h).mpr inside)) ?_ ?_
  · rw [get?_widenEach] at short
    split at short
    · cases there : c.get? g <;> simp [there, Instruction.isShortBranch_widened] at short
    · exact short
  · simp [get?_widenEach, out, found, Instruction.isShortBranch_widened]
  · simpa [found] using short

/-- The rounds come to an end within as many rounds as there are short branches. -/
theorem settles_widenRounds {fuel : Nat} (enough : c.shortBranchCount ≤ fuel) :
    c.Settles (widenRounds fuel c).1 (widenRounds fuel c).2 := by
  induction fuel generalizing c with
  | zero =>
    refine .done (by_contra fun unsettled => ?_)
    have := shortBranchCount_widenEach_lt unsettled
    omega
  | succ fuel ih =>
    unfold widenRounds
    split
    · rename_i settled
      exact .done settled
    · rename_i unsettled
      have fewer := shortBranchCount_widenEach_lt unsettled
      exact .round unsettled (ih (by omega))

theorem Settles.unique {d' : Code} {n' : Nat} (settles : c.Settles d n) (again : c.Settles d' n') :
    d = d' ∧ n = n' := by
  induction settles generalizing n' with
  | done settled =>
    cases again with
    | done _ => exact ⟨rfl, rfl⟩
    | round unsettled _ => exact absurd settled unsettled
  | round unsettled rest ih =>
    cases again with
    | done settled => exact absurd settled unsettled
    | round _ rest' =>
      obtain ⟨rfl, rfl⟩ := ih rest'
      exact ⟨rfl, rfl⟩

/-- Widening gives what the rounds come to. -/
theorem settles_iff : c.Settles d n ↔ c.widen = (d, n) := by
  have settles : c.Settles c.widen.1 c.widen.2 := settles_widenRounds (Nat.le_refl _)
  constructor
  · intro other
    obtain ⟨same, counts⟩ := settles.unique other
    exact Prod.ext same counts
  · intro widened
    rwa [widened] at settles

theorem Settles.wider (settles : c.Settles d n) : c.Wider d := by
  induction settles with
  | done settled => exact .refl _
  | round unsettled rest ih => exact (wider_widenEach _ _).trans ih

theorem Settles.reaches (settles : c.Settles d n) : d.Reaches := by
  induction settles with
  | done settled => exact reaches_iff.mpr settled
  | round unsettled rest ih => exact ih

theorem Settles.least (settles : c.Settles d n) (wider : c.Wider e) (reaches : e.Reaches) : d.Wider e := by
  induction settles with
  | done settled => exact wider
  | round unsettled rest ih => exact ih (wider.widenEach reaches)

/-- Short branches of code of which `d` holds the long forms, and no other instruction differs. -/
structure Replaces (c d : Code) (handles : List Handle) : Prop where
  once : handles.Nodup
  long : ∀ {h}, h ∈ handles → ∃ i form, c.get? h = some i ∧ i.opcode.longForm? = some form ∧
    d.get? h = some { i with opcode := form }
  same : ∀ {h}, h ∉ handles → d.get? h = c.get? h

theorem Settles.replaces (settles : c.Settles d n) : ∃ handles, handles.length = n ∧ c.Replaces d handles := by
  induction settles with
  | done settled => exact ⟨[], rfl, .nil, nofun, fun _ => rfl⟩
  | @round c d n unsettled rest ih =>
    obtain ⟨later, rfl, once, long, same⟩ := ih
    have short : ∀ {h}, h ∈ c.outOfReach → ∃ i form, c.get? h = some i ∧ i.opcode.longForm? = some form ∧
        (c.widenEach c.outOfReach).get? h = some { i with opcode := form } := fun {h} out => by
      obtain ⟨i, x, found, short, -, -⟩ := mem_outOfReach_iff.mp out
      obtain ⟨form, lengthened, widened⟩ := Instruction.exists_longForm short
      exact ⟨i, form, found, lengthened, by rw [get?_widenEach, if_pos out, found, Option.map_some, widened]⟩
    have apart : ∀ {h}, h ∈ c.outOfReach → h ∉ later := fun {h} out again => by
      obtain ⟨i, form, -, lengthened, widened⟩ := short out
      obtain ⟨j, form', found, further, -⟩ := long again
      cases found.symm.trans widened
      have short := Opcode.isSome_longForm? form
      rw [further, Opcode.not_isShortBranch_longForm lengthened] at short
      cases short
    refine ⟨c.outOfReach ++ later, List.length_append, ?_, fun {h} mem => ?_, fun {h} mem => ?_⟩
    · exact List.nodup_append.mpr ⟨c.nodup_outOfReach, once, fun h out g again same => apart out (same ▸ again)⟩
    · by_cases out : h ∈ c.outOfReach
      · obtain ⟨i, form, found, lengthened, widened⟩ := short out
        exact ⟨i, form, found, lengthened, (same (apart out)).trans widened⟩
      · obtain ⟨i, form, found, lengthened, widened⟩ := long ((List.mem_append.mp mem).resolve_left out)
        rw [get?_widenEach, if_neg out] at found
        exact ⟨i, form, found, lengthened, widened⟩
    · rw [List.mem_append, not_or] at mem
      rw [same mem.2, get?_widenEach, if_neg mem.1]

end Code

/-- Widening comes to an end. It replaces some short branches by their long forms and counts them, and leaves all else
    alone. Every short branch left reaches its target if that is in the code, and every branch that it replaces is long
    in each layout of the code of which the same is true. -/
theorem Body.widen_least (b : Body) : ∃ code count replaced,
    b.widen = ({ b with code }, count) ∧ b.code.Settles code count ∧
    code.order = b.code.order ∧ b.code.Replaces code replaced ∧ replaced.length = count ∧
    code.Reaches ∧
    ∀ {layout : Code}, b.code.Wider layout → layout.Reaches → ∀ h ∈ replaced, layout.get? h = code.get? h := by
  have settles : b.code.Settles b.code.widen.1 b.code.widen.2 := Code.settles_iff.mpr rfl
  obtain ⟨replaced, counted, replaces⟩ := settles.replaces
  refine ⟨_, _, replaced, rfl, settles, settles.wider.order, replaces, counted, settles.reaches, ?_⟩
  intro layout wider reaches h mem
  obtain ⟨i, form, found, lengthened, widened⟩ := replaces.long mem
  have long : ({ i with opcode := form } : Instruction).opcode.isShortBranch = false :=
    Opcode.not_isShortBranch_longForm lengthened
  have there := (settles.least wider reaches).instruction widened
  rw [Instruction.widened_of_long long, or_self] at there
  exact there.trans widened.symm

end AspectWeaving

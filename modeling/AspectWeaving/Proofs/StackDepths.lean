import AspectWeaving.Proofs.SplicedFrames

/-!
Stack depths of woven bodies. Where an activation of the old body keeps within its depth, whatever the calls that it makes come to
(`Program.Balanced`), one of the woven body keeps within the depth that the weave declares. Each of its frames goes along with one that
the old body may get to, or it is in a row that the weave has added, with no more on its stack than the row may have (`Weave.Tracks`).
-/
namespace AspectWeaving

/-- How an activation uses its stack: it keeps within a limit, has just the value to return where it returns, and an empty stack where it
    goes on behind a call that is left loose. It loads no slot without a value. -/
structure Program.Balanced (p : Program) (loose : Handle → Prop) (a : Activation) (limit : Nat) : Prop where
  height : ∀ {f s}, p.Attains loose a f s → f.stack.length ≤ limit
  exits : ∀ {f s}, p.Attains loose a f s → f.Exits → f.stack.length = a.returnsValue.toNat
  reads : ∀ {f s}, p.Attains loose a f s → f.Reads
  emptied : ∀ {f g s t}, p.Attains loose a f s → loose f.place → f.Resumes p s g t → g.stack = []

namespace Weave

variable {w : Weave} {p : Program} {loose : Handle → Prop} {place n k : Nat} {a b : Activation} {f g g' : Frame} {s t : Machine} {x : HeapRef} {first : Handle}
  {row : List Instruction} {i j : Instruction}

/-! ### Rows behind the old code -/

/-- The rows that are added behind the old code, and where each starts. -/
def tailRows (w : Weave) : List (Handle × List Instruction) :=
  [(w.places.epilogue, w.epilogue), (w.places.handler, w.handler), (w.places.returnBlock, w.returnBlock)]

/-- The epilogue lets control go on until it leaves. -/
theorem straight_epilogue (w : Weave) :
    ∃ front, w.epilogue = front ++ [⟨.leave, .target w.places.returnBlock⟩] ∧ ∀ i ∈ front, i.Straight := by
  obtain ⟨front, parts, quiet⟩ := w.epilogue_eq
  refine ⟨front ++ [⟨.callvirt, .method w.plan.onExit⟩], by rw [parts]; simp, ?_⟩
  intro i member
  rcases List.mem_append.mp member with before | call
  · exact (quiet i before).straight
  · obtain rfl := List.mem_singleton.mp call
    trivial

/-- The handler lets control go on until it raises its exception again. -/
theorem straight_handler (w : Weave) : ∃ front, w.handler = front ++ [⟨.rethrow, .none⟩] ∧ ∀ i ∈ front, i.Straight := by
  have load : ∀ slot, (Instruction.loadSlot slot).Straight := fun slot => (Instruction.quiet_loadSlot slot).straight
  have store : ∀ slot, (Instruction.storeSlot slot).Straight := fun slot => (Instruction.quiet_storeSlot slot).straight
  refine ⟨w.handler.dropLast, rfl, ?_⟩
  simp only [handler, WeavePlan.handler, List.dropLast_cons_cons, List.dropLast_singleton, List.forall_mem_cons, List.not_mem_nil,
    false_implies, implies_true, and_true, load, store, true_and]
  trivial

/-- The return block lets control go on until it returns. -/
theorem straight_returnBlock (w : Weave) : ∃ front, w.returnBlock = front ++ [⟨.ret, .none⟩] ∧ ∀ i ∈ front, i.Straight := by
  unfold returnBlock WeavePlan.returnBlock
  split
  · exact ⟨[], rfl, List.forall_mem_nil _⟩
  · exact ⟨[Instruction.loadSlot w.slots.result], rfl, by simpa using (Instruction.quiet_loadSlot _).straight⟩

/-- An instruction of a row that lets control go on until its end. -/
theorem straight_or_last {front : List Instruction} {last : Instruction} (straight : ∀ i ∈ front, i.Straight)
    (listed : (front ++ [last])[n]? = some i) :
    n + 1 < (front ++ [last]).length ∧ i.Straight ∨ n + 1 = (front ++ [last]).length ∧ i = last := by
  rw [List.length_append, List.length_singleton]
  by_cases early : n < front.length
  · rw [List.getElem?_append_left early] at listed
    exact .inl ⟨by omega, straight i (List.mem_of_getElem? listed)⟩
  · rw [List.getElem?_append_right (by omega), List.getElem?_singleton] at listed
    split at listed
    · exact .inr ⟨by omega, (Option.some.inj listed).symm⟩
    · cases listed

/-- All but the last instruction of a row let control go on, and the last one leaves for the code that returns, if it does not end all. -/
theorem tailRows_ends (added : (first, row) ∈ w.tailRows) (listed : row[n]? = some i) :
    n + 1 < row.length ∧ i.Straight ∨
      n + 1 = row.length ∧ (i = ⟨.leave, .target w.places.returnBlock⟩ ∨ i = ⟨.rethrow, .none⟩ ∨ i = ⟨.ret, .none⟩) := by
  obtain ⟨front, last, rfl, straight, ends⟩ : ∃ front last, row = front ++ [last] ∧ (∀ i ∈ front, i.Straight) ∧
      (last = ⟨.leave, .target w.places.returnBlock⟩ ∨ last = ⟨.rethrow, .none⟩ ∨ last = ⟨.ret, .none⟩) := by
    simp only [tailRows, List.mem_cons, Prod.mk.injEq, List.not_mem_nil, or_false] at added
    rcases added with ⟨-, rfl⟩ | ⟨-, rfl⟩ | ⟨-, rfl⟩
    · obtain ⟨front, parts, straight⟩ := w.straight_epilogue
      exact ⟨front, _, parts, straight, .inl rfl⟩
    · obtain ⟨front, parts, straight⟩ := w.straight_handler
      exact ⟨front, _, parts, straight, .inr (.inl rfl)⟩
    · obtain ⟨front, parts, straight⟩ := w.straight_returnBlock
      exact ⟨front, _, parts, straight, .inr (.inr rfl)⟩
  rcases straight_or_last straight listed with early | ⟨late, rfl⟩
  · exact .inl early
  · exact .inr ⟨late, ends⟩

/-- The rows stand behind the old code. -/
theorem Recasts.holds_tailRows (recasts : w.Recasts place a b) (added : (first, row) ∈ w.tailRows) :
    ∃ position, w.epiloguePosition ≤ position ∧ b.body.code.Holds position first.index row := by
  obtain ⟨spliced, splices, body⟩ := recasts.new
  have alike : spliced.code.Alike spliced.widen.1.code := Code.alike_widen spliced.code
  have tail : b.body.code.Holds w.epiloguePosition w.places.epilogue.index (w.epilogue ++ w.handler ++ w.returnBlock) := by
    rw [body]
    exact alike.lists splices.tail
  simp only [tailRows, List.mem_cons, Prod.mk.injEq, List.not_mem_nil, or_false] at added
  rcases added with ⟨rfl, rfl⟩ | ⟨rfl, rfl⟩ | ⟨rfl, rfl⟩
  · exact ⟨_, Nat.le_refl _, tail.left.left⟩
  · have holds := tail.left.right
    refine ⟨w.handlerPosition, Nat.le_add_right _ _, ?_⟩
    rw [w.places_handler]
    exact holds
  · have holds := tail.right
    rw [List.length_append, ← Nat.add_assoc, ← Nat.add_assoc] at holds
    refine ⟨w.returnPosition, ?_, ?_⟩
    · unfold returnPosition handlerPosition
      omega
    · rw [w.places_returnBlock, w.places_handler]
      exact holds

/-! ### Rows -/

/-- Control goes on in a row, which stays within its limit. -/
theorem climbs_passes {position limit h last : Nat} (holds : g.activation.body.code.Holds position first.index row)
    (stands : g.place = ⟨first.index + n⟩) (listed : row[n]? = some i) (straight : i.Straight)
    (climbs : p.Climbs k limit h (row.drop n) last) (low : g.stack.length ≤ h) (passes : g.Passes p s g' t) :
    g'.activation = g.activation ∧ g'.active = g.active ∧ g.activation.body.code.order[position + (n + 1)]? = some g'.place ∧
      (∀ m < k, g'.slots[m]? = g.slots[m]?) ∧ ∃ h', p.Climbs k limit h' (row.drop (n + 1)) last ∧ g'.stack.length ≤ h' := by
  obtain ⟨here, j, found, alike⟩ := holds n i listed
  rw [← stands] at found here
  obtain ⟨beside, ⟨activation, -, place, active⟩, ahead⟩ := passes.ahead found (alike.straight straight)
  obtain ⟨same, next⟩ := Frame.ahead_eq_ok ahead
  rw [activation, place] at next
  obtain ⟨m, there, behind⟩ := Activation.next_eq_ok next
  obtain rfl := Code.order_inj here there
  obtain ⟨bound, rfl⟩ := List.getElem?_eq_some_iff.mp listed
  rw [List.drop_eq_getElem_cons bound] at climbs
  cases climbs with
  | cons _ uses rest =>
    obtain ⟨enough, height, slots⟩ := uses g g' s t j found alike passes
    refine ⟨?_, ?_, behind, slots, _, rest, by omega⟩
    · rw [same]
      exact activation
    · rw [same]
      exact active

/-! ### Frames of woven bodies -/

/-- How a frame of a woven body stands. -/
inductive Tracks (w : Weave) (p : Program) (loose : Handle → Prop) (place : Nat) (a b : Activation) : Frame → Machine → Prop
  /-- It goes along with one that the old body may get to. -/
  | inside {f g : Frame} {s : Machine} (attains : p.Attains loose a f s) (mirrors : w.Mirrors a b f g) : Tracks w p loose place a b g s
  /-- It is in the prologue. The old body may get to the anchor on any machine, and if there is an instruction before the anchor, that is a
      loose call that it may come from. -/
  | entering {f g : Frame} {s : Machine} {n h : Nat} (arrives : ∀ u, p.Attains loose a f u) (anchor : f.place = w.plan.anchor)
      (empty : f.stack = []) (shares : w.Shares a b f g)
      (before : ∀ m, place = m + 1 → ∃ e u v, p.Attains loose a e u ∧ loose e.place ∧ e.Resumes p u f v ∧
        w.old.code.order[m]? = some e.place)
      (within : n < w.prologue.length) (stands : g.place = ⟨w.old.code.size + n⟩)
      (climbs : p.Climbs w.old.slots.size wovenMaxStack h (w.prologue.drop n) 0) (low : g.stack.length ≤ h) : Tracks w p loose place a b g s
  /-- It is in a row behind the old code. -/
  | behind {g : Frame} {s : Machine} {first : Handle} {row : List Instruction} {n h last : Nat} (added : (first, row) ∈ w.tailRows)
      (other : g.activation = b) (within : n < row.length) (stands : g.place = ⟨first.index + n⟩)
      (climbs : p.Climbs w.old.slots.size wovenMaxStack h (row.drop n) last) (low : g.stack.length ≤ h) : Tracks w p loose place a b g s

section Steps

variable (recasts : w.Recasts place a b) (calls : w.Calls p) (fetches : ∀ l ∈ w.plan.parameters, l.Fetches)
  (stores : w.plan.storesResult = (w.old.code.entries.any (·.2.opcode == .ret) && a.returnsValue))
  (chained : ∀ m, place = m + 1 → ∃ h i, w.old.code.order[m]? = some h ∧ loose h ∧ w.old.code.get? h = some i ∧ i.opcode = .call)
  (balanced : p.Balanced loose a w.old.maxStack)

theorem Recasts.room (recasts : w.Recasts place a b) : w.old.slots.size + 5 ≤ Body.maxSlots := by
  obtain ⟨spliced, splices, -⟩ := recasts.new
  have fits := splices.slotsFit
  rwa [length_slots] at fits

theorem Recasts.shares_start (recasts : w.Recasts place a b) (pending pending' : List Pending) (h h' : Handle) :
    w.Shares a b (.start a pending h) (.start b pending' h') := by
  obtain ⟨spliced, splices, body⟩ := recasts.new
  refine ⟨rfl, rfl, rfl, nofun, fun n inside => ?_⟩
  have slots : b.body.slots[n]? = w.old.slots[n]? := by
    have all : b.body.slots.toList = w.old.slots.toList ++ w.plan.slots := by
      rw [body]
      exact splices.slots
    rw [← Array.getElem?_toList, all, List.getElem?_append_left (by simpa using inside), Array.getElem?_toList]
  have init : b.body.initSlots = true := by
    rw [body]
    exact splices.initSlots
  obtain ⟨slot, here⟩ : ∃ slot, w.old.slots[n]? = some slot := ⟨_, Array.getElem?_eq_getElem inside⟩
  refine ⟨some (Value.initial slot.sig), ?_, ?_⟩
  · simp [Frame.start, Activation.slots, slots, here, init]
  · simp only [Frame.start, Activation.slots, recasts.old, Array.getElem?_map, here, Option.map_some]
    cases w.old.initSlots with
    | true => exact .inr rfl
    | false => exact .inl rfl

/-- An activation of the woven body starts in the prologue, or where the old body does. -/
theorem Recasts.tracks_start (recasts : w.Recasts place a b) (calls : w.Calls p) (fetches : ∀ l ∈ w.plan.parameters, l.Fetches)
    (starts : b.body.code.first? = some first) (pending : List Pending) (s : Machine) :
    w.Tracks p loose place a b (.start b pending first) s := by
  have anchor := recasts.anchor
  cases place with
  | zero =>
    have entry := recasts.order_prologue w.prologue_pos
    obtain rfl := Option.some.inj (starts.symm.trans entry)
    have first : a.body.code.first? = some w.plan.anchor := by
      rw [recasts.old]
      exact anchor
    exact .entering (f := .start a pending w.plan.anchor) (fun u => .starts first pending u) rfl rfl (recasts.shares_start _ _ _ _) nofun
      w.prologue_pos rfl (calls.climbs_prologue fetches recasts.room) (Nat.le_refl 0)
  | succ m =>
    have bound := (Array.getElem?_eq_some_iff.mp anchor).1
    have stands := Array.getElem?_eq_getElem (show 0 < w.old.code.order.size by omega)
    have same := recasts.order stands
    rw [shift, if_pos (Nat.succ_pos m)] at same
    obtain rfl := Option.some.inj (starts.symm.trans same)
    have first : a.body.code.first? = some w.old.code.order[0] := by
      rw [recasts.old]
      exact stands
    have live := (w.old.code.mem_order_iff _).mp (Array.mem_of_getElem? stands)
    exact .inside (.starts first pending s) ⟨recasts.shares_start _ _ _ _, live, rfl, rfl⟩

include recasts calls

/-- The clause of the weave starts with the exception on the stack. -/
theorem tracks_handler (other : g.activation = b) (place' : g.place = w.places.handler) (stack : g.stack = [.ref x]) :
    w.Tracks p loose place a b g t := by
  have added : (w.places.handler, w.handler) ∈ w.tailRows := by simp [tailRows]
  refine .behind added other (n := 0) (by rw [w.length_handler]; decide) place' (calls.climbs_handler recasts.room) ?_
  rw [stack]
  exact Nat.le_refl 1

/-- Behind the old code. -/
theorem goes_behind {h last : Nat} (added : (first, row) ∈ w.tailRows) (other : g.activation = b) (within : n < row.length)
    (stands : g.place = ⟨first.index + n⟩) (climbs : p.Climbs w.old.slots.size wovenMaxStack h (row.drop n) last)
    (low : g.stack.length ≤ h) (goes : g.Goes p s g' t) : w.Tracks p loose place a b g' t := by
  obtain ⟨position, late, holds⟩ := recasts.holds_tailRows added
  have listed := List.getElem?_eq_getElem within
  obtain ⟨here, j, found, alike⟩ := holds n _ listed
  cases goes with
  | passes passes =>
    rcases tailRows_ends added listed with ⟨more, straight⟩ | ⟨final, ends⟩
    · obtain ⟨activation, -, onward, -, h', climbs', low'⟩ :=
        climbs_passes (other.symm ▸ holds) stands listed straight climbs low passes
      rw [other] at onward
      have there := (holds (n + 1) _ (List.getElem?_eq_getElem more)).1
      rw [onward] at there
      exact .behind added (activation.trans other) more (Option.some.inj there) climbs' low'
    · have own : j.opcode.action ∈ [Action.leave, .exit, .rethrow, .unsupported] := by
        rw [← alike.action]
        rcases ends with same | same | same <;> rw [same] <;> simp [Opcode.action]
      obtain ⟨leaves, target, active, leads, rfl⟩ := passes.leaves (stands ▸ other.symm ▸ found) own
      rw [← alike.action] at leaves
      rw [← alike.target?] at leads
      rcases ends with same | same | same <;> rw [same] at leaves leads
      · obtain rfl := Option.some.inj leads
        obtain ⟨last', climbs'⟩ := w.climbs_returnBlock (p := p) (k := w.old.slots.size)
        have returns : (w.places.returnBlock, w.returnBlock) ∈ w.tailRows := by simp [tailRows]
        exact .behind returns other (n := 0) w.returnBlock_pos rfl climbs' (Nat.zero_le _)
      · cases leaves
      · cases leaves
  | catches raises caught =>
    rw [← stands] at here
    have outside : ∀ s : Span, s.stop ≤ w.old.code.size →
        ¬ (w.shift place s.start ≤ position + n ∧ position + n < w.shift place s.stop) := by
      intro s bound
      have low : w.shift place s.stop ≤ w.shift place w.old.code.size := shift_le_shift bound
      have inside := (Array.getElem?_eq_some_iff.mp recasts.anchor).1
      rw [w.old.code.size_order] at inside
      rw [shift_of_le (Nat.le_of_lt inside)] at low
      unfold epiloguePosition at late
      omega
    obtain ⟨place', stack⟩ := recasts.caught_outside other here outside caught
    exact tracks_handler recasts calls ((Frame.activation_of_catch? caught).trans other) place' stack

include fetches

/-- In the prologue. -/
theorem goes_entering {f : Frame} {h : Nat} (arrives : ∀ u, p.Attains loose a f u)
    (anchor : f.place = w.plan.anchor) (empty : f.stack = []) (shares : w.Shares a b f g)
    (before : ∀ m, place = m + 1 → ∃ e u v, p.Attains loose a e u ∧ loose e.place ∧ e.Resumes p u f v ∧
      w.old.code.order[m]? = some e.place)
    (within : n < w.prologue.length) (stands : g.place = ⟨w.old.code.size + n⟩)
    (climbs : p.Climbs w.old.slots.size wovenMaxStack h (w.prologue.drop n) 0) (low : g.stack.length ≤ h) (goes : g.Goes p s g' t) :
    w.Tracks p loose place a b g' t := by
  have listed := List.getElem?_eq_getElem within
  have here := recasts.order_prologue within
  cases goes with
  | passes passes =>
    have straight : w.prologue[n].Straight := by
      have fetched : w.plan.FetchesStraight := by
        intro l member i fetched
        rcases fetches l member i fetched with rfl | ⟨type, rfl⟩ <;> trivial
      exact w.prologue_straight fetched _ (List.getElem_mem within)
    have holds : g.activation.body.code.Holds place (⟨w.old.code.size⟩ : Handle).index w.prologue := by
      rw [shares.other]
      exact recasts.holds_prologue
    obtain ⟨activation, active, onward, slots, h', climbs', low'⟩ := climbs_passes holds stands listed straight climbs low passes
    have shares' : w.Shares a b f g' := shares.congr rfl rfl rfl activation active slots
    rw [shares.other] at onward
    by_cases more : n + 1 < w.prologue.length
    · have there := recasts.order_prologue more
      rw [onward] at there
      exact .entering arrives anchor empty shares' before more (Option.some.inj there) climbs' low'
    · have there := recasts.order recasts.anchor
      have last : w.shift place place = place + (n + 1) := by
        rw [shift_of_le (Nat.le_refl _)]
        omega
      rw [last, onward] at there
      have done : w.prologue.drop (n + 1) = [] := List.drop_eq_nil_of_le (by omega)
      rw [done] at climbs'
      cases climbs'
      have inside := (w.old.code.mem_order_iff _).mp (Array.mem_of_getElem? recasts.anchor)
      refine .inside (arrives t) ⟨shares', anchor ▸ inside, (Option.some.inj there).trans anchor.symm, ?_⟩
      rw [empty]
      exact List.length_eq_zero_iff.mp (Nat.le_zero.mp low')
  | catches raises caught =>
    rw [← stands] at here
    have activation : g'.activation = b := (Frame.activation_of_catch? caught).trans shares.other
    have takes : ∀ {y}, g'.place = w.places.handler ∧ g'.stack = [.ref y] → w.Tracks p loose place a b g' t := fun taken =>
      tracks_handler recasts calls activation taken.1 taken.2
    cases place with
    | zero =>
      refine takes (recasts.caught_outside shares.other here (fun s _ => ?_) caught)
      rw [shift_of_le (Nat.zero_le _)]
      omega
    | succ m =>
      obtain ⟨e, u, v, attains, left, resumes, before⟩ := before m rfl
      obtain ⟨activation', active, slots⟩ := resumes.calls
      have shares' : w.Shares a b e g := shares.congr activation'.symm active.symm slots.symm rfl rfl fun _ _ => rfl
      rcases shares'.caught recasts (aligned_prologue within) before here caught with ⟨f', caught', mirrors⟩ | taken
      · exact .inside (attains.catches left resumes caught') mirrors
      · exact takes taken

include stores chained balanced

/-- In the old code. -/
theorem goes_inside {f : Frame} (attains : p.Attains loose a f s) (mirrors : w.Mirrors a b f g) (goes : g.Goes p s g' t) :
    w.Tracks p loose place a b g' t := by
  obtain ⟨i, found⟩ := Option.isSome_iff_exists.mp (Code.get?_isSome_iff.mpr mirrors.live)
  obtain ⟨n, stands⟩ := Code.exists_position mirrors.live
  have here : f.activation.body.code.get? f.place = some i := by
    rw [mirrors.own, recasts.old]
    exact found
  by_cases ret : i.opcode = .ret
  · -- What was a return leads to the epilogue, with the value to return.
    have branch : g.activation.body.code.get? g.place = some ⟨.br, .target w.places.epilogue⟩ := by
      obtain ⟨j, there, becomes⟩ := recasts.becomes found
      rw [mirrors.other, mirrors.place, there]
      cases becomes with
      | same stays => exact absurd ret stays
      | widened long =>
        rw [ret] at long
        cases long
      | redirected => rfl
    obtain rfl := goes.of_branch branch
    have listed : w.old.code.entries.any (·.2.opcode == .ret) = true := by
      refine List.any_eq_true.mpr ⟨(f.place, i), List.mem_of_getElem? (Code.getElem?_entries_eq_some_iff.mpr ⟨stands, found⟩), ?_⟩
      simp [ret]
    have result := balanced.exits attains ⟨i, here, Opcode.action_eq_exit_iff.mpr ret⟩
    rw [listed, Bool.true_and] at stores
    have added : (w.places.epilogue, w.epilogue) ∈ w.tailRows := by simp [tailRows]
    refine .behind added mirrors.other (n := 0) w.epilogue_pos rfl (calls.climbs_epilogue recasts.room) ?_
    rw [mirrors.stack, result, stores]
  have reads : f.Reads := balanced.reads attains
  cases goes with
  | passes passes =>
    obtain ⟨f', passes', comes⟩ := mirrors.passes recasts found ret reads passes
    cases comes with
    | along mirrors' => exact .inside (attains.goes (.passes passes')) mirrors'
    | @entry n behind before shares anchor entry stack =>
      obtain ⟨h, call, before', left, found', opcode⟩ := chained n behind
      obtain rfl := Option.some.inj (before'.symm.trans before)
      obtain rfl := Option.some.inj (found'.symm.trans found)
      have resumes : f.Resumes p s f' t := Program.resumes_of_call ⟨false, by rw [opcode]; rfl⟩ here passes'
      have empty := balanced.emptied attains left resumes
      refine .entering (fun u => attains.resumes left resumes u) anchor empty shares (fun m same => ?_) w.prologue_pos
        entry (calls.climbs_prologue fetches recasts.room) (by rw [stack, empty]; exact Nat.le_refl 0)
      obtain rfl : m = n := by omega
      exact ⟨f, s, t, attains, left, resumes, before⟩
  | catches raises caught =>
    have raises' := mirrors.raises recasts found ret reads raises
    have there := recasts.order stands
    rw [← mirrors.place] at there
    rcases mirrors.toShares.caught recasts (w.aligned_shift place n) stands there caught with ⟨f', caught', mirrors'⟩ | ⟨place', stack⟩
    · exact .inside (attains.goes (.catches raises' caught')) mirrors'
    · exact tracks_handler recasts calls ((Frame.activation_of_catch? caught).trans mirrors.other) place' stack

/-- What an activation of the woven body may get to goes along with the old body or is in an added row. -/
theorem tracks_of_attains (attains : p.Attains (fun _ => False) b g s) : w.Tracks p loose place a b g s := by
  induction attains with
  | starts starts pending s => exact recasts.tracks_start calls fetches starts pending s
  | goes _ goes ih =>
    cases ih with
    | inside attains mirrors => exact goes_inside recasts calls fetches stores chained balanced attains mirrors goes
    | entering arrives anchor empty shares before within stands climbs low =>
      exact goes_entering recasts calls fetches arrives anchor empty shares before within stands climbs low goes
    | behind added other within stands climbs low => exact goes_behind recasts calls added other within stands climbs low goes
  | resumes _ left => cases left
  | catches _ left => cases left

theorem height_of_attains (attains : p.Attains (fun _ => False) b g s) : g.stack.length ≤ max w.old.maxStack wovenMaxStack := by
  cases tracks_of_attains recasts calls fetches stores chained balanced attains with
  | inside attains mirrors =>
    rw [mirrors.stack]
    exact Nat.le_trans (balanced.height attains) (Nat.le_max_left _ _)
  | entering _ _ _ _ _ _ _ climbs low => exact Nat.le_trans (Nat.le_trans low climbs.low) (Nat.le_max_right _ _)
  | behind _ _ _ _ climbs low => exact Nat.le_trans (Nat.le_trans low climbs.low) (Nat.le_max_right _ _)

end Steps

end Weave

/-- No instruction stands before the first. -/
theorem Code.next?_ne_first {c : Code} {h first : Handle} (starts : c.first? = some first) : c.next? h ≠ some first := by
  intro next
  obtain ⟨n, -, behind⟩ := Code.next?_eq_some_iff.mp next
  cases Code.order_inj starts behind

/-! ### Decorated methods -/

section Decorated

variable {r : Resolver} {policy : Policy} {d woven : MethodDef} {kind : DecoratorKind} {declaringType : Token}
  {before behind : Workspace} {old new : Body} {anchor : Handle} {p : Program} {rows : ImportTable} {w : Weave}
  {host : TypeName} {q : MethodQuery} {token : Token} {f g : Frame} {s t : Machine}

/-- A method of the library that is imported takes its arguments. -/
theorem Resolver.Imports.asks {count : Nat} (this : Bool) (imported : r.Imports host q rows token) (grows : rows.Grows p.module.imports)
    (room : p.module.imports.memberRefs.size ≤ ImportTable.maxRows) (asked : q.count = some count)
    (object : this = true → ∀ found, r.findLibraryMethod? host q = some found → found.2.hasThis = true) :
    p.Asks token (count + this.toNat) := by
  obtain ⟨row, found, there, here, -, parameters, receiver⟩ := (imported.mono grows).row room
  refine ⟨⟨row.name, row.parameters.length, row.hasThis⟩, ?_, ?_⟩
  · unfold Module.callShape
    rw [imported.table, if_neg (by decide), if_pos rfl, there]
    rfl
  · unfold CallShape.argumentCount
    rw [parameters count asked]
    cases this with
    | false => exact Nat.le_add_right _ _
    | true => rw [receiver, object rfl found here]

/-- What a decorated method calls takes what it puts on the stack. -/
theorem Decorates.calls (decorates : Decorates r d kind w rows woven new) (grows : rows.Grows p.module.imports)
    (room : p.module.imports.memberRefs.size ≤ ImportTable.maxRows)
    (onObjects : ∀ found, r.findLibraryMethod? WellKnown.methodBase getAttributesQuery = some found → found.2.hasThis = true)
    (acts : kind.ActsOnObjects p.module) (void : ∀ hook, p.ReturnsVoid (kind.hook hook)) : w.Calls p := by
  have planned := decorates.planned
  have asks : ∀ hook, p.Asks (kind.hook hook) (hook.parameters + 1) := by
    intro hook
    obtain ⟨shape, shaped, parameters, this⟩ := acts hook
    refine ⟨shape, shaped, ?_⟩
    unfold CallShape.argumentCount
    rw [parameters, this]
    exact Nat.le_refl _
  have silent : ∀ hook, p.Silent (kind.hook hook) := fun hook _ _ _ _ _ gives => (void hook).gives gives
  exact
    { getMethod := planned.getMethodFromHandle.asks false grows room rfl nofun
      getType := planned.getTypeFromHandle.asks false grows room rfl nofun
      getAttributes := planned.getCustomAttributes.asks true grows room rfl fun _ => onObjects
      onEntry := planned.onEntry ▸ asks .onEntry
      onExit := planned.onExit ▸ asks .onExit
      onException := planned.onException ▸ asks (.onException .null)
      entrySilent := planned.onEntry ▸ silent .onEntry
      exitSilent := planned.onExit ▸ silent .onExit
      exceptionSilent := planned.onException ▸ silent (.onException .null) }

/-- A frame that waits for a call has taken the arguments off its stack. -/
theorem Frame.Suspends.length_le (suspends : f.Suspends p s g) : g.stack.length ≤ f.stack.length := by
  obtain ⟨stack, e, t, depth, call, made, called, rfl⟩ := suspends
  obtain ⟨j, found, stepped⟩ := id made
  have height := (made.height found).2
  have none : j.gives = 0 := by
    rcases Frame.calls_of_call? made found called with ⟨dynamic, action⟩ | action <;> simp [Instruction.gives, action]
  dsimp only
  omega

/-- The stack of an activation of a decorated method keeps within the depth that the new body declares, if the activations of the old body
    keep within their own. Only the call of a constructor before the anchor is left loose, since the hook is called behind it. -/
theorem decorated_stack_suffices (body : d.body = some old) (valid : old.validate = .ok ())
    (anchored : findAnchor r before.imports old d.isConstructor = .ok anchor)
    (done : decorate r policy d kind declaringType before = (.ok woven, behind)) (grows : behind.imports.Grows p.module.imports)
    (room : p.module.imports.memberRefs.size ≤ ImportTable.maxRows)
    (onObjects : ∀ found, r.findLibraryMethod? WellKnown.methodBase getAttributesQuery = some found → found.2.hasThis = true)
    (acts : kind.ActsOnObjects p.module) (void : ∀ hook, p.ReturnsVoid (kind.hook hook)) :
    ∃ new, woven.body = some new ∧
      ∀ {arguments : List Value} {pending : List Pending} {first : Handle} {cs above callers : List Frame} {s t : Machine}
        {visits : List Visit} {top f : Frame}, p.Balanced (fun h => old.code.next? h = some anchor) (.ofMethod d old arguments) old.maxStack →
        new.code.first? = some first →
        p.Leads (.entering (.ofMethod woven new arguments) pending first cs s) visits (.ok (.running top callers) t) →
        (∀ v ∈ visits, v.Within cs) → top :: callers = above ++ f :: cs → f.stack.length ≤ new.maxStack := by
  obtain ⟨-, w, new, decorates, -, found⟩ := decorate_eq_ok done
  obtain rfl := Option.some.inj (body.symm.trans decorates.old)
  obtain rfl := Except.ok.inj (anchored.symm.trans found)
  obtain ⟨place, spliced, splices, spliced_eq⟩ := decorates.splices
  obtain ⟨old', new', body', woven', depth⟩ := maxStack_of_decorate done
  obtain rfl := Option.some.inj (body.symm.trans body')
  have has : woven.body = some new := by rw [decorates.woven]
  obtain rfl := Option.some.inj (has.symm.trans woven')
  refine ⟨new, has, fun {arguments pending first cs above callers s t visits top f} balanced starts leads within whole => ?_⟩
  have recasts : w.Recasts place (.ofMethod d w.old arguments) (.ofMethod woven new arguments) :=
    { old := rfl
      valid := Body.validate_eq_ok_iff.mp valid
      new := ⟨spliced, splices, spliced_eq⟩
      arguments := rfl
      returnsValue := by
        rw [decorates.woven]
        rfl }
  have chained : ∀ m, place = m + 1 → ∃ h i, w.old.code.order[m]? = some h ∧ w.old.code.next? h = some w.plan.anchor ∧
      w.old.code.get? h = some i ∧ i.opcode = .call := by
    rintro m rfl
    cases constructor : d.isConstructor with
    | false => cases Code.order_inj splices.anchor (decorates.planned.anchor constructor)
    | true =>
      rw [constructor] at anchored
      obtain ⟨front, call, anchorBehind⟩ := exists_anchorBehind_of_findAnchor anchored
      obtain ⟨stands, here, next⟩ := anchorBehind.order
      obtain rfl : m = front.length := Nat.succ.inj (Code.order_inj splices.anchor next)
      exact ⟨call.1, call.2, stands, Code.next?_eq_some_iff.mpr ⟨_, stands, next⟩, here, callsConstructor_opcode anchorBehind.calls⟩
  have calls := decorates.calls grows room onObjects acts void
  have height : ∀ {g u}, p.Attains (fun _ => False) (.ofMethod woven new arguments) g u → g.stack.length ≤ new.maxStack := by
    intro g u attains
    rw [depth]
    exact Weave.height_of_attains recasts calls decorates.planned.fetches decorates.planned.storesResult chained balanced attains
  obtain ⟨g, u, attains, rfl | suspends⟩ := leads.attains starts within whole
  · exact height attains
  · exact Nat.le_trans suspends.length_le (height attains)

end Decorated

namespace Sample

/-- A module under execution whose host answers the hooks, without a result. -/
def silently (m : Module) : Program where
  module := m
  hostMethods := [kind.onEntry, kind.onExit, kind.onException].map fun token => (token, fun _ => pure (.returned .void))

theorem silently_returnsVoid (m : Module) (hook : HookCall) : (silently m).ReturnsVoid (kind.hook hook) := by
  refine Program.returnsVoid_of_hosts ?_ (by cases hook <;> rfl)
  intro host among arguments h v h' gave
  obtain ⟨token, -, rfl⟩ := List.mem_map.mp among
  cases gave
  rfl

theorem silently_grows (m : Module) (rows : ImportTable) : rows.Grows (silently { m with imports := rows }).module.imports :=
  .refl rows

/-- The module with the woven method, under execution. -/
def echoing : Program := silently { module with imports := decorated.2.imports }

/-- An execution of the method. -/
def echoCall : Activation := .ofMethod echo (echo.body.get rfl) [.int32 7]

/-- What stands before the first instruction of the method, which is the anchor. -/
def beforeEcho (h : Handle) : Prop := (echo.body.get rfl).code.next? h = some ⟨0⟩

theorem echo_places {f : Frame} {s : Machine} (attains : echoing.Attains beforeEcho echoCall f s) :
    f.activation = echoCall ∧ (f.place = ⟨0⟩ ∧ f.stack = [] ∨ f.place = ⟨1⟩ ∧ f.stack = [.int32 7]) := by
  induction attains with
  | starts starts pending s =>
    cases starts
    exact ⟨rfl, .inl ⟨rfl, rfl⟩⟩
  | @goes f g s t _ goes ih =>
    obtain ⟨activation, here⟩ := ih
    cases goes with
    | catches _ caught =>
      obtain ⟨c, index, active, among, -⟩ := Frame.catch?_eq_some caught
      rw [activation] at among
      cases among
    | passes passes =>
      rcases here with ⟨place, stack⟩ | ⟨place, stack⟩
      · have found : f.activation.body.code.get? f.place = some ⟨.ldarg0, .none⟩ := by
          rw [activation, place]
          rfl
        have argument : f.activation.argument 0 = .ok (.int32 7) := by
          rw [activation]
          rfl
        have stepped : step echoing.module f ⟨.ldarg0, .none⟩ s.counted = .ok (.int32 7 :: f.stack, .next) s.counted :=
          Running.compute_bind_of_ok argument
        have makes : ∀ {stack e t}, f.Makes echoing s stack e t → stack = .int32 7 :: f.stack ∧ e = .next := by
          rintro stack e t ⟨i, here, made⟩
          obtain rfl := Option.some.inj (found.symm.trans here)
          cases stepped.symm.trans made
          exact ⟨rfl, rfl⟩
        cases passes with
        | next made ahead =>
          obtain ⟨rfl, -⟩ := makes made
          obtain ⟨same, next⟩ := Frame.ahead_eq_ok ahead
          have behind : f.activation.next f.place = .ok ⟨1⟩ := by
            rw [activation, place]
            rfl
          obtain place' : (⟨1⟩ : Handle) = g.place := Except.ok.inj (behind.symm.trans next)
          rw [same]
          exact ⟨activation, .inr ⟨place'.symm, by rw [stack]⟩⟩
        | store made => cases (makes made).2
        | jump made => cases (makes made).2
        | leave made => cases (makes made).2
        | resumes resumes =>
          obtain ⟨-, v, ⟨stack, e, u, frames, call, made, called, -⟩, -⟩ := resumes
          obtain ⟨-, rfl⟩ := makes made
          cases called
      · have found : f.activation.body.code.get? f.place = some ⟨.ret, .none⟩ := by
          rw [activation, place]
          rfl
        obtain ⟨leaves, -⟩ := passes.leaves found (by simp [Opcode.action])
        cases leaves
  | resumes _ left => exact absurd left (Code.next?_ne_first rfl)
  | catches _ left => exact absurd left (Code.next?_ne_first rfl)

theorem echo_balanced : echoing.Balanced beforeEcho echoCall 8 := by
  refine ⟨fun {f s} attains => ?_, fun {f s} attains exits => ?_, fun {f s} attains => ?_, fun {f g s t} attains left => ?_⟩
  · rcases echo_places attains with ⟨-, ⟨-, stack⟩ | ⟨-, stack⟩⟩ <;> simp [stack]
  · obtain ⟨i, found, exits⟩ := exits
    rcases echo_places attains with ⟨activation, ⟨place, stack⟩ | ⟨place, stack⟩⟩
    · rw [activation, place] at found
      obtain rfl : ⟨.ldarg0, .none⟩ = i := Option.some.inj found
      cases exits
    · rw [stack]
      rfl
  · intro i slot found named loads
    rcases echo_places attains with ⟨activation, ⟨place, stack⟩ | ⟨place, stack⟩⟩
    · rw [activation, place] at found
      obtain rfl : ⟨.ldarg0, .none⟩ = i := Option.some.inj found
      cases named
    · rw [activation, place] at found
      obtain rfl : ⟨.ret, .none⟩ = i := Option.some.inj found
      cases named
  · exact absurd left (Code.next?_ne_first rfl)

set_option maxRecDepth 100000 in
/-- The stack of the method with the decorator keeps within its depth. -/
theorem echo_suffices :
    echoing.Balanced beforeEcho echoCall 8 ∧
      ∃ woven new, decorated = (.ok woven, decorated.2) ∧ woven.body = some new ∧
        ∀ first visits top t, new.code.first? = some first →
          echoing.Leads (.entering (.ofMethod woven new [.int32 7]) [] first [] {}) visits (.ok (.running top []) t) →
          (∀ v ∈ visits, v.Within []) → top.stack.length ≤ new.maxStack := by
  obtain ⟨woven, done⟩ := exists_ok_fst (show decorated.1.isOk = true by decide +kernel)
  obtain ⟨_, valid⟩ := exists_ok (show (echo.body.get rfl).validate.isOk = true by decide +kernel)
  have room : echoing.module.imports.memberRefs.size ≤ ImportTable.maxRows := by decide +kernel
  have onObjects : ∀ found, (Resolver.ofModule module).findLibraryMethod? WellKnown.methodBase getAttributesQuery = some found →
      found.2.hasThis = true := by
    intro found here
    have known : ((Resolver.ofModule module).findLibraryMethod? WellKnown.methodBase getAttributesQuery).map (·.2.hasThis) = some true := by
      decide +kernel
    rw [here] at known
    exact Option.some.inj known
  obtain ⟨new, body, keeps⟩ := decorated_stack_suffices (p := echoing) rfl valid rfl done (silently_grows _ _) room onObjects
    (DecoratorKind.actsOnObjects_of_shapes (by decide +kernel)) (silently_returnsVoid _)
  refine ⟨echo_balanced, woven, new, done, body, fun first visits top t starts leads within => ?_⟩
  have whole : [top] = [] ++ [top] := rfl
  exact keeps echo_balanced starts leads within whole

/-- Code that loads a slot before it has a value, and then puts five values on the stack. -/
def idles : Body where
  code := .ofList ([⟨.ldloc0, .none⟩, ⟨.pop, .none⟩] ++ List.replicate 5 ⟨.ldcI4_0, .none⟩ ++ List.replicate 5 ⟨.pop, .none⟩ ++ [⟨.ret, .none⟩])
  slots := #[{ name := none, sig := .int32 }]
  maxStack := 1

/-- A method of that code. -/
def idle : MethodDef where
  name := "Idle"
  modifiers := { isStatic := true }
  body := some idles
  attributes := [{ type := .ofParts Token.typeDef 1 }]
  token := .ofParts Token.methodDef 4

/-- The module of the decorator and of the type with the method. -/
def idleModule : Module :=
  let start : Module := { name := "Sample", library := .standard, imports := rows }
  ((start.addType logger).1.addType { name := ⟨"Sample", "Host"⟩, methods := [idle.toMethod] }).1

/-- The method with the decorator around it, and the rows there are then. -/
def idleDecorated : Except Fault MethodDef × Workspace :=
  decorate (.ofModule idleModule) {} idle kind (.ofParts Token.typeDef 2) { imports := rows }

/-- The module with the woven method, under execution. -/
def idling : Program := silently { idleModule with imports := idleDecorated.2.imports }

/-- How many values an execution of the woven method has on its stack after so many instructions, and how many it declares. -/
def idleDepth (count : Nat) : Option (Nat × Nat) := do
  let woven ← idleDecorated.1.toOption
  let new ← woven.body
  let first ← new.code.first?
  match (idling.trail count (.entering (.ofMethod woven new []) [] first [] {})).2 with
  | .ok (.running f []) _ => some (f.stack.length, new.maxStack)
  | _ => none

/-- An execution of the method does not get past its first instruction. -/
theorem idle_places {p : Program} {loose : Handle → Prop} {arguments : List Value} {f : Frame} {s : Machine}
    (attains : p.Attains loose (.ofMethod idle idles arguments) f s) : ∃ pending, f = .start (.ofMethod idle idles arguments) pending ⟨0⟩ := by
  have stuck : ∀ {pending s stack e t}, ¬ (Frame.start (.ofMethod idle idles arguments) pending ⟨0⟩).Makes p s stack e t := by
    rintro pending s stack e t ⟨i, found, stepped⟩
    obtain rfl : ⟨.ldloc0, .none⟩ = i := Option.some.inj found
    have unset : (Frame.start (.ofMethod idle idles arguments) pending ⟨0⟩).slot 0 = .error (.uninitializedLocal 0) := by
      simp [Frame.slot, Frame.start, Activation.slots, Activation.ofMethod, idles]
    have failed : step p.module (Frame.start (.ofMethod idle idles arguments) pending ⟨0⟩) ⟨.ldloc0, .none⟩ s.counted =
        .error (.execution (.uninitializedLocal 0)) s.counted := Running.compute_bind_of_error unset
    cases failed.symm.trans stepped
  refine attains.eq_start rfl rfl fun passes => ?_
  cases passes with
  | next made => exact stuck made
  | store made => exact stuck made
  | jump made => exact stuck made
  | leave made => exact stuck made
  | resumes resumes =>
    obtain ⟨-, v, ⟨stack, e, u, frames, call, made, -⟩, -⟩ := resumes
    exact stuck made

set_option maxRecDepth 100000 in
/-- No execution of the method has any value on its stack, nor returns. But the slots of the woven method start with values, so the
    execution goes on, and has more values than the woven method declares. -/
theorem idle_exceeds :
    idles.validate.isOk ∧ kind.ActsOnObjects idling.module ∧ (∀ hook, idling.ReturnsVoid (kind.hook hook)) ∧
      (∀ loose arguments f s, idling.Attains loose (.ofMethod idle idles arguments) f s → f.stack.length ≤ idles.maxStack ∧ ¬ f.Exits) ∧
      idleDepth 27 = some (5, 4) := by
  refine ⟨by decide +kernel, DecoratorKind.actsOnObjects_of_shapes (by decide +kernel), silently_returnsVoid _, ?_, by decide +kernel⟩
  intro loose arguments f s attains
  obtain ⟨pending, rfl⟩ := idle_places attains
  refine ⟨Nat.zero_le _, ?_⟩
  rintro ⟨i, found, exits⟩
  obtain rfl : ⟨.ldloc0, .none⟩ = i := Option.some.inj found
  cases exits

end Sample

end AspectWeaving

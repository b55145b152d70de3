import AspectWeaving.Proofs.ChainedCalls
import AspectWeaving.Proofs.StackRows
import AspectWeaving.Proofs.WidenedRuns

/-!
Frames of spliced bodies. A frame at an instruction of the old code in a woven body has a counterpart in the old body, wherever the
prologue has gone: it stands at the same instruction with the same stack, and its slots have the values that the old ones have
(`Weave.Mirrors`). What the instruction makes of the one it makes of the other (`Weave.Recasts.step_eq`), unless it returns; they come to
the same instruction behind it (`Weave.Mirrors.passes`), but at the place of the prologue, and to the same old clause
(`Weave.Recasts.caught`), but where the clause of the weave takes the exception.
-/
namespace AspectWeaving

/-- In a valid body there is an instruction behind one that control goes on behind. -/
theorem Body.Valid.behind {b : Body} {n : Nat} {h : Handle} {i : Instruction} (valid : b.Valid) (stands : b.code.order[n]? = some h)
    (found : b.code.get? h = some i) (falls : i.opcode.fallsThrough = true) : n + 1 < b.code.size := by
  obtain ⟨last, j, ends, there, stops⟩ := valid.last
  have bound := (Array.getElem?_eq_some_iff.mp stands).1
  rw [b.code.size_order] at bound
  by_contra none
  have same : b.code.size - 1 = n := by omega
  rw [Code.last?, Array.back?_eq_getElem?, b.code.size_order, same, stands] at ends
  cases ends
  cases found.symm.trans there
  cases falls.symm.trans stops

/-- A frame does not load a slot that has no value. -/
def Frame.Reads (f : Frame) : Prop :=
  ∀ {i : Instruction} {slot : UInt16}, f.activation.body.code.get? f.place = some i → i.slot? = some slot →
    (∃ fixed, i.opcode.action = .loadLocal fixed) → f.slots[slot.toNat]? ≠ some none

namespace Weave

/-- An execution of what a weave makes of a body, beside one of the body itself on the same arguments. -/
structure Recasts (w : Weave) (place : Nat) (a b : Activation) : Prop where
  old : a.body = w.old
  valid : w.old.Valid
  new : ∃ spliced, w.Splices place spliced ∧ b.body = spliced.widen.1
  arguments : b.arguments = a.arguments
  returnsValue : b.returnsValue = a.returnsValue

/-- A place of a woven body is behind the same bounds of old regions as a place of the old one. -/
def Aligned (w : Weave) (place n q : Nat) : Prop := ∀ m, w.shift place m ≤ q ↔ m ≤ n

variable {w : Weave} {place n q k index : Nat} {a b : Activation} {h : Handle} {i j : Instruction}

theorem aligned_shift (w : Weave) (place n : Nat) : w.Aligned place n (w.shift place n) := by
  intro m
  unfold shift
  split <;> split <;> omega

/-- All of the prologue is behind the same bounds as the instruction before it. -/
theorem aligned_prologue (inside : k < w.prologue.length) : w.Aligned (n + 1) n (n + 1 + k) := by
  intro m
  unfold shift
  split <;> omega

namespace Recasts

/-! ### Regions -/

theorem order (recasts : w.Recasts place a b) (stands : w.old.code.order[n]? = some h) :
    b.body.code.order[w.shift place n]? = some h := by
  obtain ⟨spliced, splices, body⟩ := recasts.new
  rw [body]
  have alike : spliced.code.Alike spliced.widen.1.code := Code.alike_widen spliced.code
  exact alike.stands (splices.order stands)

theorem becomes (recasts : w.Recasts place a b) (found : w.old.code.get? h = some i) :
    ∃ j, b.body.code.get? h = some j ∧ i.Becomes w.places.epilogue j := by
  obtain ⟨spliced, splices, body⟩ := recasts.new
  rw [body]
  exact splices.becomes found

theorem handlers (recasts : w.Recasts place a b) :
    b.body.handlers = w.old.handlers.map (·.closedAt w.places.epilogue) ++ [w.clause] := by
  obtain ⟨spliced, splices, body⟩ := recasts.new
  rw [body]
  exact splices.handlers

theorem live (recasts : w.Recasts place a b) : b.body.Live := by
  obtain ⟨spliced, splices, body⟩ := recasts.new
  have alike : spliced.code.Alike spliced.widen.1.code := Code.alike_widen spliced.code
  intro c member
  rw [recasts.handlers] at member
  have encloses : ∃ guarded handling, spliced.Encloses c guarded handling := by
    rcases List.mem_append.mp member with before | last
    · obtain ⟨old, listed, rfl⟩ := List.mem_map.mp before
      obtain ⟨guarded, handling, encloses⟩ := recasts.valid.clause listed
      exact ⟨_, _, splices.encloses encloses⟩
    · rw [List.mem_singleton.mp last]
      exact ⟨_, _, splices.encloses_clause⟩
  obtain ⟨guarded, handling, encloses⟩ := encloses
  rw [body]
  exact ⟨guarded, handling, (Body.span?_of_alike alike _).trans encloses.guarded_eq,
    (Body.span?_of_alike alike _).trans encloses.handling_eq⟩

theorem span? {r : Region} {s : Span} (recasts : w.Recasts place a b) (found : w.old.span? r = some s) :
    b.body.span? ⟨r.start, some (r.stop.getD w.places.epilogue)⟩ = some ⟨w.shift place s.start, w.shift place s.stop⟩ := by
  obtain ⟨spliced, splices, body⟩ := recasts.new
  have alike : spliced.code.Alike spliced.widen.1.code := Code.alike_widen spliced.code
  rw [body]
  exact (Body.span?_of_alike alike _).trans (splices.span? found)

/-- An old region holds the same places. -/
theorem regionHolds {r : Region} {s : Span} (recasts : w.Recasts place a b) (aligned : w.Aligned place n q)
    (found : w.old.span? r = some s) :
    b.regionHolds ⟨r.start, some (r.stop.getD w.places.epilogue)⟩ q = a.regionHolds r n := by
  have same : Span.contains ⟨w.shift place s.start, w.shift place s.stop⟩ q = s.contains n := by
    have starts := aligned s.start
    have stops := aligned s.stop
    rw [Bool.eq_iff_iff]
    simp only [Span.contains, Bool.and_eq_true, decide_eq_true_eq]
    omega
  have old : a.body.span? r = some s := by
    rw [recasts.old]
    exact found
  rw [Activation.regionHolds_eq (recasts.span? found), Activation.regionHolds_eq old, same]

theorem handlesAt (recasts : w.Recasts place a b) (aligned : w.Aligned place n q) (inside : index < w.old.handlers.length) :
    b.handlesAt q index = a.handlesAt n index := by
  have own := List.getElem?_eq_getElem inside
  obtain ⟨guarded, handling, encloses⟩ := recasts.valid.clause (List.getElem_mem inside)
  have listed : b.body.handlers[index]? = some (w.old.handlers[index].closedAt w.places.epilogue) := by
    rw [recasts.handlers, List.getElem?_append_left (by simpa using inside), List.getElem?_map, own]
    rfl
  unfold Activation.handlesAt
  rw [listed, recasts.old, own]
  exact recasts.regionHolds aligned encloses.handling_eq

theorem stillActive {active : List ActiveClause} (recasts : w.Recasts place a b) (aligned : w.Aligned place n q)
    (clauses : ∀ c ∈ active, c.index < w.old.handlers.length) : Frame.stillActive b q active = Frame.stillActive a n active := by
  induction active with
  | nil => rfl
  | cons c rest ih =>
    obtain ⟨first, others⟩ := List.forall_mem_cons.mp clauses
    simp only [Frame.stillActive, recasts.handlesAt aligned first, ih others]

theorem catches {m : Module} {heap : Heap} {x : HeapRef} {c : Handler} (recasts : w.Recasts place a b) (aligned : w.Aligned place n q)
    (member : c ∈ w.old.handlers) :
    Frame.catches m heap b q x (c.closedAt w.places.epilogue) = Frame.catches m heap a n x c := by
  obtain ⟨guarded, handling, encloses⟩ := recasts.valid.clause member
  unfold Frame.catches
  simp only [Handler.closedAt, recasts.regionHolds aligned encloses.guarded_eq]
  rfl

/-- A clause that is found is an old one that is found in the old body as well, or one of the others. -/
theorem findClause {m : Module} {heap : Heap} {x : HeapRef} {clauses others : List Handler} {d : Handler} (recasts : w.Recasts place a b)
    (aligned : w.Aligned place n q) (among : ∀ c ∈ clauses, c ∈ w.old.handlers)
    (found : Frame.findClause m heap b q x k (clauses.map (·.closedAt w.places.epilogue) ++ others) = .ok (some (index, d))) :
    (∃ c, d = c.closedAt w.places.epilogue ∧ Frame.findClause m heap a n x k clauses = .ok (some (index, c))) ∨ d ∈ others := by
  induction clauses generalizing k with
  | nil => exact .inr (Frame.mem_of_findClause found)
  | cons c rest ih =>
    obtain ⟨first, later⟩ := List.forall_mem_cons.mp among
    rw [List.map_cons, List.cons_append, Frame.findClause, recasts.catches aligned first] at found
    rw [Frame.findClause]
    obtain ⟨taken, decided, found⟩ := bind_eq_ok_iff.mp found
    rw [decided]
    cases taken with
    | true =>
      cases found
      exact .inl ⟨c, rfl, rfl⟩
    | false => exact ih later found

/-- Where no old region holds a place, no old clause takes an exception. -/
theorem declines {m : Module} {heap : Heap} {x : HeapRef} (recasts : w.Recasts place a b)
    (outside : ∀ s : Span, s.stop ≤ w.old.code.size → ¬ (w.shift place s.start ≤ q ∧ q < w.shift place s.stop)) :
    ∀ c ∈ w.old.handlers.map (·.closedAt w.places.epilogue), Frame.Declines m heap b q x c := by
  intro c member
  obtain ⟨old, listed, rfl⟩ := List.mem_map.mp member
  obtain ⟨guarded, handling, encloses⟩ := recasts.valid.clause listed
  refine Frame.declines_outside (recasts.span? encloses.guarded_eq) ?_
  have apart := outside guarded (Body.span?_stop_le encloses.guarded_eq)
  simpa [Span.contains] using apart

end Recasts

/-! ### Frames -/

/-- A frame of a woven body beside one of the old body: they have the same clauses under way, and where a slot of the old one has a
    value the slot of the other one has it as well. -/
structure Shares (w : Weave) (a b : Activation) (f g : Frame) : Prop where
  own : f.activation = a
  other : g.activation = b
  active : g.active = f.active
  clauses : ∀ c ∈ f.active, c.index < w.old.handlers.length
  slots : ∀ n < w.old.slots.size, ∃ v, g.slots[n]? = some v ∧ (f.slots[n]? = some none ∨ f.slots[n]? = some v)

/-- They stand at the same instruction with the same stack. -/
structure Mirrors (w : Weave) (a b : Activation) (f g : Frame) : Prop extends Shares w a b f g where
  live : f.place.index < w.old.code.size
  place : g.place = f.place
  stack : g.stack = f.stack

variable {p : Program} {f f' g g' : Frame} {s t : Machine} {m : Module} {heap : Heap} {x : HeapRef} {stack : List Value} {e : Effect}

namespace Shares

/-- Neither the places and the stacks matter nor the slots that are not in the old body. -/
theorem congr (shares : w.Shares a b f g) (own : f'.activation = f.activation) (active : f'.active = f.active)
    (slots : f'.slots = f.slots) (other : g'.activation = g.activation) (active' : g'.active = g.active)
    (slots' : ∀ n < w.old.slots.size, g'.slots[n]? = g.slots[n]?) : w.Shares a b f' g' where
  own := own.trans shares.own
  other := other.trans shares.other
  active := by rw [active', active, shares.active]
  clauses := by
    rw [active]
    exact shares.clauses
  slots n inside := by
    rw [slots, slots' n inside]
    exact shares.slots n inside

theorem store (shares : w.Shares a b f g) (slot : Nat) (value : Value) : w.Shares a b (f.store slot value) (g.store slot value) where
  own := shares.own
  other := shares.other
  active := shares.active
  clauses := shares.clauses
  slots n inside := by
    obtain ⟨v, there, here⟩ := shares.slots n inside
    by_cases same : slot = n
    · subst same
      have bound := (Array.getElem?_eq_some_iff.mp there).1
      have bound' : slot < f.slots.size := by rcases here with here | here <;> exact (Array.getElem?_eq_some_iff.mp here).1
      exact ⟨some value, Array.getElem?_setIfInBounds_self_of_lt bound, .inr (Array.getElem?_setIfInBounds_self_of_lt bound')⟩
    · simp only [Frame.store, Array.getElem?_setIfInBounds_ne same]
      exact ⟨v, there, here⟩

end Shares

namespace Mirrors

theorem withStack (mirrors : w.Mirrors a b f g) (stack : List Value) : w.Mirrors a b { f with stack } { g with stack } :=
  ⟨mirrors.toShares.congr rfl rfl rfl rfl rfl fun _ _ => rfl, mirrors.live, mirrors.place, rfl⟩

theorem store (mirrors : w.Mirrors a b f g) (slot : Nat) (value : Value) :
    w.Mirrors a b (f.store slot value) (g.store slot value) :=
  ⟨mirrors.toShares.store slot value, mirrors.live, mirrors.place, mirrors.stack⟩

theorem receive (mirrors : w.Mirrors a b f g) (value : Value) : w.Mirrors a b (f.receive value) (g.receive value) := by
  cases value with
  | void => exact mirrors
  | _ =>
    refine ⟨mirrors.toShares.congr rfl rfl rfl rfl rfl fun _ _ => rfl, mirrors.live, mirrors.place, ?_⟩
    simp only [Frame.receive, mirrors.stack]

end Mirrors

/-- An old instruction does the same to both frames. -/
theorem Shares.step_eq (shares : w.Shares a b f g) (recasts : w.Recasts place a b) (stack : g.stack = f.stack)
    (fits : i.Fits w.old.slots.size w.old.code.size)
    (reads : ∀ {slot : UInt16}, i.slot? = some slot → (∃ fixed, i.opcode.action = .loadLocal fixed) → f.slots[slot.toNat]? ≠ some none)
    (m : Module) : step m g i = step m f i := by
  have argument : ∀ index, g.activation.argument index = f.activation.argument index := by
    intro index
    unfold Activation.argument
    rw [shares.own, shares.other, recasts.arguments]
  have returnsValue : g.activation.returnsValue = f.activation.returnsValue := by
    rw [shares.own, shares.other, recasts.returnsValue]
  cases action : i.opcode.action with
  | loadLocal fixed =>
    simp only [step, action, stack]
    cases named : i.slot? with
    | none => rfl
    | some slot =>
      obtain ⟨v, there, here⟩ := shares.slots slot.toNat (fits.slot named)
      have filled := reads named ⟨fixed, action⟩
      have same : g.slot slot.toNat = f.slot slot.toNat := by
        obtain ⟨value, rfl⟩ : ∃ value, v = some value := by
          rcases here with here | here
          · exact absurd here filled
          · exact Option.ne_none_iff_exists'.mp fun none => filled (none ▸ here)
        rw [Frame.slot_of_some there, Frame.slot_of_some (here.resolve_left filled)]
      simp only [Instruction.require, pure_bind, same]
  | storeLocal fixed =>
    simp only [step, action, stack]
    cases named : i.slot? with
    | none => rfl
    | some slot =>
      obtain ⟨v, there, here⟩ := shares.slots slot.toNat (fits.slot named)
      have bound := (Array.getElem?_eq_some_iff.mp there).1
      have bound' : slot.toNat < f.slots.size := by rcases here with here | here <;> exact (Array.getElem?_eq_some_iff.mp here).1
      simp only [Instruction.require, pure_bind, Frame.checkSlot, if_pos bound, if_pos bound']
  | rethrow => simp only [step, action, stack, shares.active]
  | _ => simp only [step, action, stack, argument, returnsValue]

namespace Mirrors

/-- What stands in the new body for an instruction that does not return does the same as that. -/
theorem step_eq (mirrors : w.Mirrors a b f g) (recasts : w.Recasts place a b) (found : w.old.code.get? f.place = some i)
    (stays : i.opcode ≠ .ret) (reads : f.Reads) (there : b.body.code.get? g.place = some j) (m : Module) :
    step m g j = step m f i := by
  have here : f.activation.body.code.get? f.place = some i := by
    rw [mirrors.own, recasts.old]
    exact found
  have same : step m g i = step m f i :=
    mirrors.toShares.step_eq recasts mirrors.stack (recasts.valid.instruction found) (reads here) m
  obtain ⟨k, stands, becomes⟩ := recasts.becomes found
  rw [mirrors.place, stands] at there
  obtain rfl := Option.some.inj there
  cases becomes with
  | same => exact same
  | redirected ret => exact absurd ret stays
  | @widened form long =>
    have widened : i.widened = { i with opcode := form } := by
      unfold Instruction.widened
      rw [long]
    rw [← widened, Instruction.step_widened]
    exact same

theorem makes (mirrors : w.Mirrors a b f g) (recasts : w.Recasts place a b) (found : w.old.code.get? f.place = some i)
    (stays : i.opcode ≠ .ret) (reads : f.Reads) (made : g.Makes p s stack e t) : f.Makes p s stack e t := by
  obtain ⟨j, there, stepped⟩ := made
  rw [mirrors.other] at there
  refine ⟨i, ?_, (mirrors.step_eq recasts found stays reads there p.module).symm ▸ stepped⟩
  rw [mirrors.own, recasts.old]
  exact found

/-- What is raised in the woven body is raised in the old one. -/
theorem raises (mirrors : w.Mirrors a b f g) (recasts : w.Recasts place a b) (found : w.old.code.get? f.place = some i)
    (stays : i.opcode ≠ .ret) (reads : f.Reads) (raises : g.Raises p s x t) : f.Raises p s x t := by
  cases raises with
  | thrown made => exact .thrown (mirrors.makes recasts found stays reads made)
  | called calls =>
    obtain ⟨stack, e, u, frames, call, made, called, gives, -⟩ := calls
    exact .called ⟨stack, e, u, frames, call, mirrors.makes recasts found stays reads made, called, gives, rfl⟩
  | faulted there failed seen heap =>
    rw [mirrors.other] at there
    have here : f.activation.body.code.get? f.place = some i := by
      rw [mirrors.own, recasts.old]
      exact found
    exact .faulted here (mirrors.step_eq recasts found stays reads there p.module ▸ failed) seen heap

end Mirrors

/-! ### The way on -/

/-- The frames have gone on to the same instruction, or from the one before the place of the prologue to the anchor and into the
    prologue. -/
inductive Comes (w : Weave) (place : Nat) (a b : Activation) (last : Handle) (f g : Frame) : Prop
  | along (mirrors : w.Mirrors a b f g) : Comes w place a b last f g
  | entry {n : Nat} (behind : place = n + 1) (stands : w.old.code.order[n]? = some last) (shares : w.Shares a b f g)
      (anchor : f.place = w.plan.anchor) (entry : g.place = ⟨w.old.code.size⟩) (stack : g.stack = f.stack) : Comes w place a b last f g

theorem Recasts.anchor (recasts : w.Recasts place a b) : w.old.code.order[place]? = some w.plan.anchor := by
  obtain ⟨spliced, splices, -⟩ := recasts.new
  exact splices.anchor

theorem Recasts.holds_prologue (recasts : w.Recasts place a b) : b.body.code.Holds place w.old.code.size w.prologue := by
  obtain ⟨spliced, splices, body⟩ := recasts.new
  have alike : spliced.code.Alike spliced.widen.1.code := Code.alike_widen spliced.code
  rw [body]
  exact alike.lists splices.prologue

theorem Recasts.order_prologue (recasts : w.Recasts place a b) (inside : n < w.prologue.length) :
    b.body.code.order[place + n]? = some ⟨w.old.code.size + n⟩ :=
  (recasts.holds_prologue n _ (List.getElem?_eq_getElem inside)).1

/-- Behind an instruction that control goes on behind. -/
theorem Mirrors.ahead (mirrors : w.Mirrors a b f g) (recasts : w.Recasts place a b) (falls : f.Falls) (goes : g.ahead = .ok g') :
    ∃ f', f.ahead = .ok f' ∧ w.Comes place a b f.place f' g' := by
  obtain ⟨i, found, falls⟩ := falls
  rw [mirrors.own, recasts.old] at found
  obtain ⟨n, stands⟩ := Code.exists_position mirrors.live
  have more := recasts.valid.behind stands found falls
  obtain ⟨h, behind⟩ : ∃ h, w.old.code.order[n + 1]? = some h := by
    rw [← w.old.code.size_order] at more
    exact ⟨_, Array.getElem?_eq_getElem more⟩
  have onward : f.ahead = .ok { f with place := h } := by
    rw [Frame.ahead, mirrors.own, Activation.next_eq (by rw [recasts.old]; exact stands) (by rw [recasts.old]; exact behind)]
    rfl
  obtain ⟨same, next⟩ := Frame.ahead_eq_ok goes
  rw [mirrors.other, mirrors.place] at next
  obtain ⟨k, here, there⟩ := Activation.next_eq_ok next
  obtain rfl := Code.order_inj here (recasts.order stands)
  have shares : w.Shares a b { f with place := h } g' := by
    rw [same]
    exact mirrors.toShares.congr rfl rfl rfl rfl rfl fun _ _ => rfl
  have stack : g'.stack = f.stack := by
    rw [same]
    exact mirrors.stack
  refine ⟨_, onward, ?_⟩
  by_cases last : n + 1 = place
  · have first := recasts.order_prologue w.prologue_pos
    rw [Weave.shift, if_pos (by omega), last] at there
    rw [Nat.add_zero, there] at first
    have anchor := recasts.anchor
    rw [← last, behind] at anchor
    exact .entry last.symm stands shares (Option.some.inj anchor) (Option.some.inj first) stack
  · have following := recasts.order behind
    have beside : w.shift place (n + 1) = w.shift place n + 1 := by
      unfold Weave.shift
      split <;> split <;> omega
    rw [beside, there] at following
    have inside := (w.old.code.mem_order_iff _).mp (Array.mem_of_getElem? behind)
    exact .along ⟨shares, inside, Option.some.inj following, stack⟩

theorem Mirrors.leave {target : Handle} (mirrors : w.Mirrors a b f g) (recasts : w.Recasts place a b)
    (inside : target.index < w.old.code.size) (left : g.leave target = .ok g') :
    ∃ f', f.leave target = .ok f' ∧ w.Mirrors a b f' g' := by
  obtain ⟨n, stands⟩ := Code.exists_position inside
  have old : a.body.code.order[n]? = some target := by
    rw [recasts.old]
    exact stands
  have still := Frame.stillActive_eq (recasts.old.symm ▸ recasts.valid.live) old f.active
  have still' := recasts.stillActive (w.aligned_shift place n) mirrors.clauses
  rw [still] at still'
  unfold Frame.leave at left ⊢
  rw [mirrors.other, mirrors.active, Activation.position_eq (recasts.order stands)] at left
  rw [mirrors.own, Activation.position_eq old]
  simp only [bind, Except.bind, still, still'] at left ⊢
  cases left
  refine ⟨_, rfl, ⟨rfl, rfl, rfl, fun c member => ?_, mirrors.slots⟩, inside, rfl, rfl⟩
  exact mirrors.clauses c (List.mem_filter.mp member).1

/-- An exception enters the same old clause, or the clause of the weave takes it. -/
theorem Shares.caught (shares : w.Shares a b f g) (recasts : w.Recasts place a b) (aligned : w.Aligned place n q)
    (stands : w.old.code.order[n]? = some f.place) (there : b.body.code.order[q]? = some g.place)
    (caught : g.catch? m heap x = .ok (some g')) :
    (∃ f', f.catch? m heap x = .ok (some f') ∧ w.Mirrors a b f' g') ∨ g'.place = w.places.handler ∧ g'.stack = [.ref x] := by
  have old : a.body.code.order[n]? = some f.place := by
    rw [recasts.old]
    exact stands
  have still := Frame.stillActive_eq (recasts.old.symm ▸ recasts.valid.live) old f.active
  have still' := recasts.stillActive aligned shares.clauses
  rw [recasts.old] at still
  rw [still] at still'
  unfold Frame.catch? at caught ⊢
  rw [shares.other, shares.active] at caught
  rw [shares.own]
  simp only [Activation.position_eq there, still', recasts.handlers, Except.mapError, bind, Except.bind] at caught
  simp only [Activation.position_eq old, still, recasts.old, Except.mapError, bind, Except.bind]
  cases looked : Frame.findClause m heap b q x 0 (w.old.handlers.map (·.closedAt w.places.epilogue) ++ [w.clause]) with
  | error fault =>
    rw [looked] at caught
    cases caught
  | ok found =>
    rw [looked] at caught
    cases found with
    | none => cases caught
    | some entry =>
      obtain ⟨index, d⟩ := entry
      cases caught
      rcases recasts.findClause aligned (fun _ => id) looked with ⟨c, rfl, found⟩ | last
      · have listed := (Frame.getElem?_of_findClause found).2
        obtain ⟨guarded, handling, encloses⟩ := recasts.valid.clause (List.mem_of_getElem? listed)
        have start := (Body.span?_eq_some_iff.mp encloses.handling_eq).1
        have live := (w.old.code.mem_order_iff _).mp (Array.mem_of_getElem? start)
        rw [found]
        refine .inl ⟨_, rfl, ⟨rfl, rfl, rfl, fun d member => ?_, shares.slots⟩, live, rfl, rfl⟩
        rcases List.mem_cons.mp member with rfl | earlier
        · exact (List.getElem?_eq_some_iff.mp listed).1
        · exact shares.clauses d (List.mem_filter.mp earlier).1
      · obtain rfl := List.mem_singleton.mp last
        exact .inr ⟨rfl, rfl⟩

/-- Where no old region holds a place, only the clause of the weave takes an exception. -/
theorem Recasts.caught_outside (recasts : w.Recasts place a b) (other : g.activation = b)
    (there : b.body.code.order[q]? = some g.place)
    (outside : ∀ s : Span, s.stop ≤ w.old.code.size → ¬ (w.shift place s.start ≤ q ∧ q < w.shift place s.stop))
    (caught : g.catch? m heap x = .ok (some g')) : g'.place = w.places.handler ∧ g'.stack = [.ref x] := by
  obtain ⟨active, found⟩ := Frame.catch?_eq m heap x (other.symm ▸ recasts.live) (other.symm ▸ there)
  rw [other, recasts.handlers, Frame.findClause_append 0 (recasts.declines outside)] at found
  rw [caught] at found
  cases looked : Frame.findClause m heap b q x (0 + (w.old.handlers.map (·.closedAt w.places.epilogue)).length) [w.clause] with
  | error fault =>
    rw [looked] at found
    cases found
  | ok entry? =>
    rw [looked] at found
    cases entry? with
    | none => cases found
    | some entry =>
      obtain ⟨index, d⟩ := entry
      obtain rfl := List.mem_singleton.mp (Frame.mem_of_findClause looked)
      cases found
      exact ⟨rfl, rfl⟩

/-- What an old instruction that does not return comes to without an exception. -/
theorem Mirrors.passes (mirrors : w.Mirrors a b f g) (recasts : w.Recasts place a b) (found : w.old.code.get? f.place = some i)
    (stays : i.opcode ≠ .ret) (reads : f.Reads) (passes : g.Passes p s g' t) :
    ∃ f', f.Passes p s f' t ∧ w.Comes place a b f.place f' g' := by
  have here : f.activation.body.code.get? f.place = some i := by
    rw [mirrors.own, recasts.old]
    exact found
  have makes : ∀ {stack e t}, g.Makes p s stack e t → f.Makes p s stack e t := mirrors.makes recasts found stays reads
  cases passes with
  | @next stack g' t made ahead =>
    obtain ⟨f', goes, comes⟩ := (mirrors.withStack stack).ahead recasts ((makes made).falls here (.inl rfl)) ahead
    exact ⟨f', .next (makes made) goes, comes⟩
  | @store stack slot value g' t made ahead =>
    have falls := (makes made).falls here (.inr (.inl ⟨slot, value, rfl⟩))
    obtain ⟨f', goes, comes⟩ := ((mirrors.withStack stack).store slot value).ahead recasts falls ahead
    exact ⟨f', .store (makes made) goes, comes⟩
  | @jump stack target t made =>
    have leads := ((makes made).makes here).1
    have inside := (recasts.valid.instruction found).target leads
    exact ⟨_, .jump (makes made), .along ⟨mirrors.toShares.congr rfl rfl rfl rfl rfl fun _ _ => rfl, inside, rfl, rfl⟩⟩
  | @leave stack target g' t made left =>
    have leads := ((makes made).makes here).1
    obtain ⟨f', left', mirrors'⟩ :=
      (mirrors.withStack stack).leave recasts ((recasts.valid.instruction found).target leads) left
    exact ⟨f', .leave (makes made) left', .along mirrors'⟩
  | @resumes g' t resumes =>
    obtain ⟨-, v, ⟨stack, e, u, frames, call, made, called, gives, rfl⟩, ahead⟩ := resumes
    have falls := (makes made).falls here (.inr (.inr ⟨_, Option.isSome_of_eq_some called⟩))
    have place := (Frame.beside_receive { f with stack } v).place
    have falls' : (Frame.receive { f with stack } v).Falls := ((f.beside_stack stack).trans (Frame.beside_receive _ v)).falls falls
    obtain ⟨f', goes, comes⟩ := ((mirrors.withStack stack).receive v).ahead recasts falls' ahead
    rw [place] at comes
    exact ⟨f', .resumes ⟨_, v, ⟨stack, e, u, frames, call, makes made, called, gives, rfl⟩, goes⟩, comes⟩

end Weave

end AspectWeaving

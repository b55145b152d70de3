import AspectWeaving.Proofs.Layers
import AspectWeaving.Proofs.Turns

/-!
Passages. Each hook of a layer is called at the end of a row of instructions that load the attribute and then what
the hook is told (`Weave.passage`). Nothing of what is loaded gets below the attribute (`Program.after_load`), so at
the call all parameters of the hook lie above it (`Weave.depth_passage`).
-/
namespace AspectWeaving

/-- Code that calls a hook on the attribute: after the attribute other values are loaded. -/
structure Passage where
  first : Nat
  front : List Instruction
  loads : List Instruction
  behind : List Instruction

/-- The place at which the attribute is loaded. -/
def Passage.start (q : Passage) : Nat := q.first + q.front.length

/-- How many values lie above the attribute when some of the others are loaded. -/
def Passage.depth (q : Passage) (n : Nat) : Nat := (q.loads.take n).countP (·.opcode != .box)

/-- An instruction loads a slot, or it boxes the value on top. -/
def Instruction.Loads (i : Instruction) : Prop := (∃ slot, i = .loadSlot slot) ∨ ∃ type, i = ⟨.box, .type type⟩

/-- The number of parameters of a hook. -/
def HookCall.parameters : HookCall → Nat
  | .onEntry => 2
  | .onExit | .onException _ => 3

/-- The method that a decorator has for a hook. -/
def DecoratorKind.hook (kind : DecoratorKind) : HookCall → Token
  | .onEntry => kind.onEntry
  | .onExit => kind.onExit
  | .onException _ => kind.onException

/-- The hooks of a decorator are called on objects, with all that they are told. -/
def DecoratorKind.ActsOnObjects (kind : DecoratorKind) (m : Module) : Prop :=
  ∀ hook, ∃ shape, m.callShape (kind.hook hook) = .ok shape ∧ shape.parameters = hook.parameters ∧ shape.hasThis = true

/-- By the numbers of parameters, and whether the hooks are called on objects. -/
theorem DecoratorKind.actsOnObjects_of_shapes {kind : DecoratorKind} {m : Module}
    (shapes : ∀ e ∈ [(kind.onEntry, 2), (kind.onExit, 3), (kind.onException, 3)],
      (m.callShape e.1).toOption.map (fun shape => (shape.parameters, shape.hasThis)) = some (e.2, true)) : kind.ActsOnObjects m := by
  intro hook
  have shaped := shapes (kind.hook hook, hook.parameters) (by cases hook <;> simp [DecoratorKind.hook, HookCall.parameters])
  cases found : m.callShape (kind.hook hook) with
  | error cause => simp [found, Except.toOption] at shaped
  | ok shape => exact ⟨shape, rfl, by simpa [found, Except.toOption] using shaped⟩

namespace Weave

open Instruction (loadSlot storeSlot)

variable {w : Weave} {hook hook' : HookCall} {b : Body} {f : Frame}

/-- The code that calls a hook. -/
def passage (w : Weave) : HookCall → Passage
  | .onEntry =>
    { first := w.old.code.size
      front := w.prologue.take (w.prologue.length - 4)
      loads := [loadSlot w.slots.method, loadSlot w.slots.arguments]
      behind := [⟨.callvirt, .method w.plan.onEntry⟩] }
  | .onExit =>
    { first := w.places.epilogue.index
      front := if w.plan.storesResult then [storeSlot w.slots.result] else []
      loads := loadSlot w.slots.result :: (w.plan.resultBox.map fun type => (⟨.box, .type type⟩ : Instruction)).toList ++
        [loadSlot w.slots.method, loadSlot w.slots.arguments]
      behind := [⟨.callvirt, .method w.plan.onExit⟩, ⟨.leave, .target w.places.returnBlock⟩] }
  | .onException _ =>
    { first := w.places.handler.index
      front := [storeSlot w.slots.exception]
      loads := [loadSlot w.slots.exception, loadSlot w.slots.method, loadSlot w.slots.arguments]
      behind := [⟨.callvirt, .method w.plan.onException⟩, ⟨.rethrow, .none⟩] }

/-- The row that the code of a hook stands in. -/
def passageRow (w : Weave) (hook : HookCall) : List Instruction :=
  (w.passage hook).front ++ loadSlot w.slots.attr :: ((w.passage hook).loads ++ (w.passage hook).behind)

theorem passageRow_onEntry (w : Weave) : w.passageRow .onEntry = w.prologue := by
  obtain ⟨front, parts⟩ : ∃ front, w.prologue = front ++ [loadSlot w.slots.attr, loadSlot w.slots.method,
      loadSlot w.slots.arguments, ⟨.callvirt, .method w.plan.onEntry⟩] := ⟨_, rfl⟩
  simp [passageRow, passage, parts]

theorem passageRow_onExit (w : Weave) : w.passageRow .onExit = w.epilogue := by
  simp [passageRow, passage, epilogue, WeavePlan.epilogue]

theorem passageRow_onException (w : Weave) (x : Value) : w.passageRow (.onException x) = w.handler := by
  simp [passageRow, passage, handler, WeavePlan.handler]

theorem Layer.seals (layer : w.Layer b) (hook : HookCall) : b.Seals (w.passage hook).first (w.passageRow hook) := by
  cases hook with
  | onEntry => exact w.passageRow_onEntry ▸ layer.prologue
  | onExit => exact w.passageRow_onExit ▸ layer.epilogue
  | onException x => exact w.passageRow_onException x ▸ layer.handler

theorem loads_passage (w : Weave) (hook : HookCall) : ∀ i ∈ (w.passage hook).loads, i.Loads := by
  have slot : ∀ index, (loadSlot index).Loads := fun index => .inl ⟨index, rfl⟩
  cases hook with
  | onEntry => simpa [passage] using ⟨slot _, slot _⟩
  | onException x => simpa [passage] using ⟨slot _, slot _, slot _⟩
  | onExit =>
    simp only [passage, List.forall_mem_append, List.forall_mem_cons, List.not_mem_nil, false_implies, implies_true, and_true]
    refine ⟨⟨slot _, fun i boxed => ?_⟩, slot _, slot _⟩
    obtain ⟨type, -, rfl⟩ := Option.map_eq_some_iff.mp (Option.mem_toList.mp boxed)
    exact .inr ⟨type, rfl⟩

theorem bne_box_loadSlot (slot : UInt16) : ((loadSlot slot).opcode != .box) = true := by
  obtain ⟨⟨fixed, action⟩, -⟩ := Instruction.loadSlot_spec slot
  rw [bne_iff_ne]
  intro same
  rw [same] at action
  cases action

theorem passage_inside (w : Weave) (hook : HookCall) {n : Nat} (within : n ≤ (w.passage hook).loads.length) :
    (w.passage hook).front.length + n + 1 < (w.passageRow hook).length := by
  have behind : 0 < (w.passage hook).behind.length := by cases hook <;> simp [passage]
  simp only [passageRow, List.length_append, List.length_cons]
  omega

/-- In the end all parameters of the hook lie above the attribute. -/
theorem depth_passage (w : Weave) (hook : HookCall) :
    (w.passage hook).depth (w.passage hook).loads.length = hook.parameters := by
  unfold Passage.depth
  rw [List.take_length]
  cases hook with
  | onEntry => simp [passage, HookCall.parameters, bne_box_loadSlot]
  | onException x => simp [passage, HookCall.parameters, bne_box_loadSlot]
  | onExit => cases w.plan.resultBox <;> simp [passage, HookCall.parameters, bne_box_loadSlot]

/-- A hook is called behind what is loaded for it. -/
theorem place_of_hookCall? (called : w.hookCall? f = some hook) :
    f.place = ⟨(w.passage hook).start + ((w.passage hook).loads.length + 1)⟩ := by
  have entry := congrArg List.length w.passageRow_onEntry
  have exits := congrArg List.length w.passageRow_onExit
  have lengths : ∀ hook, (w.passageRow hook).length =
      (w.passage hook).front.length + ((w.passage hook).loads.length + (w.passage hook).behind.length + 1) := by
    intro hook
    simp [passageRow]
  rw [lengths] at entry exits
  rw [w.hookCall?_eq] at called
  rw [Handle.eq_iff]
  unfold Passage.start
  split at called
  · obtain rfl := Option.some.inj called
    have behind : (w.passage .onEntry).behind.length = 1 := rfl
    have first : (w.passage .onEntry).first = w.old.code.size := rfl
    simp only
    omega
  · split at called
    · obtain rfl := Option.some.inj called
      have behind : (w.passage .onExit).behind.length = 2 := rfl
      have first : (w.passage .onExit).first = w.old.code.size + w.prologue.length := rfl
      simp only
      omega
    · split at called
      · obtain rfl := Option.some.inj called
        rename_i at_
        rw [at_, ← index_epilogue, ← index_handler]
        rfl
      · cases called

theorem CallsHooks.fetch {kind : DecoratorKind} (calls : w.CallsHooks kind b) (called : w.hookCall? f = some hook) :
    b.code.get? f.place = some ⟨.callvirt, .method (kind.hook hook)⟩ := by
  unfold hookCall? at called
  split at called
  · rename_i place
    cases called
    exact place ▸ calls.onEntry
  · split at called
    · rename_i place
      cases called
      exact place ▸ calls.onExit
    · split at called
      · rename_i place
        cases called
        exact place ▸ calls.onException
      · cases called

theorem length_prologue (w : Weave) : 20 ≤ w.prologue.length := by
  simp only [prologue, WeavePlan.prologue, List.length_append, List.length_cons, List.length_nil]
  omega

theorem behind_start (w : Weave) (hook : HookCall) : w.old.code.size + 16 ≤ (w.passage hook).start := by
  have long := w.length_prologue
  have exits := w.index_epilogue
  have handles := w.index_handler
  cases hook with
  | onEntry =>
    simp only [passage, Passage.start, List.length_take]
    omega
  | onExit =>
    simp only [passage, Passage.start]
    omega
  | onException x =>
    simp only [passage, Passage.start]
    omega

/-- A place at which something is loaded belongs to the call of one hook. -/
theorem passage_inj {hook hook' : HookCall} {n n' : Nat} (within : n ≤ (w.passage hook).loads.length)
    (within' : n' ≤ (w.passage hook').loads.length) (same : (w.passage hook).start + n = (w.passage hook').start + n') :
    w.passage hook = w.passage hook' ∧ n = n' := by
  have inside := w.passage_inside hook within
  have inside' := w.passage_inside hook' within'
  have exits := w.index_epilogue
  have handles := w.index_handler
  have entry := congrArg List.length w.passageRow_onEntry
  have exit := congrArg List.length w.passageRow_onExit
  have one : w.passage hook = w.passage hook' := by
    unfold Passage.start at same
    cases hook <;> cases hook' <;> first
      | rfl
      | exfalso
        simp only [passage] at same inside inside'
        omega
  rw [one] at same
  exact ⟨one, by omega⟩

end Weave

theorem Passage.depth_succ {q : Passage} {n : Nat} {i : Instruction} (listed : q.loads[n]? = some i) :
    q.depth (n + 1) = q.depth n + if i.opcode != .box then 1 else 0 := by
  unfold Passage.depth
  rw [List.take_add_one, listed, List.countP_append]
  simp [List.countP_cons]

/-- A value on the stack stays below what is loaded. -/
theorem Program.after_load {p : Program} {f : Frame} {cs : List Frame} {s : Machine} {i j : Instruction} {v : Value} {d : Nat}
    (found : f.activation.body.code.get? f.place = some j) (alike : i.Alike j) (loads : i.Loads)
    (there : f.stack[d]? = some v) (plain : v = .null ∨ ∃ x, v = .ref x) :
    (∃ g t, f.Beside g ∧ g.slots = f.slots ∧ g.stack[d + if i.opcode != .box then 1 else 0]? = some v ∧
        p.after f cs s = goAhead g cs t) ∨ p.Faults f cs (p.after f cs s) := by
  rcases loads with ⟨slot, rfl⟩ | ⟨type, rfl⟩
  · cases held : f.slot slot.toNat with
    | ok value =>
      refine .inl ⟨{ f with stack := value :: f.stack }, _, f.beside_stack _, rfl, ?_, after_loadSlot found alike held cs s⟩
      rw [if_pos (Weave.bne_box_loadSlot slot)]
      exact there
    | error cause =>
      rw [after_eq p cs found, Instruction.step_loadSlot alike, held]
      exact .inr (p.faults_raise f f.stack cs (.execution cause) _)
  · obtain ⟨top, rest, stack⟩ : ∃ top rest, f.stack = top :: rest := by
      cases stack : f.stack with
      | nil => simp [stack] at there
      | cons top rest => exact ⟨top, rest, rfl⟩
    have own : j.opcode.action = .box := alike.action.symm.trans rfl
    have stepped : ∀ {value : Value} {t : Machine},
        boxValue top { s with executed := s.executed + 1 } = .ok value t →
          step p.module f j { s with executed := s.executed + 1 } = .ok (value :: rest, .next) t := by
      intro value t boxed
      unfold step
      simp only [own, stack]
      exact (Running.bind_of_ok rfl).trans (Running.bind_of_ok boxed)
    have goes : ∀ {value : Value} {t : Machine},
        boxValue top { s with executed := s.executed + 1 } = .ok value t → (value :: rest)[d]? = some v →
          ∃ g t, f.Beside g ∧ g.slots = f.slots ∧ g.stack[d]? = some v ∧ p.after f cs s = goAhead g cs t :=
      fun boxed still => ⟨{ f with stack := _ :: rest }, _, f.beside_stack _, rfl, still, after_next cs found (stepped boxed)⟩
    rw [stack] at there
    left
    cases top with
    | null | ref => exact goes rfl there
    | _ =>
      refine goes rfl ?_
      -- The value is no object, so it is not the one on top.
      cases d with
      | succ d => exact there
      | zero =>
        obtain rfl := Option.some.inj there
        rcases plain with none | ⟨x, same⟩
        · cases none
        · cases same

end AspectWeaving

import AspectWeaving.Proofs.OpenRuns
import AspectWeaving.Proofs.Passages
import AspectWeaving.Proofs.StackUse

/-!
Rows of instructions on the evaluation stack. How high the stack may get in a row is added up from what its instructions take and give
(`Program.Climbs`). The rows that a weave adds start and end with an empty stack, and never need more than what the weave asks for
(`Weave.Calls.climbs_prologue` and those that follow it), if its hooks give nothing.
-/
namespace AspectWeaving

open Instruction (loadSlot storeSlot loadArgument pushInt32)

variable {p : Program} {f g : Frame} {s t : Machine} {i j : Instruction} {stack : List Value} {e : Effect} {k limit h : Nat}

namespace Frame

theorem Makes.makes (made : f.Makes p s stack e t) (found : f.activation.body.code.get? f.place = some j) : j.Makes e := by
  obtain ⟨i, here, stepped⟩ := made
  obtain rfl := Option.some.inj (found.symm.trans here)
  exact ensures_step p.module f j _ _ _ stepped

theorem Makes.height (made : f.Makes p s stack e t) (found : f.activation.body.code.get? f.place = some j) :
    j.takes p.module f.activation.returnsValue ≤ f.stack.length ∧
      stack.length + j.takes p.module f.activation.returnsValue = f.stack.length + j.gives := by
  obtain ⟨i, here, stepped⟩ := made
  obtain rfl := Option.some.inj (found.symm.trans here)
  exact ensures_height p.module f j _ _ _ stepped

theorem ahead_eq_ok (goes : f.ahead = .ok g) : g = { f with place := g.place } ∧ f.activation.next f.place = .ok g.place := by
  unfold ahead at goes
  cases next : f.activation.next f.place with
  | error cause =>
    rw [next] at goes
    cases goes
  | ok place =>
    rw [next] at goes
    cases goes
    exact ⟨rfl, rfl⟩

theorem length_receive_le (f : Frame) (v : Value) : (f.receive v).stack.length ≤ f.stack.length + 1 := by
  cases v <;> simp [receive]

theorem slots_receive (f : Frame) (v : Value) : (f.receive v).slots = f.slots := by cases v <;> rfl

theorem calls_of_call? {call : Running Progress} {depth : Nat} (made : f.Makes p s stack e t)
    (found : f.activation.body.code.get? f.place = some j) (calls : e.call? p depth = some call) :
    (∃ dynamic, j.opcode.action = .call dynamic) ∨ j.opcode.action = .construct := by
  have makes := made.makes found
  cases e with
  | call target arguments dynamic => exact .inl ⟨dynamic, makes⟩
  | construct target arguments => exact .inr makes
  | _ => cases calls

/-- Control goes on behind an instruction that neither leads elsewhere nor throws. -/
theorem Makes.falls (made : f.Makes p s stack e t) (found : f.activation.body.code.get? f.place = some j)
    (onward : e = .next ∨ (∃ slot value, e = .store slot value) ∨ ∃ depth, (e.call? p depth).isSome) : f.Falls := by
  have makes := made.makes found
  obtain ⟨action, same, goes⟩ : ∃ action, j.opcode.action = action ∧
      action ∉ [Action.jump, .leave, .exit, .throw, .rethrow, .unsupported] := by
    cases e with
    | next =>
      obtain ⟨jump, leave, exit, throw, rethrow, -, -⟩ := makes
      have supported : j.opcode.action ≠ .unsupported := by
        intro none
        obtain ⟨i, here, stepped⟩ := made
        obtain rfl := Option.some.inj (found.symm.trans here)
        simp only [step, none] at stepped
        cases stepped
      exact ⟨_, rfl, by simp [jump, leave, exit, throw, rethrow, supported]⟩
    | store slot value =>
      obtain ⟨fixed, stores⟩ := makes
      exact ⟨_, stores, by simp⟩
    | call target arguments dynamic => exact ⟨_, makes, by simp⟩
    | construct target arguments => exact ⟨_, makes, by simp⟩
    | _ => simp [Effect.call?] at onward
  exact ⟨j, found, Opcode.fallsThrough_of_action same goes⟩

/-- Behind an instruction that control goes on behind, a frame is ahead of where it was. -/
theorem Passes.ahead (passes : f.Passes p s g t) (found : f.activation.body.code.get? f.place = some j) (straight : j.Straight) :
    ∃ h, f.Beside h ∧ h.ahead = .ok g := by
  unfold Instruction.Straight at straight
  cases passes with
  | next made ahead => exact ⟨_, f.beside_stack _, ahead⟩
  | store made ahead => exact ⟨_, (f.beside_stack _).trans (Frame.beside_store _ _ _), ahead⟩
  | jump made => rcases made.makes found with ⟨-, action | ⟨truth, action⟩ | ⟨relation, action⟩⟩ <;> simp [action] at straight
  | leave made left => simp [(made.makes found).2] at straight
  | resumes resumes =>
    obtain ⟨-, v, ⟨stack, -, -, -, -, -, -, -, rfl⟩, ahead⟩ := resumes
    exact ⟨_, (f.beside_stack stack).trans (Frame.beside_receive _ v), ahead⟩

/-- From a branch a frame goes where that leads. -/
theorem Goes.of_branch {target : Handle} (goes : f.Goes p s g t)
    (branch : f.activation.body.code.get? f.place = some ⟨.br, .target target⟩) : g = { f with place := target } := by
  have steps : ∀ u, step p.module f ⟨.br, .target target⟩ u = .ok (f.stack, .jump target) u := fun _ => rfl
  have makes : ∀ {stack e u}, f.Makes p s stack e u → stack = f.stack ∧ e = .jump target := by
    rintro stack e u ⟨j, there, stepped⟩
    obtain rfl := Option.some.inj (branch.symm.trans there)
    cases (steps s.counted).symm.trans stepped
    exact ⟨rfl, rfl⟩
  cases goes with
  | passes passes =>
    cases passes with
    | jump made =>
      obtain ⟨rfl, same⟩ := makes made
      cases same
      rfl
    | next made => cases (makes made).2
    | store made => cases (makes made).2
    | leave made => cases (makes made).2
    | resumes resumes =>
      obtain ⟨-, v, ⟨stack, e, u, frames, call, made, called, -, -⟩, -⟩ := resumes
      obtain ⟨-, rfl⟩ := makes made
      cases called
  | catches raises =>
    cases raises with
    | thrown made => cases (makes made).2
    | faulted there failed =>
      obtain rfl := Option.some.inj (branch.symm.trans there)
      cases (steps s.counted).symm.trans failed
    | called calls =>
      obtain ⟨stack, e, u, frames, call, made, called, -, -⟩ := calls
      obtain ⟨-, rfl⟩ := makes made
      cases called

/-- A frame that goes on with what a call gives has its slots and its clauses still. -/
theorem Resumes.calls (resumes : f.Resumes p s g t) : g.activation = f.activation ∧ g.active = f.active ∧ g.slots = f.slots := by
  obtain ⟨-, v, ⟨stack, -, -, -, -, -, -, -, rfl⟩, ahead⟩ := resumes
  obtain ⟨same, -⟩ := ahead_eq_ok ahead
  have beside := (f.beside_stack stack).trans (Frame.beside_receive _ v)
  rw [same]
  exact ⟨beside.activation, beside.active, slots_receive { f with stack } v⟩

/-- From an instruction that does not let control go on behind it a frame gets on only by leaving. -/
theorem Passes.leaves (passes : f.Passes p s g t) (found : f.activation.body.code.get? f.place = some j)
    (action : j.opcode.action ∈ [Action.leave, .exit, .rethrow, .unsupported]) :
    j.opcode.action = .leave ∧ ∃ target active, j.target? = some target ∧ g = { f with place := target, stack := [], active } := by
  cases passes with
  | next made =>
    obtain ⟨-, leaves, exits, -, rethrows, -⟩ := made.makes found
    obtain ⟨i, here, stepped⟩ := made
    obtain rfl := Option.some.inj (found.symm.trans here)
    obtain own : j.opcode.action = .unsupported := by simpa [leaves, exits, rethrows] using action
    simp only [step, own] at stepped
    cases stepped
  | store made =>
    obtain ⟨fixed, other⟩ := made.makes found
    simp [other] at action
  | jump made => rcases made.makes found with ⟨-, other | ⟨truth, other⟩ | ⟨relation, other⟩⟩ <;> simp [other] at action
  | leave made left =>
    obtain ⟨leads, own⟩ := made.makes found
    obtain ⟨active, rfl⟩ := Frame.leave_eq_ok left
    exact ⟨own, _, active, leads, rfl⟩
  | resumes resumes =>
    obtain ⟨-, v, ⟨stack, e, u, frames, call, made, called, -, -⟩, -⟩ := resumes
    rcases Frame.calls_of_call? made found called with ⟨dynamic, other⟩ | other <;> simp [other] at action

end Frame

/-! ### What an instruction uses -/

/-- An instruction takes so many values at least, gives so many at most and leaves the slots before `k` alone. -/
def Program.Uses (p : Program) (k : Nat) (i : Instruction) (takes gives : Nat) : Prop :=
  ∀ (f g : Frame) (s t : Machine) (j : Instruction), f.activation.body.code.get? f.place = some j → i.Alike j → f.Passes p s g t →
    takes ≤ f.stack.length ∧ g.stack.length + takes ≤ f.stack.length + gives ∧ ∀ n < k, g.slots[n]? = f.slots[n]?

/-- A method takes so many arguments at least. -/
def Program.Asks (p : Program) (token : Token) (count : Nat) : Prop :=
  ∃ shape, p.module.callShape token = .ok shape ∧ count ≤ shape.argumentCount

/-- The virtual calls of a method give nothing. -/
def Program.Silent (p : Program) (token : Token) : Prop :=
  ∀ (frames : List Frame) (arguments : List Value) (s t : Machine) (v : Value),
    p.Gives frames (call p frames.length token arguments true) s (.returned v) t → v = .void

theorem Instruction.Alike.takes (alike : i.Alike j) (m : Module) (returnsValue : Bool) :
    j.takes m returnsValue = i.takes m returnsValue := by
  unfold Instruction.takes Instruction.shape?
  rw [alike.action, alike.token?]

theorem Instruction.Alike.gives (alike : i.Alike j) : j.gives = i.gives := by
  unfold Instruction.gives
  rw [alike.action]

namespace Program

/-- An instruction that neither calls nor stores nor leads elsewhere changes the height by what it takes and gives. -/
theorem uses_plain {takes gives : Nat} (straight : i.Straight) (stores : ∀ fixed, i.opcode.action ≠ .storeLocal fixed)
    (calls : ∀ dynamic, i.opcode.action ≠ .call dynamic) (constructs : i.opcode.action ≠ .construct)
    (used : ∀ m b, i.takes m b = takes) (given : i.gives = gives) : p.Uses k i takes gives := by
  intro f g s t j found alike passes
  have action := alike.action
  have straight := alike.straight straight
  unfold Instruction.Straight at straight
  cases passes with
  | next made ahead =>
    obtain ⟨enough, height⟩ := made.height found
    rw [alike.takes, used] at enough height
    rw [alike.gives, given] at height
    obtain ⟨same, -⟩ := Frame.ahead_eq_ok ahead
    rw [same]
    exact ⟨enough, Nat.le_of_eq height, fun _ _ => rfl⟩
  | store made ahead =>
    obtain ⟨fixed, own⟩ := made.makes found
    exact absurd (action.trans own) (stores fixed)
  | jump made => rcases made.makes found with ⟨-, action | ⟨truth, action⟩ | ⟨relation, action⟩⟩ <;> simp [action] at straight
  | leave made left => simp [(made.makes found).2] at straight
  | resumes resumes =>
    obtain ⟨-, v, ⟨stack, e, u, frames, call, made, called, -, -⟩, -⟩ := resumes
    rcases Frame.calls_of_call? made found called with ⟨dynamic, own⟩ | own
    · exact absurd (action.trans own) (calls dynamic)
    · exact absurd (action.trans own) constructs

/-- A load of a slot or of an argument, or a constant. -/
theorem uses_push (action : (∃ fixed, i.opcode.action = .loadLocal fixed) ∨ (∃ fixed, i.opcode.action = .loadArgument fixed) ∨
      (∃ value, i.opcode.action = .pushConstant value) ∨ i.opcode.action = .pushInt32 ∨ i.opcode.action = .loadToken) :
    p.Uses k i 0 1 := by
  rcases action with ⟨fixed, own⟩ | ⟨fixed, own⟩ | ⟨value, own⟩ | own | own <;>
    exact uses_plain (by simp [Instruction.Straight, own]) (by simp [own]) (by simp [own]) (by simp [own])
      (by simp [Instruction.takes, own]) (by simp [Instruction.gives, own])

theorem uses_loadSlot (slot : UInt16) : p.Uses k (loadSlot slot) 0 1 := uses_push (.inl (Instruction.loadSlot_spec slot).1)

theorem uses_loadArgument (index : UInt16) : p.Uses k (loadArgument index) 0 1 :=
  uses_push (.inr (.inl (Instruction.loadArgument_spec index).1))

theorem uses_pushInt32 (value : Int32) : p.Uses k (pushInt32 value) 0 1 := by
  rcases Instruction.pushInt32_spec value with action | ⟨action, -⟩
  · exact uses_push (.inr (.inr (.inl ⟨value, action⟩)))
  · exact uses_push (.inr (.inr (.inr (.inl action))))

theorem uses_ldtoken (operand : Operand) : p.Uses k ⟨.ldtoken, operand⟩ 0 1 := uses_push (.inr (.inr (.inr (.inr rfl))))

/-- An instruction that puts one value in the place of the top one. -/
theorem uses_convert (action : i.opcode.action = .box ∨ i.opcode.action = .cast ∨ i.opcode.action = .newArray) : p.Uses k i 1 1 := by
  rcases action with own | own | own <;>
    exact uses_plain (by simp [Instruction.Straight, own]) (by simp [own]) (by simp [own]) (by simp [own])
      (by simp [Instruction.takes, own]) (by simp [Instruction.gives, own])

theorem uses_ldelemRef : p.Uses k ⟨.ldelemRef, .none⟩ 2 1 :=
  uses_plain (by simp [Instruction.Straight, Opcode.action]) (by simp [Opcode.action]) (by simp [Opcode.action]) (by simp [Opcode.action]) (fun _ _ => rfl) rfl

theorem uses_stelemRef : p.Uses k ⟨.stelemRef, .none⟩ 3 0 :=
  uses_plain (by simp [Instruction.Straight, Opcode.action]) (by simp [Opcode.action]) (by simp [Opcode.action]) (by simp [Opcode.action]) (fun _ _ => rfl) rfl

private theorem makes_storeSlot {slot : UInt16} (found : f.activation.body.code.get? f.place = some j) (alike : (storeSlot slot).Alike j)
    (made : f.Makes p s stack e t) : ∃ value, f.stack = value :: stack ∧ e = .store slot.toNat value := by
  obtain ⟨i, here, stepped⟩ := made
  obtain rfl := Option.some.inj (found.symm.trans here)
  rw [Instruction.step_storeSlot alike] at stepped
  cases top : f.stack with
  | nil =>
    rw [top] at stepped
    cases stepped
  | cons value rest =>
    rw [top] at stepped
    cases checked : f.checkSlot slot.toNat <;> rw [checked] at stepped <;> cases stepped
    exact ⟨value, rfl, rfl⟩

theorem uses_storeSlot {slot : UInt16} (behind : k ≤ slot.toNat) : p.Uses k (storeSlot slot) 1 0 := by
  intro f g s t j found alike passes
  cases passes with
  | next made =>
    obtain ⟨value, -, effect⟩ := makes_storeSlot found alike made
    cases effect
  | store made ahead =>
    obtain ⟨value, top, effect⟩ := makes_storeSlot found alike made
    cases effect
    obtain ⟨same, -⟩ := Frame.ahead_eq_ok ahead
    rw [same, top]
    refine ⟨by simp, Nat.le_refl _, fun n before => ?_⟩
    exact Array.getElem?_setIfInBounds_ne (by omega)
  | jump made =>
    obtain ⟨value, -, effect⟩ := makes_storeSlot found alike made
    cases effect
  | leave made left =>
    obtain ⟨value, -, effect⟩ := makes_storeSlot found alike made
    cases effect
  | resumes resumes =>
    obtain ⟨-, v, ⟨stack, e, u, frames, call, made, called, -, -⟩, -⟩ := resumes
    obtain ⟨value, -, rfl⟩ := makes_storeSlot found alike made
    cases called

/-- Behind a call a frame goes on with what the call gives. -/
theorem resumes_of_call (action : ∃ dynamic, j.opcode.action = .call dynamic) (found : f.activation.body.code.get? f.place = some j)
    (passes : f.Passes p s g t) : f.Resumes p s g t := by
  obtain ⟨dynamic, action⟩ := action
  cases passes with
  | next made =>
    obtain ⟨-, -, -, -, -, calls, -⟩ := made.makes found
    exact absurd action (calls dynamic)
  | store made =>
    obtain ⟨fixed, other⟩ := made.makes found
    cases action.symm.trans other
  | jump made => rcases made.makes found with ⟨-, other | ⟨truth, other⟩ | ⟨relation, other⟩⟩ <;> cases action.symm.trans other
  | leave made => cases action.symm.trans (made.makes found).2
  | resumes resumes => exact resumes

private theorem height_of_call {token : Token} {count : Nat} (action : ∃ dynamic, j.opcode.action = .call dynamic)
    (named : j.token? = some token) (asks : p.Asks token count) (found : f.activation.body.code.get? f.place = some j)
    (made : f.Makes p s stack e t) : count ≤ f.stack.length ∧ stack.length + count ≤ f.stack.length := by
  obtain ⟨dynamic, action⟩ := action
  obtain ⟨shape, shaped, enough⟩ := asks
  obtain ⟨first, height⟩ := made.height found
  simp only [Instruction.takes, Instruction.gives, action, Instruction.shape?_eq_some named shaped, Option.map_some,
    Option.getD_some] at first height
  omega

/-- A call takes its arguments, and gives a value at most. -/
theorem uses_call {token : Token} {count : Nat} (action : ∃ dynamic, i.opcode.action = .call dynamic) (named : i.token? = some token)
    (asks : p.Asks token count) : p.Uses k i count 1 := by
  intro f g s t j found alike passes
  rw [alike.action] at action
  obtain ⟨-, v, ⟨stack, e, u, frames, call, made, -, -, rfl⟩, ahead⟩ := resumes_of_call action found passes
  obtain ⟨enough, height⟩ := height_of_call action (alike.token?.symm.trans named) asks found made
  obtain ⟨same, -⟩ := Frame.ahead_eq_ok ahead
  have grown := Frame.length_receive_le { f with stack } v
  rw [same]
  refine ⟨enough, ?_, fun n _ => by rw [Frame.slots_receive]⟩
  dsimp only at grown ⊢
  omega

/-- A call of a method that gives nothing. -/
theorem uses_silent {token : Token} {count : Nat} (action : i.opcode.action = .call true) (named : i.token? = some token)
    (asks : p.Asks token count) (silent : p.Silent token) : p.Uses k i count 0 := by
  intro f g s t j found alike passes
  rw [alike.action] at action
  have names := alike.token?.symm.trans named
  obtain ⟨-, v, ⟨stack, e, u, frames, call, made, called, gives, rfl⟩, ahead⟩ := resumes_of_call ⟨true, action⟩ found passes
  obtain ⟨enough, height⟩ := height_of_call ⟨true, action⟩ names asks found made
  obtain ⟨same, -⟩ := Frame.ahead_eq_ok ahead
  obtain rfl : v = .void := by
    have makes := made.makes found
    cases e with
    | call target arguments dynamic =>
      obtain rfl : true = dynamic := Action.call.inj (action.symm.trans makes)
      obtain ⟨i, here, stepped⟩ := made
      obtain rfl := Option.some.inj (found.symm.trans here)
      obtain ⟨shape, target, -⟩ := call_of_step stepped
      obtain rfl := Option.some.inj (names.symm.trans target)
      cases called
      exact silent _ _ _ _ _ gives
    | construct target arguments => cases action.symm.trans makes
    | _ => cases called
  rw [same]
  exact ⟨enough, height, fun _ _ => rfl⟩

/-- An instruction that does not let control go on behind it takes and gives nothing. -/
theorem uses_end (action : i.opcode.action ∈ [Action.leave, .exit, .rethrow, .unsupported]) : p.Uses k i 0 0 := by
  intro f g s t j found alike passes
  rw [alike.action] at action
  obtain ⟨-, target, active, -, rfl⟩ := passes.leaves found action
  exact ⟨Nat.zero_le _, Nat.zero_le _, fun _ _ => rfl⟩

/-- A row of instructions that starts with so many values on the stack at most ends with at most as many as it says, and never has more
    than a limit in between. -/
inductive Climbs (p : Program) (k limit : Nat) : Nat → List Instruction → Nat → Prop
  | nil {h : Nat} (low : h ≤ limit) : Climbs p k limit h [] h
  | cons {h takes gives last : Nat} {i : Instruction} {is : List Instruction} (low : h ≤ limit) (uses : p.Uses k i takes gives)
      (rest : Climbs p k limit (h - takes + gives) is last) : Climbs p k limit h (i :: is) last

namespace Climbs

variable {is js : List Instruction} {middle last : Nat}

theorem low (climbs : p.Climbs k limit h is last) : h ≤ limit := by cases climbs <;> assumption

theorem append (first : p.Climbs k limit h is middle) (second : p.Climbs k limit middle js last) : p.Climbs k limit h (is ++ js) last := by
  induction first with
  | nil => exact second
  | cons low uses _ ih => exact .cons low uses (ih second)

theorem flatMap {α : Type} {l : List α} {row : α → List Instruction} (low : h ≤ limit)
    (climbs : ∀ a ∈ l, p.Climbs k limit h (row a) h) : p.Climbs k limit h (l.flatMap row) h := by
  induction l with
  | nil => exact .nil low
  | cons a l ih =>
    obtain ⟨first, rest⟩ := List.forall_mem_cons.mp climbs
    rw [List.flatMap_cons]
    exact first.append (ih rest)

/-- An instruction that may be missing and does not change the height. -/
theorem optional {i? : Option Instruction} {n : Nat} (low : h ≤ limit) (enough : n ≤ h) (uses : ∀ i ∈ i?, p.Uses k i n n) :
    p.Climbs k limit h i?.toList h := by
  cases i? with
  | none => exact .nil low
  | some i =>
    have same : h - n + n = h := Nat.sub_add_cancel enough
    exact .cons low (uses i rfl) (same.symm ▸ .nil low)

end Climbs

end Program

/-! ### The rows of a weave -/

/-- What the code of a weave calls takes as many arguments as the code has put on the stack, and the hooks give nothing. -/
structure Weave.Calls (w : Weave) (p : Program) : Prop where
  getMethod : p.Asks w.plan.getMethodFromHandle 2
  getType : p.Asks w.plan.getTypeFromHandle 1
  getAttributes : p.Asks w.plan.getCustomAttributes 3
  onEntry : p.Asks w.plan.onEntry 3
  onExit : p.Asks w.plan.onExit 4
  onException : p.Asks w.plan.onException 4
  entrySilent : p.Silent w.plan.onEntry
  exitSilent : p.Silent w.plan.onExit
  exceptionSilent : p.Silent w.plan.onException

namespace Weave.Calls

open Program

variable {w : Weave} (calls : w.Calls p)

private theorem uses_box {type : Option Token} :
    ∀ i ∈ type.map fun t => (⟨.box, .type t⟩ : Instruction), p.Uses k i 1 1 := by
  intro i boxed
  obtain ⟨t, -, rfl⟩ := Option.map_eq_some_iff.mp boxed
  exact uses_convert (.inl rfl)

/-- Storing an argument leaves the stack as it was. -/
theorem climbs_storeArgument {l : ParameterLoad} (fetches : l.Fetches) (slots : WovenSlots) (position : Nat) :
    p.Climbs k wovenMaxStack 0 (WeavePlan.storeArgument slots l position) 0 := by
  have loads : p.Climbs k wovenMaxStack 0
      [loadSlot slots.arguments, pushInt32 (Int32.ofNat position), loadArgument l.argument] 3 :=
    .cons (by decide) (uses_loadSlot _) <| .cons (by decide) (uses_pushInt32 _) <| .cons (by decide) (uses_loadArgument _) <|
      .nil (by decide)
  have fetch : p.Climbs k wovenMaxStack 3 l.deref.toList 3 := by
    refine .optional (n := 0) (by decide) (Nat.zero_le _) fun i fetched => ?_
    rcases fetches i fetched with rfl | ⟨type, rfl⟩ <;> exact uses_end (by simp [Opcode.action])
  have box : p.Climbs k wovenMaxStack 3 (l.boxType.map fun type => (⟨.box, .type type⟩ : Instruction)).toList 3 :=
    .optional (by decide) (by decide) uses_box
  have store : p.Climbs k wovenMaxStack 3 [⟨.stelemRef, .none⟩] 0 := .cons (by decide) uses_stelemRef (.nil (by decide))
  exact ((loads.append fetch).append box).append store

include calls

/-- The prologue, which stores in slots of its own only. -/
theorem climbs_prologue (fetches : ∀ l ∈ w.plan.parameters, l.Fetches) (room : w.old.slots.size + 5 ≤ Body.maxSlots) :
    p.Climbs w.old.slots.size wovenMaxStack 0 w.prologue 0 := by
  obtain ⟨method, attr, -, arguments, -⟩ := WovenSlots.toNat_startingAt room
  change w.slots.method.toNat = _ at method
  change w.slots.attr.toNat = _ at attr
  change w.slots.arguments.toNat = _ at arguments
  have getMethod : p.Uses w.old.slots.size ⟨.call, .method w.plan.getMethodFromHandle⟩ 2 1 := uses_call ⟨false, rfl⟩ rfl calls.getMethod
  have getType : p.Uses w.old.slots.size ⟨.call, .method w.plan.getTypeFromHandle⟩ 1 1 := uses_call ⟨false, rfl⟩ rfl calls.getType
  have getAttributes : p.Uses w.old.slots.size ⟨.callvirt, .method w.plan.getCustomAttributes⟩ 3 1 :=
    uses_call ⟨true, rfl⟩ rfl calls.getAttributes
  have onEntry : p.Uses w.old.slots.size ⟨.callvirt, .method w.plan.onEntry⟩ 3 0 := uses_silent rfl rfl calls.onEntry calls.entrySilent
  have stores : p.Climbs w.old.slots.size wovenMaxStack 0
      (w.plan.parameters.zipIdx.flatMap fun e => WeavePlan.storeArgument w.slots e.1 e.2) 0 :=
    .flatMap (by decide) fun e listed => climbs_storeArgument (fetches e.1 (List.fst_mem_of_mem_zipIdx listed)) _ _
  have enters : p.Climbs w.old.slots.size wovenMaxStack 0
      [loadSlot w.slots.attr, loadSlot w.slots.method, loadSlot w.slots.arguments, ⟨.callvirt, .method w.plan.onEntry⟩] 0 :=
    .cons (by decide) (uses_loadSlot _) <| .cons (by decide) (uses_loadSlot _) <| .cons (by decide) (uses_loadSlot _) <|
      .cons (by decide) onEntry <| .nil (by decide)
  -- Before the arguments are stored, the attribute is found and the array is made.
  show p.Climbs _ _ 0 ((_ ++ _) ++ _) 0
  refine .append (.append ?_ stores) enters
  exact .cons (by decide) (uses_ldtoken _) <| .cons (by decide) (uses_ldtoken _) <| .cons (by decide) getMethod <|
    .cons (by decide) (uses_storeSlot (by omega)) <| .cons (by decide) (uses_loadSlot _) <| .cons (by decide) (uses_ldtoken _) <|
    .cons (by decide) getType <| .cons (by decide) (uses_pushInt32 _) <| .cons (by decide) getAttributes <|
    .cons (by decide) (uses_pushInt32 _) <| .cons (by decide) uses_ldelemRef <|
    .cons (by decide) (uses_convert (.inr (.inl rfl))) <| .cons (by decide) (uses_storeSlot (by omega)) <|
    .cons (by decide) (uses_pushInt32 _) <| .cons (by decide) (uses_convert (.inr (.inr rfl))) <|
    .cons (by decide) (uses_storeSlot (by omega)) <| .nil (by decide)

/-- The epilogue, which finds the result of the method if there is one to store. -/
theorem climbs_epilogue (room : w.old.slots.size + 5 ≤ Body.maxSlots) :
    p.Climbs w.old.slots.size wovenMaxStack w.plan.storesResult.toNat w.epilogue 0 := by
  obtain ⟨-, -, -, -, result⟩ := WovenSlots.toNat_startingAt room
  change w.slots.result.toNat = _ at result
  have onExit : p.Uses w.old.slots.size ⟨.callvirt, .method w.plan.onExit⟩ 4 0 := uses_silent rfl rfl calls.onExit calls.exitSilent
  have store : p.Climbs w.old.slots.size wovenMaxStack w.plan.storesResult.toNat
      (if w.plan.storesResult then [storeSlot w.slots.result] else []) 0 := by
    cases w.plan.storesResult with
    | true => exact .cons (by decide) (uses_storeSlot (by omega)) (.nil (by decide))
    | false => exact .nil (by decide)
  have loads : p.Climbs w.old.slots.size wovenMaxStack 0 [loadSlot w.slots.attr, loadSlot w.slots.result] 2 :=
    .cons (by decide) (uses_loadSlot _) <| .cons (by decide) (uses_loadSlot _) <| .nil (by decide)
  have box : p.Climbs w.old.slots.size wovenMaxStack 2 (w.plan.resultBox.map fun type => (⟨.box, .type type⟩ : Instruction)).toList 2 :=
    .optional (by decide) (by decide) uses_box
  show p.Climbs _ _ _ (((_ ++ _) ++ _) ++ _) 0
  refine .append (.append (.append store loads) box) ?_
  exact .cons (by decide) (uses_loadSlot _) <| .cons (by decide) (uses_loadSlot _) <| .cons (by decide) onExit <|
    .cons (by decide) (uses_end (by simp [Opcode.action])) <| .nil (by decide)

/-- The handler, which finds the exception. -/
theorem climbs_handler (room : w.old.slots.size + 5 ≤ Body.maxSlots) : p.Climbs w.old.slots.size wovenMaxStack 1 w.handler 0 := by
  obtain ⟨-, -, exception, -, -⟩ := WovenSlots.toNat_startingAt room
  change w.slots.exception.toNat = _ at exception
  have onException : p.Uses w.old.slots.size ⟨.callvirt, .method w.plan.onException⟩ 4 0 :=
    uses_silent rfl rfl calls.onException calls.exceptionSilent
  exact .cons (by decide) (uses_storeSlot (by omega)) <| .cons (by decide) (uses_loadSlot _) <| .cons (by decide) (uses_loadSlot _) <|
    .cons (by decide) (uses_loadSlot _) <| .cons (by decide) (uses_loadSlot _) <| .cons (by decide) onException <|
    .cons (by decide) (uses_end (by simp [Opcode.action])) <| .nil (by decide)

end Weave.Calls

/-- The code that returns. -/
theorem Weave.climbs_returnBlock (w : Weave) : ∃ last, p.Climbs k wovenMaxStack 0 w.returnBlock last := by
  have ret : p.Uses k ⟨.ret, .none⟩ 0 0 := Program.uses_end (by simp [Opcode.action])
  unfold Weave.returnBlock WeavePlan.returnBlock
  split
  · exact ⟨_, .cons (by decide) ret (.nil (by decide))⟩
  · exact ⟨_, .cons (by decide) (Program.uses_loadSlot _) (.cons (by decide) ret (.nil (by decide)))⟩

end AspectWeaving

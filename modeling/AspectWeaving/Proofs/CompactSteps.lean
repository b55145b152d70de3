import AspectWeaving.CompactForms
import AspectWeaving.Proofs.CodeOrder
import AspectWeaving.Proofs.Stepping

/-!
Steps of the instructions that woven code is made of: the shortest forms of loads, stores and constants
do what their full forms do, and neither they nor boxing and leaving can raise an exception that the
program sees (`Instruction.Quiet`).
-/
namespace AspectWeaving

open Running (compute fail allocate)

namespace Instruction

variable {m : Module} {f : Frame} {i j : Instruction} {index : UInt16} {value : Int32}

private theorem eq_ofNat {n : Nat} (same : index.toNat = n) : index = UInt16.ofNat n := by
  rw [← same, UInt16.ofNat_toNat]

theorem loadSlot_spec (index : UInt16) :
    (∃ fixed, (loadSlot index).opcode.action = .loadLocal fixed) ∧ (loadSlot index).slot? = some index := by
  unfold loadSlot
  split
  case h_5 => split <;> exact ⟨⟨_, rfl⟩, rfl⟩
  all_goals
    rename_i same
    exact ⟨⟨_, rfl⟩, by rw [eq_ofNat same]; rfl⟩

theorem storeSlot_spec (index : UInt16) :
    (∃ fixed, (storeSlot index).opcode.action = .storeLocal fixed) ∧ (storeSlot index).slot? = some index := by
  unfold storeSlot
  split
  case h_5 => split <;> exact ⟨⟨_, rfl⟩, rfl⟩
  all_goals
    rename_i same
    exact ⟨⟨_, rfl⟩, by rw [eq_ofNat same]; rfl⟩

theorem loadArgument_spec (index : UInt16) :
    (∃ fixed, (loadArgument index).opcode.action = .loadArgument fixed) ∧
      (loadArgument index).argument? = some index := by
  unfold loadArgument
  split
  case h_5 => split <;> exact ⟨⟨_, rfl⟩, rfl⟩
  all_goals
    rename_i same
    exact ⟨⟨_, rfl⟩, by rw [eq_ofNat same]; rfl⟩

theorem pushInt32_spec (value : Int32) :
    (pushInt32 value).opcode.action = .pushConstant value ∨
      (pushInt32 value).opcode.action = .pushInt32 ∧ (pushInt32 value).int32? = some value := by
  unfold pushInt32
  split
  case h_11 => exact .inr ⟨by split <;> rfl, rfl⟩
  all_goals
    rename_i same
    exact .inl (congrArg Action.pushConstant (Int32.toInt_inj.mp same).symm)

theorem step_loadSlot (alike : (loadSlot index).Alike j) :
    step m f j = do return ((← compute (f.slot index.toNat)) :: f.stack, .next) := by
  obtain ⟨⟨fixed, action⟩, slot⟩ := loadSlot_spec index
  rw [alike.action] at action
  rw [alike.slot?] at slot
  simp only [step, action, slot, require]
  rfl

theorem step_storeSlot (alike : (storeSlot index).Alike j) :
    step m f j = do
      let (value, stack) ← pop f.stack
      compute (f.checkSlot index.toNat)
      return (stack, .store index.toNat value) := by
  obtain ⟨⟨fixed, action⟩, slot⟩ := storeSlot_spec index
  rw [alike.action] at action
  rw [alike.slot?] at slot
  simp only [step, action, slot, require]
  rfl

theorem step_loadArgument (alike : (loadArgument index).Alike j) :
    step m f j = do return ((← compute (f.activation.argument index.toNat)) :: f.stack, .next) := by
  obtain ⟨⟨fixed, action⟩, argument⟩ := loadArgument_spec index
  rw [alike.action] at action
  rw [alike.argument?] at argument
  simp only [step, action, argument, require]
  rfl

theorem step_pushInt32 (alike : (pushInt32 value).Alike j) :
    step m f j = pure (.int32 value :: f.stack, .next) := by
  rcases pushInt32_spec value with action | ⟨action, constant⟩
  · rw [alike.action] at action
    simp only [step, action]
  · rw [alike.action] at action
    have there : j.int32? = some value := by
      rw [← constant]
      simp only [int32?, alike.operand]
    simp only [step, action, there, require]
    rfl

/-! ### Straight and quiet instructions -/

/-- Control goes on behind the instruction or into a call. -/
def Straight (i : Instruction) : Prop :=
  match i.opcode.action with
  | .jump | .jumpWhen _ | .jumpIf _ | .leave | .exit | .throw | .rethrow => False
  | _ => True

/-- Control goes on behind the instruction, and it does not raise an exception. -/
def Quiet (i : Instruction) : Prop :=
  (∃ fixed, i.opcode.action = .loadLocal fixed) ∨ (∃ fixed, i.opcode.action = .storeLocal fixed) ∨
    i.opcode.action = .box

theorem Alike.straight (alike : i.Alike j) (straight : i.Straight) : j.Straight := by
  unfold Straight at straight ⊢
  rwa [← alike.action]

theorem Alike.quiet (alike : i.Alike j) (quiet : i.Quiet) : j.Quiet := by
  unfold Quiet at quiet ⊢
  rwa [← alike.action]

theorem Quiet.straight (quiet : i.Quiet) : i.Straight := by
  unfold Straight
  rcases quiet with ⟨fixed, action⟩ | ⟨fixed, action⟩ | action <;> rw [action] <;> trivial

theorem quiet_loadSlot (index : UInt16) : (loadSlot index).Quiet := .inl (loadSlot_spec index).1

theorem quiet_storeSlot (index : UInt16) : (storeSlot index).Quiet := .inr (.inl (storeSlot_spec index).1)

theorem straight_loadArgument (index : UInt16) : (loadArgument index).Straight := by
  obtain ⟨fixed, action⟩ := (loadArgument_spec index).1
  unfold Straight
  rw [action]
  trivial

theorem straight_pushInt32 (value : Int32) : (pushInt32 value).Straight := by
  unfold pushInt32
  split <;> first | trivial | (split <;> trivial)

end Instruction

/-! ### Failures that end the run -/

namespace Running

variable {α β : Type}

/-- The failures of a computation end the run. -/
def Fatal (x : Running α) : Prop := ∀ s fault t, x s = .error fault t → fault.exceptionName? = none

theorem fatal_pure (a : α) : Fatal (pure a : Running α) := by
  intro s fault t failed
  cases failed

theorem fatal_throw {fault : Fault} (unseen : fault.exceptionName? = none) : Fatal (throw fault : Running α) := by
  intro s other t failed
  cases failed
  exact unseen

theorem Fatal.bind {x : Running α} {f : α → Running β} (first : Fatal x) (second : ∀ a, Fatal (f a)) :
    Fatal (x >>= f) := by
  intro s fault t failed
  simp only [Bind.bind, EStateM.bind] at failed
  split at failed
  · exact second _ _ _ _ failed
  · rename_i start
    cases failed
    exact first _ _ _ start

theorem fatal_compute {e : Except ExecutionFault α} (unseen : ∀ cause, e = .error cause → cause.exceptionName? = none) :
    Fatal (compute e) := by
  intro s fault t failed
  cases e with
  | ok a => cases failed
  | error cause =>
    cases failed
    exact unseen cause rfl

end Running

open Running (Fatal fatal_pure fatal_throw fatal_compute)

theorem fatal_pop (stack : List Value) : Fatal (pop stack) := by
  cases stack with
  | nil => exact fatal_throw rfl
  | cons value rest => exact fatal_pure _

theorem fatal_require {α : Type} (operand : MissingOperand) (a : Option α) : Fatal (Instruction.require operand a) := by
  cases a with
  | none => exact fatal_throw rfl
  | some a => exact fatal_pure _

theorem fatal_boxValue (value : Value) : Fatal (boxValue value) := by
  intro s fault t failed
  cases value <;> cases failed

theorem fatal_branchTarget (i : Instruction) : Fatal i.branchTarget := by
  unfold Instruction.branchTarget
  split
  · exact fatal_pure _
  · exact fatal_throw rfl

theorem fatal_slot (f : Frame) (index : Nat) : Fatal (compute (f.slot index)) := by
  refine fatal_compute fun cause failed => ?_
  unfold Frame.slot at failed
  split at failed <;> cases failed <;> rfl

theorem fatal_checkSlot (f : Frame) (index : Nat) : Fatal (compute (f.checkSlot index)) := by
  refine fatal_compute fun cause failed => ?_
  unfold Frame.checkSlot at failed
  split at failed <;> cases failed
  rfl

theorem Instruction.Quiet.fatal {i : Instruction} (quiet : i.Quiet) (m : Module) (f : Frame) : Fatal (step m f i) := by
  rcases quiet with ⟨fixed, action⟩ | ⟨fixed, action⟩ | action <;> simp only [step, action]
  · exact (fatal_require _ _).bind fun _ => (fatal_slot _ _).bind fun _ => fatal_pure _
  · exact (fatal_require _ _).bind fun _ => (fatal_pop _).bind fun _ => (fatal_checkSlot _ _).bind fun _ => fatal_pure _
  · exact (fatal_pop _).bind fun _ => (fatal_boxValue _).bind fun _ => fatal_pure _

theorem fatal_leave {m : Module} {f : Frame} {i : Instruction} (action : i.opcode.action = .leave) :
    Fatal (step m f i) := by
  simp only [step, action]
  exact (fatal_branchTarget i).bind fun _ => fatal_pure _

/-! ### One instruction of a frame -/

/-- A frame at the same place, with other values. -/
structure Frame.Beside (f g : Frame) : Prop where
  activation : g.activation = f.activation
  pending : g.pending = f.pending
  place : g.place = f.place
  active : g.active = f.active

/-- All slots of a body have values. -/
def Frame.Filled (f : Frame) : Prop :=
  f.slots.size = f.activation.body.slots.size ∧ ∀ o ∈ f.slots, o.isSome

namespace Frame

variable {f g h : Frame} {index : Nat} {value : Value}

theorem Beside.refl (f : Frame) : f.Beside f := ⟨rfl, rfl, rfl, rfl⟩

theorem Beside.trans (first : f.Beside g) (second : g.Beside h) : f.Beside h :=
  ⟨second.activation.trans first.activation, second.pending.trans first.pending,
    second.place.trans first.place, second.active.trans first.active⟩

theorem beside_stack (f : Frame) (stack : List Value) : f.Beside { f with stack } := ⟨rfl, rfl, rfl, rfl⟩

theorem beside_store (f : Frame) (index : Nat) (value : Value) : f.Beside (f.store index value) := ⟨rfl, rfl, rfl, rfl⟩

theorem beside_receive (f : Frame) (value : Value) : f.Beside (f.receive value) := by
  cases value <;> exact ⟨rfl, rfl, rfl, rfl⟩

theorem Filled.store (filled : f.Filled) (index : Nat) (value : Value) : (f.store index value).Filled := by
  refine ⟨by simpa [Frame.store] using filled.1, fun o member => ?_⟩
  rcases Array.mem_or_eq_of_mem_setIfInBounds member with old | rfl
  · exact filled.2 o old
  · rfl

theorem Filled.receive (filled : f.Filled) (value : Value) : (f.receive value).Filled := by
  cases value <;> exact filled

theorem lt_of_slot (held : f.slot index = .ok value) : index < f.slots.size := by
  unfold Frame.slot at held
  split at held
  · exact (Array.getElem?_eq_some_iff.mp ‹_›).1
  · cases held
  · cases held

theorem slot_of_some (there : f.slots[index]? = some (some value)) : f.slot index = .ok value := by
  unfold Frame.slot
  rw [there]

theorem slot_store_self (f : Frame) (inside : index < f.slots.size) (value : Value) :
    (f.store index value).slot index = .ok value := by
  exact slot_of_some (Array.getElem?_setIfInBounds_self_of_lt inside)

theorem slot_store_of_ne {other : Nat} (f : Frame) (differs : index ≠ other) (value : Value) :
    (f.store index value).slot other = f.slot other := by
  unfold Frame.slot store
  simp only [Array.getElem?_setIfInBounds_ne differs, Array.size_setIfInBounds]

/-- Leaving goes to the target with an empty stack. -/
theorem leave_eq_ok {target : Handle} (left : f.leave target = .ok g) :
    ∃ active, g = { f with place := target, stack := [], active } := by
  unfold leave at left
  simp only [bind, Except.bind] at left
  split at left
  · cases left
  · split at left
    · cases left
    · cases left
      exact ⟨_, rfl⟩

/-- A slot of a frame whose slots have values. -/
theorem Filled.slot (filled : f.Filled) (index : Nat) (inside : index < f.activation.body.slots.size) :
    ∃ value, f.slot index = .ok value := by
  have bound : index < f.slots.size := by
    rw [filled.1]
    exact inside
  obtain ⟨value, here⟩ := Option.isSome_iff_exists.mp (filled.2 _ (Array.getElem_mem bound))
  exact ⟨value, slot_of_some (by rw [Array.getElem?_eq_getElem bound, here])⟩

end Frame

namespace Program

variable {p : Program} {f g : Frame} {cs : List Frame} {i : Instruction} {s : Machine}

/-- The stage after an instruction, by its step. -/
theorem after_eq (p : Program) (cs : List Frame) (found : f.activation.body.code.get? f.place = some i) (s : Machine) :
    p.after f cs s =
      match step p.module f i { s with executed := s.executed + 1 } with
      | .ok (stack, effect) t => perform p { f with stack } cs effect t
      | .error fault t => raise p.module fault (f :: cs) t := advance_eq found _

theorem after_next {stack : List Value} {t : Machine} (cs : List Frame) (found : f.activation.body.code.get? f.place = some i)
    (stepped : step p.module f i { s with executed := s.executed + 1 } = .ok (stack, .next) t) :
    p.after f cs s = goAhead { f with stack } cs t := by
  rw [after_eq p cs found, stepped]
  rfl

theorem after_call {stack arguments : List Value} {target : Token} {dynamic : Bool} {t : Machine} (cs : List Frame)
    (found : f.activation.body.code.get? f.place = some i)
    (stepped : step p.module f i { s with executed := s.executed + 1 } = .ok (stack, .call target arguments dynamic) t) :
    p.after f cs s =
      settleAttempt p.module ({ f with stack } :: cs) (call p (cs.length + 1) target arguments dynamic) t := by
  rw [after_eq p cs found, stepped]
  rfl

/-- An instruction that control goes on behind leaves its frame where it is, until its turn comes again. -/
theorem after_straight (found : f.activation.body.code.get? f.place = some i) (straight : i.Straight)
    (cs : List Frame) (s : Machine) :
    ∃ g, f.Beside g ∧ (f.Filled → g.Filled) ∧ Above p.module g cs (p.after f cs s) := by
  rw [after_eq p cs found]
  split
  · rename_i stack effect t stepped
    have made := ensures_step p.module f i _ _ _ stepped
    unfold Instruction.Straight at straight
    have beside := f.beside_stack stack
    cases effect with
    | next => exact ⟨_, beside, id, .returned .void t⟩
    | store slot value =>
      exact ⟨_, beside.trans (Frame.beside_store _ slot value), fun filled => Frame.Filled.store filled slot value,
        .returned .void t⟩
    | jump target => rcases made with ⟨-, action | ⟨truth, action⟩ | ⟨relation, action⟩⟩ <;> simp [action] at straight
    | leave target => simp [made.2] at straight
    | exit value =>
      have action : i.opcode.action = .exit := made
      simp [action] at straight
    | throw x => rcases made with action | action <;> simp [action] at straight
    | call target arguments dynamic => exact ⟨_, beside, id, above_settleAttempt p.module [] _ cs _ t⟩
    | construct target arguments => exact ⟨_, beside, id, above_settleAttempt p.module [] _ cs _ t⟩
  · rename_i fault t failed
    refine ⟨f, .refl f, id, ?_⟩
    rcases raise_cases p.module fault (f :: cs) t with ⟨u, ended⟩ | ⟨x, u, raised, -⟩
    · rw [ended]
      exact .failed _ _
    · rw [raised]
      exact .threw x u

/-- Going on is at the next place, or there is none. -/
theorem goAhead_cases (f : Frame) (cs : List Frame) (s : Machine) :
    (∃ fault, goAhead f cs s = .error fault s) ∨
      ∃ place, f.activation.next f.place = .ok place ∧ goAhead f cs s = .ok (.running { f with place } cs) s := by
  unfold goAhead Frame.ahead
  cases next : f.activation.next f.place with
  | error cause => exact .inl ⟨.execution cause, rfl⟩
  | ok place => exact .inr ⟨place, rfl, rfl⟩

/-- A quiet instruction fails for good, or control goes on behind it. -/
theorem after_quiet (found : f.activation.body.code.get? f.place = some i) (quiet : i.Quiet)
    (cs : List Frame) (s : Machine) :
    (∃ fault t, p.after f cs s = .error fault t) ∨
      ∃ g t, f.Beside g ∧ (f.Filled → g.Filled) ∧ p.after f cs s = goAhead g cs t := by
  rw [after_eq p cs found]
  split
  · rename_i stack effect t stepped
    have made := ensures_step p.module f i _ _ _ stepped
    have beside := f.beside_stack stack
    cases effect with
    | next => exact .inr ⟨_, t, beside, id, rfl⟩
    | store slot value =>
      exact .inr ⟨_, t, beside.trans (Frame.beside_store _ slot value),
        fun filled => Frame.Filled.store filled slot value, rfl⟩
    | jump target =>
      rcases quiet with ⟨fixed, own⟩ | ⟨fixed, own⟩ | own <;>
        rcases made with ⟨-, action | ⟨truth, action⟩ | ⟨relation, action⟩⟩ <;> cases own.symm.trans action
    | leave target => rcases quiet with ⟨fixed, own⟩ | ⟨fixed, own⟩ | own <;> cases own.symm.trans made.2
    | exit value => rcases quiet with ⟨fixed, own⟩ | ⟨fixed, own⟩ | own <;> cases own.symm.trans made
    | throw x =>
      rcases quiet with ⟨fixed, own⟩ | ⟨fixed, own⟩ | own <;> rcases made with action | action <;>
        cases own.symm.trans action
    | call target arguments dynamic =>
      rcases quiet with ⟨fixed, own⟩ | ⟨fixed, own⟩ | own <;> cases own.symm.trans made
    | construct target arguments => rcases quiet with ⟨fixed, own⟩ | ⟨fixed, own⟩ | own <;> cases own.symm.trans made
  · rename_i fault t failed
    have unseen := quiet.fatal p.module f _ _ _ failed
    rcases raise_cases p.module fault (f :: cs) t with ⟨u, ended⟩ | ⟨x, u, -, seen, -⟩
    · exact .inl ⟨fault, u, ended⟩
    · rw [unseen] at seen
      cases seen

/-- Loading a slot that has a value. -/
theorem after_loadSlot {index : UInt16} {value : Value} (found : f.activation.body.code.get? f.place = some i)
    (alike : (Instruction.loadSlot index).Alike i) (slot : f.slot index.toNat = .ok value) (cs : List Frame)
    (s : Machine) :
    p.after f cs s = goAhead { f with stack := value :: f.stack } cs { s with executed := s.executed + 1 } := by
  rw [after_eq p cs found, Instruction.step_loadSlot alike, slot]
  rfl

/-- Storing the top of the stack in a slot that is there. -/
theorem after_storeSlot {index : UInt16} {value : Value} {stack : List Value}
    (found : f.activation.body.code.get? f.place = some i) (alike : (Instruction.storeSlot index).Alike i)
    (top : f.stack = value :: stack) (inside : index.toNat < f.slots.size) (cs : List Frame) (s : Machine) :
    p.after f cs s =
      goAhead ({ f with stack }.store index.toNat value) cs { s with executed := s.executed + 1 } := by
  rw [after_eq p cs found, Instruction.step_storeSlot alike, top, Frame.checkSlot, if_pos inside]
  rfl

end Program

end AspectWeaving

import AspectWeaving.Proofs.Stepping

/-!
Structural faults. A branch that leads nowhere, control that runs off the end of a body, a slot that is
not there and an operand of the wrong kind are `Fault.isStructural`. The operations on values and
objects have no such fault, and an instruction with a fitting operand has none either if its slot is
there (`secures_step`).
-/
namespace AspectWeaving

open Running (compute fail allocate modifyObject)

/-- The code itself is at fault, not the values it works on. -/
def ExecutionFault.isStructural : ExecutionFault → Bool
  | .invalidBranchTarget | .fellThroughEnd _ | .localIndexOutOfBounds _ _ => true
  | _ => false

/-- The code itself is at fault, not the values it works on. -/
def Fault.isStructural : Fault → Bool
  | .malformed _ => true
  | .execution cause => cause.isStructural
  | _ => false

/-! ### Computations on values and objects -/

/-- A computation on values and objects has no structural fault. -/
def Sturdy {α : Type} (x : Except ExecutionFault α) : Prop := ∀ cause, x = .error cause → cause.isStructural = false

namespace Sturdy

variable {α β : Type}

@[simp] theorem ok {a : α} : Sturdy (.ok a) := nofun

@[simp] theorem pure {a : α} : Sturdy (pure a) := nofun

@[simp] theorem error {cause : ExecutionFault} : Sturdy (.error cause : Except _ α) ↔ cause.isStructural = false :=
  ⟨fun sturdy => sturdy _ rfl, fun holds _ same => Except.error.inj same ▸ holds⟩

theorem bind {x : Except ExecutionFault α} {f : α → Except ExecutionFault β} (first : Sturdy x)
    (second : ∀ a, Sturdy (f a)) : Sturdy (x >>= f) := by
  cases x with
  | ok a => exact second a
  | error cause => exact Sturdy.error.mpr (first _ rfl)

theorem map {x : Except ExecutionFault α} {f : α → β} (sturdy : Sturdy x) : Sturdy (x.map f) := by
  cases x with
  | ok a => exact nofun
  | error cause => exact Sturdy.error.mpr (sturdy _ rfl)

end Sturdy

@[simp] theorem sturdy_argument (a : Activation) (index : Nat) : Sturdy (a.argument index) := by
  unfold Activation.argument
  split <;> simp [ExecutionFault.isStructural]

theorem sturdy_slot {f : Frame} {index : Nat} (inside : index < f.slots.size) : Sturdy (f.slot index) := by
  unfold Frame.slot
  rw [Array.getElem?_eq_getElem inside]
  cases f.slots[index] <;> simp [ExecutionFault.isStructural]

theorem sturdy_checkSlot {f : Frame} {index : Nat} (inside : index < f.slots.size) : Sturdy (f.checkSlot index) := by
  unfold Frame.checkSlot
  rw [if_pos inside]
  exact Sturdy.ok

@[simp] theorem sturdy_asInt32 (v : Value) : Sturdy v.asInt32 := by
  cases v <;> simp [Value.asInt32, Value.mismatch, ExecutionFault.isStructural]

@[simp] theorem sturdy_isTrue (v : Value) : Sturdy v.isTrue := by
  cases v <;> simp [Value.isTrue, Value.mismatch, ExecutionFault.isStructural]

@[simp] theorem sturdy_onInt32 (operation : Arithmetic) (x y : Int32) : Sturdy (operation.onInt32 x y) := by
  cases operation <;> simp only [Arithmetic.onInt32] <;> (try split) <;> simp [ExecutionFault.isStructural]

@[simp] theorem sturdy_onInt64 (operation : Arithmetic) (x y : Int64) : Sturdy (operation.onInt64 x y) := by
  cases operation <;> simp only [Arithmetic.onInt64] <;> (try split) <;> simp [ExecutionFault.isStructural]

@[simp] theorem sturdy_onValues (operation : Arithmetic) (a b : Value) : Sturdy (operation.onValues a b) := by
  unfold Arithmetic.onValues
  split <;> simp [Sturdy.map, operandMismatch, ExecutionFault.isStructural]

@[simp] theorem sturdy_negateValue (v : Value) : Sturdy (negateValue v) := by
  cases v <;> simp [negateValue, Value.mismatch, ExecutionFault.isStructural]

@[simp] theorem sturdy_compareValues (a b : Value) : Sturdy (compareValues a b) := by
  unfold compareValues
  split <;> simp [operandMismatch, ExecutionFault.isStructural]

@[simp] theorem sturdy_thrownException (v : Value) : Sturdy (thrownException v) := by
  cases v <;> simp [thrownException, Value.mismatch, ExecutionFault.isStructural]

@[simp] theorem sturdy_arrayLength (v : Value) : Sturdy (arrayLength v) := by
  refine Sturdy.bind (sturdy_asInt32 v) fun length => ?_
  split <;> simp [throw, throwThe, MonadExceptOf.throw, ExecutionFault.isStructural]

@[simp] theorem sturdy_lengthValue (length : Nat) : Sturdy (lengthValue length) := by
  unfold lengthValue
  split <;> simp [ExecutionFault.isStructural]

@[simp] theorem sturdy_callShape (m : Module) (token : Token) : Sturdy (m.callShape token) := by
  simp only [Module.callShape]
  generalize (if token.table = Token.methodDef then _ else _) = shape?
  cases shape? <;> simp [ExecutionFault.isStructural]

@[simp] theorem sturdy_get (h : Heap) (r : HeapRef) : Sturdy (h.get r) := by
  unfold Heap.get
  split <;> simp [ExecutionFault.isStructural]

@[simp] theorem sturdy_object (h : Heap) (v : Value) : Sturdy (h.object v) := by
  cases v <;> simp [Heap.object, Value.mismatch, ExecutionFault.isStructural]

@[simp] theorem sturdy_array (h : Heap) (v : Value) : Sturdy (h.array v) := by
  refine Sturdy.bind (sturdy_object h v) fun object => ?_
  split <;> simp [throw, throwThe, MonadExceptOf.throw, Heap.mismatch, ExecutionFault.isStructural]

@[simp] theorem sturdy_string (h : Heap) (v : Value) : Sturdy (h.string v) := by
  refine Sturdy.bind (sturdy_object h v) fun object => ?_
  split <;> simp [throw, throwThe, MonadExceptOf.throw, Heap.mismatch, ExecutionFault.isStructural]

@[simp] theorem sturdy_elementIndex (index : Int32) (length : Nat) : Sturdy (Heap.elementIndex index length) := by
  unfold Heap.elementIndex
  split <;> simp [ExecutionFault.isStructural]

@[simp] theorem sturdy_element (elements : Array Value) (index : Int32) : Sturdy (Heap.element elements index) :=
  Sturdy.bind (sturdy_elementIndex index elements.size) fun _ => Sturdy.pure

@[simp] theorem sturdy_unboxValue (h : Heap) (v : Value) : Sturdy (unboxValue h v) := by
  refine Sturdy.bind (sturdy_object h v) fun object => ?_
  split <;> simp

@[simp] theorem sturdy_naming (m : Module) (token : Token) : Sturdy (m.naming token) := by
  unfold Module.naming
  split <;> simp [ExecutionFault.isStructural]

@[simp] theorem sturdy_isInstance (m : Module) (h : Heap) (r : HeapRef) (type : Token) :
    Sturdy (isInstance m h r type) := by
  refine (sturdy_naming m type).bind fun name? => ?_
  split <;> simp [Sturdy.map]

@[simp] theorem sturdy_checkCast (m : Module) (h : Heap) (r : HeapRef) (type : Token) :
    Sturdy (checkCast m h r type) := by
  refine Sturdy.bind (sturdy_get h r) fun object => ?_
  refine Sturdy.bind (sturdy_isInstance m h r type) fun holds => ?_
  split <;> simp [throw, throwThe, MonadExceptOf.throw, ExecutionFault.isStructural]

/-! ### Computations on a machine -/

namespace Running

variable {α β : Type}

/-- What a computation gives has a property, and it fails for no structural fault. -/
structure Secures (x : Running α) (Q : α → Prop) : Prop where
  ensures : Ensures x Q
  sound : ∀ {s fault t}, x s = .error fault t → fault.isStructural = false

namespace Secures

variable {P Q : α → Prop} {x : Running α}

theorem pure {a : α} (holds : Q a) : Secures (pure a) Q := ⟨Ensures.pure holds, nofun⟩

theorem throw {fault : Fault} (sound : fault.isStructural = false) : Secures (throw fault : Running α) Q := by
  refine ⟨Ensures.fails, fun failed => ?_⟩
  cases failed
  exact sound

theorem bind {f : α → Running β} {R : β → Prop} (first : Secures x P) (second : ∀ a, P a → Secures (f a) R) :
    Secures (x >>= f) R := by
  refine ⟨first.ensures.bind fun a holds => (second a holds).ensures, fun {s fault t} failed => ?_⟩
  change EStateM.bind x f s = _ at failed
  unfold EStateM.bind at failed
  cases start : x s with
  | ok a u =>
    rw [start] at failed
    exact (second a (first.ensures _ _ _ start)).sound failed
  | error cause u =>
    rw [start] at failed
    cases failed
    exact first.sound start

theorem compute {x : Except ExecutionFault α} (sturdy : Sturdy x) : Secures (compute x) fun a => x = .ok a := by
  cases x with
  | ok a => exact pure rfl
  | error cause => exact throw (sturdy _ rfl)

theorem fail {cause : ExecutionFault} (sound : cause.isStructural = false) : Secures (fail cause : Running α) Q :=
  throw sound

theorem attempt (secures : Secures x Q) :
    Secures (attempt x) fun result =>
      (∀ a, result = .ok a → Q a) ∧ ∀ fault, result = .error fault → fault.isStructural = false := by
  have tried : ∀ s, ∃ result t, Running.attempt x s = .ok result t ∧
      (∀ a, result = .ok a → Q a) ∧ ∀ fault, result = .error fault → fault.isStructural = false := by
    intro s
    unfold Running.attempt
    cases done : x s with
    | ok a t => exact ⟨_, _, rfl, fun b same => Except.ok.inj same ▸ secures.ensures _ _ _ done, nofun⟩
    | error fault t => exact ⟨_, _, rfl, nofun, fun cause same => Except.error.inj same ▸ secures.sound done⟩
  constructor
  · intro s result t done
    obtain ⟨result', t', done', holds⟩ := tried s
    rw [done] at done'
    cases done'
    exact holds
  · intro s fault t failed
    obtain ⟨result, t', done, -⟩ := tried s
    rw [failed] at done
    cases done

/-- A computation that always succeeds. -/
theorem total (total : ∀ s, ∃ a t, x s = .ok a t) : Secures x fun _ => True := by
  refine ⟨Ensures.always, fun {s fault t} failed => ?_⟩
  obtain ⟨a, u, done⟩ := total s
  rw [done] at failed
  cases failed

end Secures

theorem secures_heap : Secures heap fun _ => True := .total fun s => ⟨s.heap, s, rfl⟩

theorem secures_allocate (object : HeapObject) : Secures (allocate object) fun _ => True :=
  .total fun s => ⟨s.heap.nextRef, { s with heap := s.heap.push object }, rfl⟩

theorem secures_modifyObject (r : HeapRef) (f : HeapObject → HeapObject) :
    Secures (modifyObject r f) fun _ => True := .total fun s => ⟨(), { s with heap := s.heap.modify r f }, rfl⟩

end Running

open Running (Secures secures_heap secures_allocate secures_modifyObject)

/-! ### Instructions -/

/-- The operand has what the operation takes from it. -/
def Instruction.hasOperand (i : Instruction) : Bool :=
  match i.opcode.action with
  | .loadArgument _ => i.argument?.isSome
  | .loadLocal _ | .storeLocal _ => i.slot?.isSome
  | .pushInt32 => i.int32?.isSome
  | .pushInt64 => i.int64?.isSome
  | .pushReal => i.real?.isSome
  | .pushText => i.string?.isSome
  | .jump | .jumpWhen _ | .jumpIf _ | .leave => i.target?.isSome
  | .call _ | .construct | .cast => i.token?.isSome
  | .loadToken => i.handleValue?.isSome
  | _ => true

theorem Instruction.hasOperand_of_operandMatches {i : Instruction} (fits : i.operandMatches = true) :
    i.hasOperand = true := by
  obtain ⟨opcode, operand⟩ := i
  cases opcode <;> first
    | rfl
    | cases operand <;> first
      | rfl
      | exact absurd fits Bool.false_ne_true

theorem Instruction.secures_require {α : Type} {operand : MissingOperand} {a? : Option α} (some : a?.isSome) :
    Secures (require operand a?) fun a => a? = .some a := by
  cases a? with
  | none => cases some
  | some a => exact Secures.pure rfl

theorem Instruction.secures_branchTarget {i : Instruction} (some : i.target?.isSome) :
    Secures i.branchTarget fun target => i.target? = .some target := by
  unfold branchTarget
  split
  · exact Secures.pure ‹_›
  · rename_i none
    rw [none] at some
    cases some

theorem Instruction.secures_requireToken {i : Instruction} (some : i.token?.isSome) :
    Secures i.requireToken fun _ => True := by
  unfold requireToken
  split
  · exact Secures.pure trivial
  · rename_i none
    rw [none] at some
    cases some

theorem secures_pop (stack : List Value) : Secures (pop stack) fun _ => True := by
  cases stack with
  | nil => exact Secures.fail rfl
  | cons value rest => exact Secures.pure trivial

theorem secures_popPair (stack : List Value) : Secures (popPair stack) fun _ => True :=
  (secures_pop stack).bind fun first _ => (secures_pop first.2).bind fun _ _ => Secures.pure trivial

theorem secures_popMany (count : Nat) (stack : List Value) : Secures (popMany count stack) fun _ => True := by
  unfold popMany
  split
  · exact Secures.pure trivial
  · exact Secures.fail rfl

theorem secures_storeElement (target : Value) (index : Int32) (value : Value) :
    Secures (storeElement target index value) fun _ => True := by
  unfold storeElement
  split
  · refine secures_heap.bind fun heap _ => (Secures.compute (sturdy_get heap _)).bind fun object _ => ?_
    split
    · exact (Secures.compute (sturdy_elementIndex index _)).bind fun _ _ => secures_modifyObject _ _
    · exact Secures.fail rfl
  · exact Secures.fail rfl

theorem secures_boxValue (value : Value) : Secures (boxValue value) fun _ => True := by
  cases value <;> first
    | exact Secures.pure trivial
    | exact (secures_allocate _).bind fun _ _ => Secures.pure trivial

/-- An instruction with a fitting operand, and with its slot in the frame, has no structural fault. -/
theorem secures_step (m : Module) {f : Frame} {i : Instruction} (fits : i.operandMatches = true)
    (inside : ∀ slot, i.slot? = some slot → slot.toNat < f.slots.size) :
    Secures (step m f i) fun result => i.Makes result.2 ∧ i.opcode.action ≠ .unsupported := by
  suffices sound : Secures (step m f i) fun _ => True by
    refine ⟨fun s result t done => ⟨ensures_step m f i s result t done, fun unsupported => ?_⟩, sound.sound⟩
    simp only [step, unsupported] at done
    cases done
  have found := Instruction.hasOperand_of_operandMatches fits
  unfold Instruction.hasOperand at found
  unfold step
  split <;> rename_i operation <;> simp only [operation] at found <;> dsimp only <;>
    repeat' first
      | exact Secures.pure trivial
      | exact Secures.fail rfl
      | exact Secures.throw rfl
      | refine (Instruction.secures_require found).bind fun _ _ => ?_
      | refine (Instruction.secures_branchTarget found).bind fun _ _ => ?_
      | refine (Instruction.secures_requireToken found).bind fun _ _ => ?_
      | refine (secures_pop _).bind fun _ _ => ?_
      | refine (secures_popPair _).bind fun _ _ => ?_
      | refine (secures_popMany _ _).bind fun _ _ => ?_
      | refine secures_heap.bind fun _ _ => ?_
      | refine (secures_allocate _).bind fun _ _ => ?_
      | refine (secures_storeElement _ _ _).bind fun _ _ => ?_
      | refine (secures_boxValue _).bind fun _ _ => ?_
      | refine (Secures.compute (by simp)).bind fun _ _ => ?_
      | refine (Secures.compute (sturdy_slot (inside _ ‹_›))).bind fun _ _ => ?_
      | refine (Secures.compute (sturdy_checkSlot (inside _ ‹_›))).bind fun _ _ => ?_
      | split

end AspectWeaving

import AspectWeaving.Proofs.CompactSteps
import AspectWeaving.Proofs.StackUse

/-!
The compact forms of loads, stores and constants. Each has an operand that fits the bytes written for it,
makes exactly its move of the frame (`Instruction.Moves`), and no instruction that does the same is shorter
(`compact_forms`).

An instruction is known by what it does in one frame with a single value of its own: on an empty stack that
value can only come from where it is (`Instruction.Pushes`), which gives the index or the constant of the
instruction, and with it the least size it can have.
-/
namespace AspectWeaving

open Running (compute Ensures)

/-! ### Widths of operands -/

/-- How many numbers can be written in some bytes. -/
def numbersIn (bytes : Nat) : Nat := Nat.pow 256 bytes

theorem numbersIn_one : numbersIn 1 = 256 := rfl

theorem numbersIn_four : numbersIn 4 = 4294967296 := rfl

/-- A number, which has a sign, or an index, which has none, can be written in some bytes. What is written for a
    target, a token or a text does not depend on the instruction. -/
def Operand.FitsBytes (bytes : Nat) : Operand → Prop
  | .int32 value => -(numbersIn bytes : Int) ≤ 2 * value.toInt ∧ 2 * value.toInt < numbersIn bytes
  | .int64 value => -(numbersIn bytes : Int) ≤ 2 * value.toInt ∧ 2 * value.toInt < numbersIn bytes
  | .argument index | .slot index => index.toNat < numbersIn bytes
  | _ => True

/-! ### Moves of a frame -/

/-- Only the last of some values is marked. -/
theorem getElem?_marked {α : Type} {n k : Nat} {others mark : α} (differ : others ≠ mark) :
    ((Array.replicate n others).push mark)[k]? = some mark ↔ k = n := by
  rw [Array.getElem?_push, Array.size_replicate]
  split
  · simp [*]
  · simp [Array.getElem?_replicate, *]

theorem Activation.argument_eq_ok {a : Activation} {index : Nat} {value : Value} :
    a.argument index = .ok value ↔ a.arguments[index]? = some value := by
  unfold argument
  split <;> simp [*]

namespace Frame

theorem slot_eq_ok {f : Frame} {index : Nat} {value : Value} :
    f.slot index = .ok value ↔ f.slots[index]? = some (some value) := by
  unfold slot
  split <;> simp [*]

/-- The frame with a value on top of its stack. -/
def push (f : Frame) (value : Value) : Frame := { f with stack := value :: f.stack }

/-- The frame with an argument on its stack. -/
def pushArgument (f : Frame) (index : UInt16) : Except ExecutionFault Frame :=
  (f.activation.argument index.toNat).map f.push

/-- The frame with the value of a slot on its stack. -/
def pushSlot (f : Frame) (index : UInt16) : Except ExecutionFault Frame :=
  (f.slot index.toNat).map f.push

/-- The frame with the top of its stack in a slot. -/
def popSlot (f : Frame) (index : UInt16) : Except ExecutionFault Frame :=
  match f.stack with
  | [] => .error .stackUnderflow
  | value :: stack => (f.checkSlot index.toNat).map fun _ => { f with stack }.store index.toNat value

/-- The frame with a constant on its stack. -/
def pushConstant (f : Frame) (value : Int32) : Except ExecutionFault Frame := .ok (f.push (.int32 value))

/-- A frame of an empty body. -/
def bare (arguments : Array Value) (slots : Array (Option Value)) (stack : List Value) : Frame where
  activation :=
    { method := default, body := default, returnsValue := false, arguments, positions := _, positions_eq := rfl }
  pending := []
  place := default
  slots := slots
  stack := stack

end Frame

namespace Instruction

/-- The operand is of the kind the opcode takes, and fits the bytes that are written for it. -/
structure FitsWidth (i : Instruction) : Prop where
  kind : i.operandMatches = true
  width : i.operand.FitsBytes i.opcode.operandKind.size

/-- Where an instruction does not fail, another one leaves the same stack and machine, to the same effect. -/
def DoneBy (i j : Instruction) : Prop :=
  ∀ m f s made t, step m f i s = .ok made t → step m f j s = .ok made t

/-- The instruction makes a move of its frame and control goes on behind it, or the fault of the move is raised. -/
def Moves (i : Instruction) (move : Frame → Except ExecutionFault Frame) : Prop :=
  ∀ (p : Program) (f : Frame) (cs : List Frame) (s : Machine), f.activation.body.code.get? f.place = some i →
    p.after f cs s =
      match move f with
      | .ok g => goAhead g cs { s with executed := s.executed + 1 }
      | .error cause => raise p.module (.execution cause) (f :: cs) { s with executed := s.executed + 1 }

/-- The instruction is the shortest one for a move. -/
structure Compact (i : Instruction) (move : Frame → Except ExecutionFault Frame) : Prop where
  fits : i.FitsWidth
  moves : i.Moves move
  shortest : ∀ j : Instruction, j.FitsWidth → i.DoneBy j → i.size ≤ j.size

/-- The constant an instruction pushes. -/
def constant? (i : Instruction) : Option Int32 :=
  match i.opcode.action, i.operand with
  | .pushConstant value, _ => some value
  | .pushInt32, .int32 value => some value
  | _, _ => none

/-- Where the value may come from that an instruction pushes on an empty stack. -/
inductive Pushes (i : Instruction) (f : Frame) : Value → Prop
  | argument {index : UInt16} {value : Value} (named : i.argument? = some index)
      (held : f.activation.argument index.toNat = .ok value) : Pushes i f value
  | slot {index : UInt16} {value : Value} (named : i.slot? = some index)
      (held : f.slot index.toNat = .ok value) : Pushes i f value
  | constant {value : Int32} (named : i.constant? = some value) : Pushes i f (.int32 value)
  | other {value : Value} (result : value ≠ .void) (number : ∀ n, value ≠ .int32 n) : Pushes i f value

variable {m : Module} {f : Frame} {i j : Instruction} {index : UInt16} {value : Int32}

/-! ### What an instruction pushes -/

theorem ensures_require {α : Type} (operand : MissingOperand) (a : Option α) :
    Ensures (require operand a) fun found => a = some found := by
  cases a with
  | none => exact Ensures.fails
  | some a => exact Ensures.pure rfl

theorem constant?_of_pushInt32 (action : i.opcode.action = .pushInt32) : i.constant? = i.int32? := by
  unfold constant? int32?
  rw [action]
  cases i.operand <;> rfl

/-- On an empty stack, what is there after an instruction comes from where the instruction says. -/
theorem ensures_pushed (m : Module) (i : Instruction) (bare : f.stack = []) :
    Ensures (step m f i) fun made => ∀ value, made = ([value], .next) → i.Pushes f value := by
  have pops : ∀ {β : Type} {k : Value × List Value → Running β} {Q : β → Prop}, Ensures (pop f.stack >>= k) Q := by
    intro β k Q
    rw [bare]
    exact Ensures.bind (P := fun _ => False) Ensures.fails fun _ => False.elim
  have popsPair : ∀ {β : Type} {k : Value × Value × List Value → Running β} {Q : β → Prop},
      Ensures (popPair f.stack >>= k) Q := by
    intro β k Q
    exact Ensures.bind (P := fun _ => False) pops fun _ => False.elim
  have pushes : ∀ {value : Value}, i.Pushes f value →
      Ensures (pure (value :: f.stack, Effect.next)) fun made => ∀ value, made = ([value], .next) → i.Pushes f value := by
    intro value pushed
    rw [bare]
    refine Ensures.pure fun other same => ?_
    cases same
    exact pushed
  have turns : ∀ {stack : List Value} {effect : Effect}, effect ≠ .next →
      Ensures (pure (stack, effect)) fun made => ∀ value, made = ([value], .next) → i.Pushes f value := by
    intro stack effect elsewhere
    refine Ensures.pure fun value same => ?_
    cases same
    exact absurd rfl elsewhere
  -- What pops fails here, so only the operations count that push a value of their own.
  cases operation : i.opcode.action with
  | nothing =>
    simp only [step, operation]
    refine Ensures.pure fun value same => ?_
    rw [bare] at same
    cases same
  | loadArgument fixed =>
    simp only [step, operation]
    refine Ensures.bind (ensures_require _ _) fun index named => ?_
    exact Ensures.bind (ensures_compute _) fun value held => pushes (.argument named held)
  | loadLocal fixed =>
    simp only [step, operation]
    refine Ensures.bind (ensures_require _ _) fun index named => ?_
    exact Ensures.bind (ensures_compute _) fun value held => pushes (.slot named held)
  | pushNull =>
    simp only [step, operation]
    exact pushes (.other (by simp) (by simp))
  | pushConstant value =>
    simp only [step, operation]
    exact pushes (.constant (by rw [constant?, operation]))
  | pushInt32 =>
    simp only [step, operation]
    refine Ensures.bind (ensures_require _ _) fun value named => ?_
    exact pushes (.constant ((constant?_of_pushInt32 operation).trans named))
  | pushInt64 =>
    simp only [step, operation]
    exact Ensures.bind Ensures.always fun _ _ => pushes (.other (by simp) (by simp))
  | pushReal =>
    simp only [step, operation]
    exact Ensures.bind Ensures.always fun _ _ => pushes (.other (by simp) (by simp))
  | pushText =>
    simp only [step, operation]
    refine Ensures.bind Ensures.always fun _ _ => ?_
    exact Ensures.bind Ensures.always fun _ _ => pushes (.other (by simp) (by simp))
  | loadToken =>
    simp only [step, operation]
    refine Ensures.bind (ensures_require _ _) fun value named => pushes ?_
    unfold handleValue? at named
    split at named <;> cases named <;> exact .other (by simp) (by simp)
  | _ =>
    simp only [step, operation]
    repeat' first
      | exact pops
      | exact popsPair
      | exact Ensures.fails
      | exact turns (by simp)
      | refine Ensures.bind Ensures.always fun _ _ => ?_
      | split

/-! ### Sizes -/

/-- The least size of an instruction that works on an index. -/
def indexedSize (index : UInt16) : Nat :=
  if index.toNat ≤ 3 then 1 else if index.toNat ≤ 255 then 2 else 4

/-- The least size of an instruction that pushes a constant. -/
def constantSize (value : Int32) : Nat :=
  if -1 ≤ value.toInt ∧ value.toInt ≤ 8 then 1 else if -128 ≤ value.toInt ∧ value.toInt ≤ 127 then 2 else 5

end Instruction

namespace Opcode

variable {o : Opcode}

/-- The opcode works on an argument or a slot, with an index of its own or with that of its operand. -/
def Indexes (o : Opcode) (fixed : Option UInt16) : Prop :=
  o.action = .loadArgument fixed ∨ o.action = .loadLocal fixed ∨ o.action = .storeLocal fixed

theorem one_le_size (o : Opcode) : 1 ≤ o.size := by
  unfold size
  split <;> decide

theorem fixed_le {index : UInt16} (indexes : o.Indexes (some index)) : index.toNat ≤ 3 := by
  rcases indexes with action | action | action <;> cases o <;> cases action <;> decide

/-- An opcode takes as many bytes as the index that follows it. -/
theorem size_of_indexes (indexes : o.Indexes none) :
    o.size = o.operandKind.size ∧ (o.operandKind.size = 1 ∨ o.operandKind.size = 2) := by
  rcases indexes with action | action | action <;> cases o <;> cases action <;> decide

theorem fixed_constant {value : Int32} (action : o.action = .pushConstant value) :
    -1 ≤ value.toInt ∧ value.toInt ≤ 8 := by
  cases o <;> cases action <;> decide

theorem size_of_pushInt32 (action : o.action = .pushInt32) :
    o.operandKind.size = 1 ∨ o.operandKind.size = 4 := by
  cases o <;> cases action <;> decide

end Opcode

namespace Instruction

variable {i : Instruction} {index : UInt16} {value : Int32}

/-- An instruction works on an index, with one that its opcode fixes or with the one of its operand. -/
def WorksOn (i : Instruction) (index : UInt16) : Prop :=
  i.opcode.Indexes (some index) ∨ i.opcode.Indexes none ∧ (i.operand = .argument index ∨ i.operand = .slot index)

theorem worksOn_of_argument? (named : i.argument? = some index) : i.WorksOn index := by
  unfold argument? at named
  cases action : i.opcode.action with
  | loadArgument fixed =>
    cases fixed with
    | some k =>
      rw [action] at named
      cases named
      exact .inl (.inl action)
    | none =>
      cases operand : i.operand with
      | argument k =>
        rw [action, operand] at named
        cases named
        exact .inr ⟨.inl action, .inl operand⟩
      | _ => simp [action, operand] at named
  | _ => simp [action] at named

theorem worksOn_of_slot? (named : i.slot? = some index) : i.WorksOn index := by
  unfold slot? at named
  cases action : i.opcode.action with
  | loadLocal fixed | storeLocal fixed =>
    have indexes : i.opcode.Indexes fixed := by simp [Opcode.Indexes, action]
    cases fixed with
    | some k =>
      rw [action] at named
      cases named
      exact .inl indexes
    | none =>
      cases operand : i.operand with
      | slot k =>
        rw [action, operand] at named
        cases named
        exact .inr ⟨indexes, .inr operand⟩
      | _ => simp [action, operand] at named
  | _ => simp [action] at named

/-- An opcode that fixes an index has a small one, and what is written in one byte is below 256. -/
theorem indexedSize_le (fits : i.FitsWidth) (works : i.WorksOn index) : indexedSize index ≤ i.size := by
  have atLeast : 1 ≤ i.opcode.size := i.opcode.one_le_size
  unfold indexedSize size
  rcases works with fixed | ⟨indexes, operand⟩
  · rw [if_pos (Opcode.fixed_le fixed)]
    omega
  · have width : index.toNat < numbersIn i.opcode.operandKind.size := by
      have written := fits.width
      rcases operand with operand | operand <;> rwa [operand] at written
    obtain ⟨same, one | two⟩ := Opcode.size_of_indexes indexes
    · rw [one, numbersIn_one] at width
      split
      · omega
      · rw [if_pos (by omega)]
        omega
    · split
      · omega
      · split <;> omega

theorem constant?_eq_some (named : i.constant? = some value) :
    i.opcode.action = .pushConstant value ∨ i.opcode.action = .pushInt32 ∧ i.operand = .int32 value := by
  unfold constant? at named
  cases action : i.opcode.action with
  | pushConstant constant =>
    rw [action] at named
    cases named
    exact .inl rfl
  | pushInt32 =>
    cases operand : i.operand with
    | int32 constant =>
      rw [action, operand] at named
      cases named
      exact .inr ⟨rfl, rfl⟩
    | _ => simp [action, operand] at named
  | _ => simp [action] at named

theorem constantSize_le (fits : i.FitsWidth) (named : i.constant? = some value) : constantSize value ≤ i.size := by
  have atLeast : 1 ≤ i.opcode.size := i.opcode.one_le_size
  unfold constantSize size
  rcases constant?_eq_some named with fixed | ⟨action, operand⟩
  · rw [if_pos (Opcode.fixed_constant fixed)]
    omega
  · obtain ⟨lower, upper⟩ : Operand.FitsBytes i.opcode.operandKind.size (.int32 value) := operand ▸ fits.width
    split
    · omega
    · rcases Opcode.size_of_pushInt32 action with one | four
      · rw [one, numbersIn_one] at lower upper
        rw [if_pos (by omega)]
        omega
      · split <;> omega

/-! ### The forms -/

/-- The opcodes of an operation on an index: those that fix one of the first four, one with the index in a
    byte and one with the whole index. -/
structure IndexedForms where
  fixed : Fin 4 → Opcode
  short : Opcode
  long : Opcode
  operand : UInt16 → Operand
  fits_fixed : ∀ k, FitsWidth ⟨fixed k, .none⟩ ∧ size ⟨fixed k, .none⟩ = 1
  fits_short : ∀ index, index.toNat ≤ 255 → FitsWidth ⟨short, operand index⟩ ∧ size ⟨short, operand index⟩ = 2
  fits_long : ∀ index, FitsWidth ⟨long, operand index⟩ ∧ size ⟨long, operand index⟩ = 4

namespace IndexedForms

/-- The form with an index. -/
def form (x : IndexedForms) (index : UInt16) : Instruction :=
  match index.toNat with
  | 0 => ⟨x.fixed 0, .none⟩
  | 1 => ⟨x.fixed 1, .none⟩
  | 2 => ⟨x.fixed 2, .none⟩
  | 3 => ⟨x.fixed 3, .none⟩
  | n => ⟨if n ≤ 255 then x.short else x.long, x.operand index⟩

theorem form_spec (x : IndexedForms) (index : UInt16) :
    (x.form index).FitsWidth ∧ (x.form index).size = indexedSize index := by
  unfold form indexedSize
  split
  case h_5 zero one two three =>
    have beyond : ¬ index.toNat ≤ 3 := by grind
    rw [if_neg beyond]
    split
    · exact x.fits_short index ‹_›
    · exact x.fits_long index
  all_goals
    rename_i same
    rw [same]
    exact x.fits_fixed _

/-- The loads of an argument. -/
def argumentLoads : IndexedForms where
  fixed
    | 0 => .ldarg0
    | 1 => .ldarg1
    | 2 => .ldarg2
    | 3 => .ldarg3
  short := .ldargS
  long := .ldarg
  operand := .argument
  fits_fixed
    | 0 | 1 | 2 | 3 => ⟨⟨rfl, trivial⟩, rfl⟩
  fits_short _ small := ⟨⟨rfl, Nat.lt_succ_of_le small⟩, rfl⟩
  fits_long index := ⟨⟨rfl, index.toNat_lt⟩, rfl⟩

/-- The loads of a slot. -/
def slotLoads : IndexedForms where
  fixed
    | 0 => .ldloc0
    | 1 => .ldloc1
    | 2 => .ldloc2
    | 3 => .ldloc3
  short := .ldlocS
  long := .ldloc
  operand := .slot
  fits_fixed
    | 0 | 1 | 2 | 3 => ⟨⟨rfl, trivial⟩, rfl⟩
  fits_short _ small := ⟨⟨rfl, Nat.lt_succ_of_le small⟩, rfl⟩
  fits_long index := ⟨⟨rfl, index.toNat_lt⟩, rfl⟩

/-- The stores in a slot. -/
def slotStores : IndexedForms where
  fixed
    | 0 => .stloc0
    | 1 => .stloc1
    | 2 => .stloc2
    | 3 => .stloc3
  short := .stlocS
  long := .stloc
  operand := .slot
  fits_fixed
    | 0 | 1 | 2 | 3 => ⟨⟨rfl, trivial⟩, rfl⟩
  fits_short _ small := ⟨⟨rfl, Nat.lt_succ_of_le small⟩, rfl⟩
  fits_long index := ⟨⟨rfl, index.toNat_lt⟩, rfl⟩

end IndexedForms

theorem loadArgument_fits (index : UInt16) :
    (loadArgument index).FitsWidth ∧ (loadArgument index).size = indexedSize index :=
  IndexedForms.argumentLoads.form_spec index

theorem loadSlot_fits (index : UInt16) : (loadSlot index).FitsWidth ∧ (loadSlot index).size = indexedSize index :=
  IndexedForms.slotLoads.form_spec index

theorem storeSlot_fits (index : UInt16) : (storeSlot index).FitsWidth ∧ (storeSlot index).size = indexedSize index :=
  IndexedForms.slotStores.form_spec index

theorem pushInt32_fits (value : Int32) : (pushInt32 value).FitsWidth ∧ (pushInt32 value).size = constantSize value := by
  unfold pushInt32 constantSize
  split
  case h_11 =>
    have beyond : ¬ (-1 ≤ value.toInt ∧ value.toInt ≤ 8) := by grind
    rw [if_neg beyond]
    split
    · have width : Operand.FitsBytes 1 (.int32 value) := by
        unfold Operand.FitsBytes
        rw [numbersIn_one]
        omega
      exact ⟨⟨rfl, width⟩, rfl⟩
    · have width : Operand.FitsBytes 4 (.int32 value) := by
        have lower := value.le_toInt
        have upper := value.toInt_lt
        unfold Operand.FitsBytes
        rw [numbersIn_four]
        omega
      exact ⟨⟨rfl, width⟩, rfl⟩
  all_goals
    rename_i same
    rw [same]
    exact ⟨⟨rfl, trivial⟩, rfl⟩

example : [-129, -128, -2, -1, 8, 9, 127, 128].map (fun v => (pushInt32 v).size) = [5, 2, 2, 1, 1, 2, 2, 5] := by decide

/-! ### Moves of the forms -/

theorem moves_loadArgument (index : UInt16) : (loadArgument index).Moves (·.pushArgument index) := by
  intro p f cs s found
  rw [Program.after_eq p cs found, step_loadArgument (.refl _)]
  simp only [Frame.pushArgument]
  cases f.activation.argument index.toNat <;> rfl

theorem moves_loadSlot (index : UInt16) : (loadSlot index).Moves (·.pushSlot index) := by
  intro p f cs s found
  rw [Program.after_eq p cs found, step_loadSlot (.refl _)]
  simp only [Frame.pushSlot]
  cases f.slot index.toNat <;> rfl

theorem moves_storeSlot (index : UInt16) : (storeSlot index).Moves (·.popSlot index) := by
  intro p f cs s found
  rw [Program.after_eq p cs found, step_storeSlot (.refl _)]
  simp only [Frame.popSlot]
  cases f.stack with
  | nil => rfl
  | cons value stack => cases f.checkSlot index.toNat <;> rfl

theorem moves_pushInt32 (value : Int32) : (pushInt32 value).Moves (·.pushConstant value) := by
  intro p f cs s found
  rw [Program.after_eq p cs found, step_pushInt32 (.refl _)]
  rfl

/-! ### What does the same -/

/-- What loads one of many arguments in the place of a load does so for the same index. -/
theorem argument?_of_doneBy (same : (loadArgument index).DoneBy j) : j.argument? = some index := by
  -- The value of the one argument is no other's, and nothing else pushes it.
  let f := Frame.bare ((Array.replicate index.toNat .null).push .void) #[] []
  have marked (k : Nat) : f.activation.argument k = .ok .void ↔ k = index.toNat :=
    Activation.argument_eq_ok.trans (getElem?_marked nofun)
  have loaded : step default f (loadArgument index) {} = .ok ([.void], .next) {} := by
    rw [step_loadArgument (.refl _), (marked _).mpr rfl]
    rfl
  have pushed : j.Pushes f .void := ensures_pushed default j rfl _ _ _ (same _ _ _ _ _ loaded) .void rfl
  cases pushed with
  | argument named held => rw [named, UInt16.toNat_inj.mp ((marked _).mp held)]
  | slot named held => simp [f, Frame.bare, Frame.slot_eq_ok] at held
  | other result => exact absurd rfl result

/-- What loads one of many slots, of which the others have no value, does so for the same index. -/
theorem slot?_of_doneBy_loadSlot (same : (loadSlot index).DoneBy j) : j.slot? = some index := by
  let f := Frame.bare #[] ((Array.replicate index.toNat none).push (some .void)) []
  have marked (k : Nat) : f.slot k = .ok .void ↔ k = index.toNat :=
    Frame.slot_eq_ok.trans (getElem?_marked nofun)
  have loaded : step default f (loadSlot index) {} = .ok ([.void], .next) {} := by
    rw [step_loadSlot (.refl _), (marked _).mpr rfl]
    rfl
  have pushed : j.Pushes f .void := ensures_pushed default j rfl _ _ _ (same _ _ _ _ _ loaded) .void rfl
  cases pushed with
  | argument named held => simp [f, Frame.bare, Activation.argument_eq_ok] at held
  | slot named held => rw [named, UInt16.toNat_inj.mp ((marked _).mp held)]
  | other result => exact absurd rfl result

theorem constant?_of_doneBy (same : (pushInt32 value).DoneBy j) : j.constant? = some value := by
  let f := Frame.bare #[] #[] []
  have made : step default f (pushInt32 value) {} = .ok ([.int32 value], .next) {} := by
    rw [step_pushInt32 (.refl _)]
    rfl
  have pushed : j.Pushes f (.int32 value) := ensures_pushed default j rfl _ _ _ (same _ _ _ _ _ made) _ rfl
  cases pushed with
  | argument named held => simp [f, Frame.bare, Activation.argument_eq_ok] at held
  | slot named held => simp [f, Frame.bare, Frame.slot_eq_ok] at held
  | constant named => exact named
  | other result number => exact absurd rfl (number value)

/-- What stores does so in the slot that it names. -/
theorem ensures_stored (m : Module) (f : Frame) (i : Instruction) :
    Ensures (step m f i) fun made => ∀ stack index value, made = (stack, .store index value) →
      ∃ named, i.slot? = some named ∧ named.toNat = index := by
  intro s made t done stack index value same
  obtain ⟨fixed, action⟩ : ∃ fixed, i.opcode.action = .storeLocal fixed := by
    have makes := ensures_step m f i _ _ _ done
    rwa [same] at makes
  simp only [step, action] at done
  obtain ⟨named, u, found, rest⟩ := Running.bind_eq_ok.mp done
  refine ⟨named, ensures_require _ _ _ _ _ found, ?_⟩
  obtain ⟨⟨top, below⟩, u, popped, rest⟩ := Running.bind_eq_ok.mp rest
  obtain ⟨-, u, checked, rest⟩ := Running.bind_eq_ok.mp rest
  cases same
  cases rest
  rfl

theorem slot?_of_doneBy_storeSlot (same : (storeSlot index).DoneBy j) : j.slot? = some index := by
  let f := Frame.bare #[] (Array.replicate (index.toNat + 1) none) [.null]
  have stored : step default f (storeSlot index) {} = .ok ([], .store index.toNat .null) {} := by
    rw [step_storeSlot (.refl _)]
    have there : f.checkSlot index.toNat = .ok () := by simp [f, Frame.bare, Frame.checkSlot]
    rw [there]
    rfl
  obtain ⟨named, found, here⟩ := ensures_stored default f j _ _ _ (same _ _ _ _ _ stored) _ _ _ rfl
  rw [found, UInt16.toNat_inj.mp here]

/-! ### The shortest forms -/

theorem compact_loadArgument (index : UInt16) : (loadArgument index).Compact (·.pushArgument index) where
  fits := (loadArgument_fits index).1
  moves := moves_loadArgument index
  shortest j fits same := by
    rw [(loadArgument_fits index).2]
    exact indexedSize_le fits (worksOn_of_argument? (argument?_of_doneBy same))

theorem compact_loadSlot (index : UInt16) : (loadSlot index).Compact (·.pushSlot index) where
  fits := (loadSlot_fits index).1
  moves := moves_loadSlot index
  shortest j fits same := by
    rw [(loadSlot_fits index).2]
    exact indexedSize_le fits (worksOn_of_slot? (slot?_of_doneBy_loadSlot same))

theorem compact_storeSlot (index : UInt16) : (storeSlot index).Compact (·.popSlot index) where
  fits := (storeSlot_fits index).1
  moves := moves_storeSlot index
  shortest j fits same := by
    rw [(storeSlot_fits index).2]
    exact indexedSize_le fits (worksOn_of_slot? (slot?_of_doneBy_storeSlot same))

theorem compact_pushInt32 (value : Int32) : (pushInt32 value).Compact (·.pushConstant value) where
  fits := (pushInt32_fits value).1
  moves := moves_pushInt32 value
  shortest j fits same := by
    rw [(pushInt32_fits value).2]
    exact constantSize_le fits (constant?_of_doneBy same)

end Instruction

open Instruction

/-- The forms of loads, stores and constants are the shortest instructions for what they do, whatever the index
    or the constant, and the index can be read off them. -/
theorem compact_forms (index : UInt16) (value : Int32) :
    ((loadArgument index).Compact (·.pushArgument index) ∧ (loadArgument index).argument? = some index) ∧
      ((loadSlot index).Compact (·.pushSlot index) ∧ (loadSlot index).slot? = some index) ∧
      ((storeSlot index).Compact (·.popSlot index) ∧ (storeSlot index).slot? = some index) ∧
      (pushInt32 value).Compact (·.pushConstant value) :=
  ⟨⟨compact_loadArgument index, (loadArgument_spec index).2⟩, ⟨compact_loadSlot index, (loadSlot_spec index).2⟩,
    ⟨compact_storeSlot index, (storeSlot_spec index).2⟩, compact_pushInt32 value⟩

end AspectWeaving

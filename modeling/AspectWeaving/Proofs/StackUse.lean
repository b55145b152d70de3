import AspectWeaving.Proofs.Stepping

/-!
What instructions do to the evaluation stack. How many values an instruction takes and gives is decided by its operation, for a call by
the shape of the method that it names (`Instruction.takes`, `Instruction.gives`); an instruction that does not fail changes the height
of the stack by just that (`ensures_height`).
-/
namespace AspectWeaving

open Running (compute fail Ensures)

namespace Instruction

/-- The shape of the method that an instruction names. -/
def shape? (m : Module) (i : Instruction) : Option CallShape := i.token?.bind fun token => (m.callShape token).toOption

/-- How many values an instruction takes off the stack, in a method that returns a value or not. -/
def takes (m : Module) (returnsValue : Bool) (i : Instruction) : Nat :=
  match i.opcode.action with
  | .storeLocal _ | .duplicate | .discard | .negate | .jumpWhen _ | .throw | .newArray | .arrayLength | .box | .unbox | .cast => 1
  | .arithmetic _ | .compare _ | .jumpIf _ | .loadElement => 2
  | .storeElement => 3
  | .exit => returnsValue.toNat
  | .call _ => ((i.shape? m).map (·.argumentCount)).getD 0
  | .construct => ((i.shape? m).map (·.parameters)).getD 0
  | _ => 0

/-- How many values an instruction puts on the stack itself. What a call gives comes later. -/
def gives (i : Instruction) : Nat :=
  match i.opcode.action with
  | .duplicate => 2
  | .loadArgument _ | .loadLocal _ | .pushNull | .pushConstant _ | .pushInt32 | .pushInt64 | .pushReal | .pushText | .loadToken |
    .arithmetic _ | .negate | .compare _ | .newArray | .arrayLength | .loadElement | .box | .unbox | .cast => 1
  | _ => 0

theorem shape?_eq_some {m : Module} {i : Instruction} {token : Token} {shape : CallShape} (named : i.token? = some token)
    (found : m.callShape token = .ok shape) : i.shape? m = some shape := by
  rw [shape?, named, Option.bind_some, found]
  rfl

end Instruction

theorem ensures_compute {α : Type} (e : Except ExecutionFault α) : Ensures (compute e) fun a => e = .ok a := by
  cases e with
  | ok a => exact Ensures.pure rfl
  | error cause => exact Ensures.fails

theorem ensures_pop (stack : List Value) : Ensures (pop stack) fun popped => popped.2.length + 1 = stack.length := by
  cases stack with
  | nil => exact Ensures.fails
  | cons value rest => exact Ensures.pure rfl

theorem ensures_popPair (stack : List Value) : Ensures (popPair stack) fun popped => popped.2.2.length + 2 = stack.length :=
  Ensures.bind (ensures_pop stack) fun first upper => Ensures.bind (ensures_pop first.2) fun second lower => Ensures.pure (by
    dsimp only
    omega)

theorem ensures_popMany (count : Nat) (stack : List Value) :
    Ensures (popMany count stack) fun popped => popped.2.length + count = stack.length := by
  unfold popMany
  split
  · exact Ensures.pure (by rw [List.length_drop]; omega)
  · exact Ensures.fails

theorem Instruction.ensures_requireToken (i : Instruction) : Ensures i.requireToken fun token => i.token? = some token := by
  unfold requireToken
  split
  · rename_i token named
    exact Ensures.pure named
  · exact Ensures.fails

/-- An instruction that does not fail takes and gives as many values as its operation says. -/
theorem ensures_height (m : Module) (f : Frame) (i : Instruction) :
    Ensures (step m f i) fun made =>
      i.takes m f.activation.returnsValue ≤ f.stack.length ∧
        made.1.length + i.takes m f.activation.returnsValue = f.stack.length + i.gives := by
  have pops : ∀ {β : Type} {stack : List Value} {k : Value × List Value → Running β} {Q : β → Prop},
      (∀ value rest, rest.length + 1 = stack.length → Ensures (k (value, rest)) Q) → Ensures (pop stack >>= k) Q :=
    fun rest => Ensures.bind (ensures_pop _) fun _ popped => rest _ _ popped
  have popsPair : ∀ {β : Type} {stack : List Value} {k : Value × Value × List Value → Running β} {Q : β → Prop},
      (∀ a b rest, rest.length + 2 = stack.length → Ensures (k (a, b, rest)) Q) → Ensures (popPair stack >>= k) Q :=
    fun rest => Ensures.bind (ensures_popPair _) fun _ popped => rest _ _ _ popped
  have settles : ∀ {taken given : Nat} {stack : List Value} {effect : Effect}, taken ≤ f.stack.length →
      stack.length + taken = f.stack.length + given → Ensures (pure (stack, effect)) fun made =>
        taken ≤ f.stack.length ∧ made.1.length + taken = f.stack.length + given :=
    fun enough height => Ensures.pure ⟨enough, height⟩
  cases operation : i.opcode.action with
  | exit =>
    simp only [step, Instruction.takes, Instruction.gives, operation]
    cases f.activation.returnsValue with
    | true =>
      rw [Bool.toNat_true]
      exact pops fun value rest popped => settles (by omega) (by omega)
    | false => exact settles (Nat.zero_le _) rfl
  | call dynamic =>
    simp only [step, Instruction.takes, Instruction.gives, operation]
    refine Ensures.bind (Instruction.ensures_requireToken i) fun token named => ?_
    refine Ensures.bind (ensures_compute _) fun shape found => Ensures.bind (ensures_popMany _ _) fun popped fits => ?_
    rw [Instruction.shape?_eq_some named found, Option.map_some, Option.getD_some]
    split
    · exact Ensures.fails
    · exact settles (by omega) fits
  | construct =>
    simp only [step, Instruction.takes, Instruction.gives, operation]
    refine Ensures.bind (Instruction.ensures_requireToken i) fun token named => ?_
    refine Ensures.bind (ensures_compute _) fun shape found => Ensures.bind (ensures_popMany _ _) fun popped fits => ?_
    rw [Instruction.shape?_eq_some named found, Option.map_some, Option.getD_some]
    exact settles (by omega) fits
  | _ =>
    simp only [step, Instruction.takes, Instruction.gives, operation]
    repeat' first
      | exact Ensures.fails
      | exact settles (by omega) (by first | omega | (simp only [List.length_cons] <;> omega))
      | (refine pops fun value rest popped => ?_; try dsimp only at popped)
      | refine popsPair fun a b rest popped => ?_
      | refine Ensures.bind Ensures.always fun result _ => ?_
      | split

end AspectWeaving

import AspectWeaving.Proofs.AttributeObjects
import AspectWeaving.Proofs.QuietHooks

/-!
Runs of a prologue. The prologue of a woven body goes through its parts one after another: it describes its method and
looks the attribute up (`Frame.At.walks_lookup`), makes an array (`Frame.At.walks_array`), puts the arguments into it
(`Frame.At.walks_arguments`), and calls the hook with all of that.
-/
namespace AspectWeaving

open Running (compute)
open Instruction (loadSlot storeSlot loadArgument pushInt32)

/-! ### Parts of a prologue -/

namespace WeavePlan

/-- The prologue up to the call that looks the attributes up. -/
def toLookup (p : WeavePlan) (s : WovenSlots) (method declaringType : Token) : List Instruction :=
  [⟨.ldtoken, .method method⟩, ⟨.ldtoken, .type declaringType⟩, ⟨.call, .method p.getMethodFromHandle⟩,
   storeSlot s.method, loadSlot s.method, ⟨.ldtoken, .type p.attributeType⟩, ⟨.call, .method p.getTypeFromHandle⟩, pushInt32 0]

/-- The prologue from there on until there is an array for the arguments. -/
def toArray (p : WeavePlan) (s : WovenSlots) : List Instruction :=
  [pushInt32 0, ⟨.ldelemRef, .none⟩, ⟨.castclass, .type p.attributeType⟩, storeSlot s.attr,
   pushInt32 (Int32.ofNat p.parameters.length), ⟨.newarr, .type p.object⟩, storeSlot s.arguments]

/-- Arguments are stored in the array of arguments from a place on. -/
def storeArguments (s : WovenSlots) (loads : List ParameterLoad) (place : Nat) : List Instruction :=
  (loads.zipIdx place).flatMap fun e => storeArgument s e.1 e.2

/-- The last loads of a prologue. -/
def toEntry (s : WovenSlots) : List Instruction := [loadSlot s.attr, loadSlot s.method, loadSlot s.arguments]

theorem prologue_eq (p : WeavePlan) (s : WovenSlots) (method declaringType : Token) :
    p.prologue s method declaringType = p.toLookup s method declaringType ++ (⟨.callvirt, .method p.getCustomAttributes⟩ ::
      (p.toArray s ++ (storeArguments s p.parameters 0 ++ (toEntry s ++ [⟨.callvirt, .method p.onEntry⟩])))) := by
  simp [prologue, toLookup, toArray, storeArguments, toEntry]

end WeavePlan

/-! ### Arrays -/

/-- A value is put into an array at a place. -/
def Heap.put (h : Heap) (r : HeapRef) (place : Nat) (v : Value) : Heap :=
  h.modify r fun
    | .array elements => .array (elements.setIfInBounds place v)
    | other => other

/-! ### Walks -/

section Walks

variable (p : Program) (cs : List Frame) {plan : WeavePlan} {k position first : Nat} {f : Frame} {s : Machine}
  {done ahead : List Instruction} {i : Instruction} {method declaringType : Token} {slots : Array (Option Value)}
  {stack rest : List Value} {heap heap' : Heap} {v : Value}

/-- A frame proceeds to an instruction of a row on its own, and then there are given values in slots and on the stack and a
    given heap. -/
def Frame.Proceeds (f : Frame) (s : Machine) (position first : Nat) (done ahead : List Instruction) (slots : Array (Option Value))
    (stack : List Value) (heap : Heap) : Prop :=
  ∃ g t, p.Walks cs first f s g t ∧ g.At position first done ahead ∧ t.hostCalls = s.hostCalls ∧ t.heap = heap ∧
    f.Moves g slots stack

theorem Frame.At.proceeds (inside : f.At position first done ahead) (s : Machine) :
    f.Proceeds p cs s position first done ahead f.slots f.stack s.heap :=
  ⟨f, s, .refl .., inside, rfl, rfl, rfl, rfl, rfl, rfl, rfl⟩

namespace Frame.Proceeds

variable {p cs}

/-- An instruction that leaves the slots alone. -/
theorem next (proceeds : f.Proceeds p cs s position first done (i :: ahead) slots stack heap) (more : ahead ≠ [])
    (steps : ∀ g u j, i.Alike j → g.activation = f.activation → g.stack = stack → u.heap = heap →
      ∃ u', step p.module g j u = .ok (rest, .next) u' ∧ u'.heap = heap' ∧ u'.hostCalls = u.hostCalls) :
    f.Proceeds p cs s position first (done ++ [i]) ahead slots rest heap' := by
  obtain ⟨g, t, walk, inside, calls, rfl, moves⟩ := proceeds
  obtain ⟨j, found, alike⟩ := inside.fetch
  obtain ⟨u, stepped, rfl, silent⟩ := steps g t.counted j alike moves.activation moves.stack rfl
  have beside := g.beside_stack rest
  refine ⟨_, u, walk.trans (inside.walk p cs more beside silent ?_), inside.onward beside, silent.trans calls, rfl,
    moves.activation, moves.pending, moves.active, moves.slots, rfl⟩
  unfold Machine.counted at stepped
  rw [Program.after_eq p cs found, stepped]
  rfl

/-- An instruction that pushes a value. -/
theorem push (proceeds : f.Proceeds p cs s position first done (i :: ahead) slots stack heap) (more : ahead ≠ [])
    (steps : ∀ g u j, i.Alike j → g.activation = f.activation → step p.module g j u = .ok (v :: g.stack, .next) u) :
    f.Proceeds p cs s position first (done ++ [i]) ahead slots (v :: stack) heap :=
  proceeds.next more fun g u j alike same top here => ⟨u, by rw [← top]; exact steps g u j alike same, here, rfl⟩

theorem pushInt32 {value : Int32} (proceeds : f.Proceeds p cs s position first done (Instruction.pushInt32 value :: ahead) slots stack heap)
    (more : ahead ≠ []) :
    f.Proceeds p cs s position first (done ++ [Instruction.pushInt32 value]) ahead slots (.int32 value :: stack) heap :=
  proceeds.push more fun g u j alike _ => by rw [Instruction.step_pushInt32 alike]; rfl

theorem load {slot : UInt16} (proceeds : f.Proceeds p cs s position first done (loadSlot slot :: ahead) slots stack heap)
    (more : ahead ≠ []) (held : slots[slot.toNat]? = some (some v)) :
    f.Proceeds p cs s position first (done ++ [loadSlot slot]) ahead slots (v :: stack) heap := by
  obtain ⟨g, t, walk, inside, calls, rfl, moves⟩ := proceeds
  have here : g.slot slot.toNat = .ok v := by
    unfold Frame.slot
    rw [moves.slots, held]
  obtain ⟨onward, there⟩ := inside.load p cs more here t
  exact ⟨_, _, walk.trans onward, there, calls, rfl, moves.activation, moves.pending, moves.active, moves.slots,
    congrArg (v :: ·) moves.stack⟩

theorem store {slot : UInt16} (proceeds : f.Proceeds p cs s position first done (storeSlot slot :: ahead) slots (v :: stack) heap)
    (more : ahead ≠ []) (bound : slot.toNat < slots.size) :
    f.Proceeds p cs s position first (done ++ [storeSlot slot]) ahead (slots.setIfInBounds slot.toNat (some v)) stack heap := by
  obtain ⟨g, t, walk, inside, calls, rfl, moves⟩ := proceeds
  obtain ⟨onward, there⟩ := inside.store p cs more moves.stack (by rw [moves.slots]; exact bound) t
  exact ⟨_, _, walk.trans onward, there, calls, rfl, moves.activation, moves.pending, moves.active,
    congrArg (·.setIfInBounds slot.toNat (some v)) moves.slots, rfl⟩

/-- A call that the library answers at once with an object that it makes. -/
theorem answered {target : Token} {shape : CallShape} (arguments : List Value) {o : HeapObject}
    (proceeds : f.Proceeds p cs s position first done (⟨.call, .method target⟩ :: ahead) slots (arguments.reverse ++ rest) heap)
    (more : ahead ≠ []) (answers : p.Answers target shape) (enough : arguments.length = shape.argumentCount)
    (called : ∀ u : Machine, callLibrary p (cs.length + 1) target arguments u =
      .ok (.result (.ref u.heap.nextRef)) { u with heap := u.heap.push o }) :
    f.Proceeds p cs s position first (done ++ [⟨.call, .method target⟩]) ahead slots (.ref heap.nextRef :: rest) (heap.push o) := by
  obtain ⟨g, t, walk, inside, calls, rfl, moves⟩ := proceeds
  obtain ⟨j, found, alike⟩ := inside.fetch
  have stepped : step p.module g j t.counted = .ok (rest, .call target arguments false) t.counted :=
    step_call arguments rest alike rfl rfl answers.callShape enough moves.stack nofun
  have beside := (g.beside_stack rest).trans (Frame.beside_receive _ (.ref t.heap.nextRef))
  refine ⟨_, { t.counted with heap := t.heap.push o }, walk.trans (inside.walk p cs more beside rfl ?_), inside.onward beside, calls, rfl,
    moves.activation, moves.pending, moves.active, moves.slots, rfl⟩
  have answered : call p (cs.length + 1) target arguments false t.counted = _ := (answers.call_eq (by simp)).trans (called t.counted)
  rw [Program.after_call cs found stepped, settleAttempt_eq, answered]
  rfl

/-- A value is boxed, if it is to be. -/
theorem box {type : Option Token} (proceeds : f.Proceeds p cs s position first done (boxing type ++ ahead) slots (v :: stack) heap)
    (more : ahead ≠ []) :
    f.Proceeds p cs s position first (done ++ boxing type) ahead slots ((heap.boxedIf type.isSome v).1 :: stack)
      (heap.boxedIf type.isSome v).2 := by
  obtain ⟨g, t, walk, inside, calls, rfl, moves⟩ := proceeds
  obtain ⟨h, u, onward, there, silent, same, further⟩ := inside.box p cs more moves.stack t
  exact ⟨h, u, walk.trans onward, there, silent.trans calls, same, further.activation.trans moves.activation,
    further.pending.trans moves.pending, further.active.trans moves.active, further.slots.trans moves.slots, further.stack⟩

/-- The first element of an array is taken. -/
theorem element {r : HeapRef} {elements : Array Value}
    (proceeds : f.Proceeds p cs s position first done (⟨.ldelemRef, .none⟩ :: ahead) slots (.int32 0 :: .ref r :: stack) heap)
    (more : ahead ≠ []) (made : heap.get? r = some (.array elements)) (held : elements[0]? = some v) :
    f.Proceeds p cs s position first (done ++ [⟨.ldelemRef, .none⟩]) ahead slots (v :: stack) heap :=
  proceeds.next more fun _ u _ alike _ top here => ⟨u, step_ldelem alike rfl top (here ▸ made) held, here, rfl⟩

/-- An object is taken for one of a type that it is of. -/
theorem cast {type : Token} {x : HeapRef}
    (proceeds : f.Proceeds p cs s position first done (⟨.castclass, .type type⟩ :: ahead) slots (.ref x :: stack) heap)
    (more : ahead ≠ []) (castable : checkCast p.module heap x type = .ok ()) :
    f.Proceeds p cs s position first (done ++ [⟨.castclass, .type type⟩]) ahead slots (.ref x :: stack) heap := by
  refine proceeds.next more fun g u j alike _ top here => ⟨u, ?_, here, rfl⟩
  have action : j.opcode.action = .cast := alike.action.symm
  have token : j.requireToken u = .ok type u := by
    unfold Instruction.requireToken
    rw [show j.token? = some type from alike.token?.symm]
    rfl
  have checked : compute (checkCast p.module u.heap x type) u = .ok () u := by
    rw [here, castable]
    rfl
  have whole : step p.module g j = do
      compute (checkCast p.module (← Running.heap) x (← j.requireToken))
      return (.ref x :: stack, .next) := by
    unfold step
    simp only [action, top]
    rfl
  rw [whole]
  exact (Running.bind_of_ok (x := Running.heap) rfl).trans <| (Running.bind_of_ok token).trans (Running.bind_of_ok checked)

/-- An array is made. -/
theorem array {type : Token} {length : Nat} (proceeds : f.Proceeds p cs s position first done (⟨.newarr, .type type⟩ :: ahead) slots
      (.int32 (Int32.ofNat length) :: stack) heap) (more : ahead ≠ []) (fits : length < 2 ^ 31) :
    f.Proceeds p cs s position first (done ++ [⟨.newarr, .type type⟩]) ahead slots (.ref heap.nextRef :: stack)
      (heap.push (.array (Array.replicate length .null))) := by
  refine proceeds.next more fun g u j alike _ top here => ⟨{ u with heap := heap.push (.array (Array.replicate length .null)) }, ?_, rfl, rfl⟩
  have action : j.opcode.action = .newArray := alike.action.symm
  have measured : compute (arrayLength (.int32 (Int32.ofNat length))) u = .ok length u := by
    change compute (if 0 ≤ (Int32.ofNat length).toInt then .ok (Int32.ofNat length).toInt.toNat else _) u = _
    rw [Int32.toInt_ofNat_of_lt fits, if_pos (Int.natCast_nonneg length)]
    rfl
  subst here
  simp only [step, action, top]
  exact (Running.bind_of_ok (x := pop (Value.int32 (Int32.ofNat length) :: stack)) rfl).trans (Running.bind_of_ok measured)

/-- A value goes into an array. -/
theorem put {r : HeapRef} {elements : Array Value} {place : Nat}
    (proceeds : f.Proceeds p cs s position first done (⟨.stelemRef, .none⟩ :: ahead) slots
      (v :: .int32 (Int32.ofNat place) :: .ref r :: stack) heap)
    (more : ahead ≠ []) (made : heap.get? r = some (.array elements)) (inside : place < elements.size) (fits : place < 2 ^ 31) :
    f.Proceeds p cs s position first (done ++ [⟨.stelemRef, .none⟩]) ahead slots stack (heap.put r place v) := by
  refine proceeds.next more fun g u j alike _ top here => ⟨{ u with heap := heap.put r place v }, ?_, rfl, rfl⟩
  subst here
  have action : j.opcode.action = .storeElement := alike.action.symm
  have found : compute (u.heap.get r) u = .ok (.array elements) u := by
    unfold Heap.get
    rw [made]
    rfl
  have placed : compute (Heap.elementIndex (Int32.ofNat place) elements.size) u = .ok place u := by
    unfold Heap.elementIndex
    rw [Int32.toInt_ofNat_of_lt fits, if_pos ⟨Int.natCast_nonneg place, by exact_mod_cast inside⟩]
    rfl
  have stored : storeElement (.ref r) (Int32.ofNat place) v u = .ok () { u with heap := u.heap.put r place v } := by
    unfold storeElement
    refine (Running.bind_of_ok (x := Running.heap) rfl).trans <| (Running.bind_of_ok found).trans <|
      (Running.bind_of_ok placed).trans ?_
    rfl
  simp only [step, action, top]
  exact (Running.bind_of_ok rfl).trans <| (Running.bind_of_ok rfl).trans <|
    (Running.bind_of_ok (x := compute (Value.asInt32 _)) rfl).trans <| (Running.bind_of_ok rfl).trans (Running.bind_of_ok stored)

/-! ### The parts -/

/-- The method is described, and the type of the attribute. -/
theorem lookup (fits : k + 5 ≤ Body.maxSlots)
    (proceeds : f.Proceeds p cs s position first done (plan.toLookup (.startingAt k) method declaringType ++ ahead) slots stack heap)
    (more : ahead ≠ []) (room : k < slots.size) (getMethod : p.Answers plan.getMethodFromHandle ⟨"GetMethodFromHandle", 2, false⟩)
    (getType : p.Answers plan.getTypeFromHandle ⟨"GetTypeFromHandle", 1, false⟩) :
    f.Proceeds p cs s position first (done ++ plan.toLookup (.startingAt k) method declaringType) ahead
      (slots.setIfInBounds k (some (.ref heap.nextRef)))
      (.int32 0 :: .ref (heap.push (.method method)).nextRef :: .ref heap.nextRef :: stack)
      ((heap.push (.method method)).push (.type plan.attributeType)) := by
  obtain ⟨m, -⟩ := WovenSlots.toNat_startingAt fits
  have bound : (WovenSlots.startingAt k).method.toNat < slots.size := by rw [m]; exact room
  have described := (((proceeds.push (v := .methodHandle method) (by simp) fun g u j alike _ => step_ldtoken alike rfl rfl).push
    (v := .typeHandle declaringType) (by simp) fun g u j alike _ => step_ldtoken alike rfl rfl).answered
      [.methodHandle method, .typeHandle declaringType] (by simp) getMethod rfl fun u => getMethod.getMethod _ u).store
        (by simp) bound
  have typed := ((described.load (by simp) (Array.getElem?_setIfInBounds_self_of_lt bound)).push
    (v := .typeHandle plan.attributeType) (by simp) fun g u j alike _ => step_ldtoken alike rfl rfl).answered
      [.typeHandle plan.attributeType] (by simp) getType rfl fun u => getType.getType u
  have ready := typed.pushInt32 more
  rw [m] at ready
  simpa [WeavePlan.toLookup] using ready

/-- The object of the attribute goes into its slot, and there is an array for the arguments. -/
theorem toArray {r x : HeapRef} (fits : k + 5 ≤ Body.maxSlots)
    (proceeds : f.Proceeds p cs s position first done (plan.toArray (.startingAt k) ++ ahead) slots (.ref r :: stack) heap)
    (more : ahead ≠ []) (room : k + 5 ≤ slots.size) (made : heap.get? r = some (.array #[.ref x]))
    (castable : checkCast p.module heap x plan.attributeType = .ok ()) (few : plan.parameters.length < 2 ^ 31) :
    f.Proceeds p cs s position first (done ++ plan.toArray (.startingAt k)) ahead
      ((slots.setIfInBounds (k + 1) (some (.ref x))).setIfInBounds (k + 3) (some (.ref heap.nextRef))) stack
      (heap.push (.array (Array.replicate plan.parameters.length .null))) := by
  obtain ⟨-, a, -, r', -⟩ := WovenSlots.toNat_startingAt fits
  have taken := ((proceeds.pushInt32 (by simp)).element (by simp) made (v := .ref x) rfl).cast (by simp) castable
  have stored := taken.store (by simp) (by rw [a]; omega)
  have array := (stored.pushInt32 (by simp)).array (by simp) few
  have ready := array.store more (by rw [r', Array.size_setIfInBounds]; omega)
  rw [a, r'] at ready
  simpa [WeavePlan.toArray] using ready

end Frame.Proceeds

/-! ### Arguments -/

theorem Heap.new_boxedIf (h : Heap) (boxes : Bool) (v : Value) :
    (h.boxedIf boxes v).1 = v ∨ (h.boxedIf boxes v).1 = .ref h.nextRef ∧ (h.boxedIf boxes v).2.get? h.nextRef = some (.boxed v) := by
  unfold Heap.boxedIf
  cases boxes with
  | false => exact .inl rfl
  | true =>
    cases v <;> first
      | exact .inl rfl
      | exact .inr ⟨rfl, h.get?_nextRef _⟩

/-- An array of a heap is being filled with values as hooks are told them; all else stays. -/
structure Heap.Fills (h heap : Heap) (array : HeapRef) (values : List Value) (length : Nat) : Prop where
  kept : ∀ {r o}, r ≠ array → h.get? r = some o → heap.get? r = some o
  elements : ∃ told : List Value, List.Forall₂ (Value.NewlyToldAs h heap) values told ∧
    heap.get? array = some (.array (told ++ List.replicate (length - told.length) Value.null).toArray)

namespace Heap.Fills

variable {h : Heap} {array : HeapRef} {values : List Value} {length : Nat}

theorem start (made : h.get? array = some (.array (Array.replicate length .null))) : h.Fills h array [] length :=
  ⟨fun _ found => found, [], .nil, by simpa using made⟩

/-- Another value is put into the array, in a new box where it is to be in one. -/
theorem put (fills : h.Fills heap array values length) (made : ∃ o, h.get? array = some o) (room : values.length < length)
    (boxes : Bool) (v : Value) :
    h.Fills ((heap.boxedIf boxes v).2.put array values.length (heap.boxedIf boxes v).1) array (values ++ [v]) length := by
  obtain ⟨told, tells, elements⟩ := fills.elements
  obtain ⟨more, -⟩ := heap.extends_boxedIf boxes v
  have new : h.get? heap.nextRef = none := by
    cases found : h.get? heap.nextRef with
    | none => rfl
    | some o =>
      by_cases same : heap.nextRef = array
      · rw [← same, Heap.get?_nextRef_eq_none] at elements
        cases elements
      · have there := fills.kept same found
        rw [Heap.get?_nextRef_eq_none] at there
        cases there
  have other : ∀ {r o}, r ≠ array → (heap.boxedIf boxes v).2.get? r = some o →
      ((heap.boxedIf boxes v).2.put array values.length (heap.boxedIf boxes v).1).get? r = some o := fun differs found =>
    (Heap.get?_modify_of_ne differs _).trans found
  refine ⟨fun differs found => other differs (more (fills.kept differs found)), told ++ [(heap.boxedIf boxes v).1],
    List.rel_append (tells.imp ?_) (.cons ?_ .nil), ?_⟩
  · rintro u w (rfl | ⟨r, rfl, fresh, there⟩)
    · exact .inl rfl
    · refine .inr ⟨r, rfl, fresh, other ?_ (more there)⟩
      rintro rfl
      obtain ⟨o, found⟩ := made
      rw [fresh] at found
      cases found
  · rcases heap.new_boxedIf boxes v with same | ⟨told, there⟩
    · exact .inl same
    · refine .inr ⟨_, told, new, other ?_ there⟩
      rintro rfl
      obtain ⟨o, found⟩ := made
      rw [new] at found
      cases found
  · have there := Heap.get?_modify_self (more elements) fun
      | .array elements => .array (elements.setIfInBounds values.length (heap.boxedIf boxes v).1)
      | other => other
    refine there.trans ?_
    have count := tells.length_eq
    have rest : length - told.length = (length - (told.length + 1)) + 1 := by omega
    simp only [List.setIfInBounds_toArray, count, List.length_append, List.length_singleton, rest, List.replicate_succ]
    rw [List.set_append_right _ _ (Nat.le_refl _)]
    simp

end Heap.Fills

namespace Frame.Proceeds

variable {p cs}

theorem argument {index : UInt16} (proceeds : f.Proceeds p cs s position first done (loadArgument index :: ahead) slots stack heap)
    (more : ahead ≠ []) (given : f.activation.arguments[index.toNat]? = some v) :
    f.Proceeds p cs s position first (done ++ [loadArgument index]) ahead slots (v :: stack) heap :=
  proceeds.push more fun g u j alike same => by
    rw [Instruction.step_loadArgument alike]
    unfold Activation.argument
    rw [same, given]
    rfl

/-- An argument goes into the array. -/
theorem storeArgument {l : ParameterLoad} {h : Heap} {array : HeapRef} {values : List Value} {length : Nat}
    (fits : k + 5 ≤ Body.maxSlots) (proceeds : f.Proceeds p cs s position first done
      (WeavePlan.storeArgument (.startingAt k) l values.length ++ ahead) slots stack heap)
    (more : ahead ≠ []) (held : slots[k + 3]? = some (some (.ref array))) (fills : h.Fills heap array values length)
    (room : values.length < length) (few : length < 2 ^ 31) (direct : l.deref = none)
    (given : f.activation.arguments[l.argument.toNat]? = some v) :
    f.Proceeds p cs s position first (done ++ WeavePlan.storeArgument (.startingAt k) l values.length) ahead slots stack
      ((heap.boxedIf l.boxType.isSome v).2.put array values.length (heap.boxedIf l.boxType.isSome v).1) := by
  obtain ⟨-, -, -, r, -⟩ := WovenSlots.toNat_startingAt fits
  have row : WeavePlan.storeArgument (.startingAt k) l values.length ++ ahead =
      loadSlot (WovenSlots.startingAt k).arguments :: Instruction.pushInt32 (Int32.ofNat values.length) :: loadArgument l.argument ::
        (boxing l.boxType ++ ⟨.stelemRef, .none⟩ :: ahead) := by
    simp [WeavePlan.storeArgument, boxing, direct]
  rw [row] at proceeds
  obtain ⟨told, tells, elements⟩ := fills.elements
  have count := tells.length_eq
  have loaded := ((proceeds.load (by simp) (v := .ref array) (by rw [r]; exact held)).pushInt32 (by simp)).argument (by simp) given
  obtain ⟨kept, -⟩ := heap.extends_boxedIf l.boxType.isSome v
  have ready := (loaded.box (by simp)).put more (kept elements) (by simp; omega) (by omega)
  simpa [WeavePlan.storeArgument, boxing, direct] using ready

/-- The arguments go into the array, one by one. -/
theorem arguments {h : Heap} {array : HeapRef} {loads : List ParameterLoad} {vs : List Value} {length : Nat}
    (fits : k + 5 ≤ Body.maxSlots) (held : slots[k + 3]? = some (some (.ref array))) (made : ∃ o, h.get? array = some o)
    (few : length < 2 ^ 31) (more : ahead ≠ [])
    (given : List.Forall₂ (fun l v => l.deref = none ∧ f.activation.arguments[l.argument.toNat]? = some v) loads vs)
    {values : List Value} (room : values.length + loads.length ≤ length)
    (proceeds : f.Proceeds p cs s position first done
      (WeavePlan.storeArguments (.startingAt k) loads values.length ++ ahead) slots stack heap)
    (fills : h.Fills heap array values length) :
    ∃ heap', f.Proceeds p cs s position first (done ++ WeavePlan.storeArguments (.startingAt k) loads values.length) ahead slots stack
      heap' ∧ h.Fills heap' array (values ++ vs) length := by
  induction given generalizing heap done values with
  | nil => exact ⟨heap, by simpa [WeavePlan.storeArguments] using proceeds, by simpa using fills⟩
  | @cons l v loads vs first _ ih =>
    have row : WeavePlan.storeArguments (.startingAt k) (l :: loads) values.length =
        WeavePlan.storeArgument (.startingAt k) l values.length ++
          WeavePlan.storeArguments (.startingAt k) loads (values ++ [v]).length := by
      simp [WeavePlan.storeArguments]
    rw [row, List.append_assoc] at proceeds
    simp only [List.length_cons] at room
    have stored := proceeds.storeArgument fits (by simp [more]) held fills (by omega) few first.1 first.2
    obtain ⟨heap', onward, full⟩ := ih (by simp only [List.length_append, List.length_singleton]; omega) stored
      (fills.put made (by omega) l.boxType.isSome v)
    exact ⟨heap', by rw [row, ← List.append_assoc]; exact onward, by simpa using full⟩

/-- All arguments go into an array that has just been made. -/
theorem fillsArray {array : HeapRef} {loads : List ParameterLoad} {vs : List Value} (fits : k + 5 ≤ Body.maxSlots)
    (held : slots[k + 3]? = some (some (.ref array))) (made : heap.get? array = some (.array (Array.replicate loads.length .null)))
    (few : loads.length < 2 ^ 31) (more : ahead ≠ [])
    (given : List.Forall₂ (fun l v => l.deref = none ∧ f.activation.arguments[l.argument.toNat]? = some v) loads vs)
    (proceeds : f.Proceeds p cs s position first done (WeavePlan.storeArguments (.startingAt k) loads 0 ++ ahead) slots stack heap) :
    ∃ heap', f.Proceeds p cs s position first (done ++ WeavePlan.storeArguments (.startingAt k) loads 0) ahead slots stack heap' ∧
      heap.Fills heap' array vs loads.length :=
  have start : f.Proceeds p cs s position first done (WeavePlan.storeArguments (.startingAt k) loads ([] : List Value).length ++ ahead)
    slots stack heap := proceeds
  start.arguments fits held ⟨_, made⟩ few more given (Nat.le_of_eq (Nat.zero_add _)) (.start made)

end Frame.Proceeds

end Walks

end AspectWeaving

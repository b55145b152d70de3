import AspectWeaving.Proofs.Layers
import AspectWeaving.Proofs.Lookups
import AspectWeaving.Proofs.NamedTypes
import AspectWeaving.Proofs.Turns
import Mathlib.Tactic.IntervalCases

/-!
The look-up of an attribute. The first twelve instructions of a prologue find the attribute of its layer: what
each of them needs is what the one before has left (`Weave.Looking`), and the last one has the object that was
made of the first attribute that is looked up.
-/
namespace AspectWeaving

open Running (compute)

/-! ### Instructions of a look-up -/

section Steps

variable {f : Frame} {s : Machine} {i j : Instruction} {m : Module}

theorem step_ldtoken {v : Value} (alike : i.Alike j) (action : i.opcode.action = .loadToken)
    (value : i.handleValue? = some v) : step m f j s = .ok (v :: f.stack, .next) s := by
  have own : j.opcode.action = .loadToken := alike.action.symm.trans action
  have there : j.handleValue? = some v := by
    rw [← value]
    simp only [Instruction.handleValue?, alike.operand]
  simp only [step, own, there, Instruction.require]
  rfl

theorem step_call {target : Token} {shape : CallShape} {dynamic : Bool} (arguments rest : List Value) (alike : i.Alike j)
    (action : i.opcode.action = .call dynamic) (operand : i.operand = .method target) (known : m.callShape target = .ok shape)
    (enough : arguments.length = shape.argumentCount) (top : f.stack = arguments.reverse ++ rest)
    (there : dynamic = true → ∃ y others, arguments = .ref y :: others) :
    step m f j s = .ok (rest, .call target arguments dynamic) s := by
  have own : j.opcode.action = .call dynamic := alike.action.symm.trans action
  have token : j.requireToken s = .ok target s := by
    unfold Instruction.requireToken Instruction.token?
    rw [← alike.operand, operand]
    rfl
  have shaped : compute (m.callShape target) s = .ok shape s := by
    rw [known]
    rfl
  have popped : popMany shape.argumentCount f.stack s = .ok (arguments, rest) s := by
    have length : arguments.reverse.length = shape.argumentCount := by rw [List.length_reverse, enough]
    unfold popMany
    rw [top, ← length, if_pos (by simp), List.take_left, List.drop_left, List.reverse_reverse]
    rfl
  unfold step
  simp only [own]
  refine (Running.bind_of_ok token).trans ((Running.bind_of_ok shaped).trans ((Running.bind_of_ok popped).trans ?_))
  cases dynamic with
  | false => rfl
  | true =>
    obtain ⟨y, others, rfl⟩ := there rfl
    rfl

theorem step_ldelem {r : HeapRef} {elements : Array Value} {v : Value} {rest : List Value} (alike : i.Alike j)
    (action : i.opcode.action = .loadElement) (top : f.stack = .int32 0 :: .ref r :: rest)
    (made : s.heap.get? r = some (.array elements)) (first : elements[0]? = some v) :
    step m f j s = .ok (v :: rest, .next) s := by
  have own : j.opcode.action = .loadElement := alike.action.symm.trans action
  have array : compute (s.heap.array (.ref r)) s = .ok elements s := by
    have object : s.heap.array (.ref r) = (s.heap.get r).bind _ := rfl
    rw [object, Heap.get, made]
    rfl
  have element : compute (Heap.element elements 0) s = .ok v s := by
    obtain ⟨inside, rfl⟩ := Array.getElem?_eq_some_iff.mp first
    unfold Heap.element Heap.elementIndex
    rw [if_pos ⟨by decide, by simpa using inside⟩]
    change EStateM.Result.ok (elements.getD 0 .null) s = _
    simp [inside]
  unfold step
  simp only [own, top]
  exact (Running.bind_of_ok rfl).trans <| (Running.bind_of_ok rfl).trans <| (Running.bind_of_ok rfl).trans <|
    (Running.bind_of_ok (x := Running.heap) rfl).trans <| (Running.bind_of_ok array).trans (Running.bind_of_ok element)

theorem step_cast {v : Value} {rest : List Value} (alike : i.Alike j) (action : i.opcode.action = .cast)
    (top : f.stack = v :: rest) :
    step m f j s = .ok (v :: rest, .next) s ∨ ∃ fault, step m f j s = .error fault s := by
  have own : j.opcode.action = .cast := alike.action.symm.trans action
  cases v with
  | ref r =>
    have whole : step m f j = do
        compute (checkCast m (← Running.heap) r (← j.requireToken))
        return (.ref r :: rest, .next) := by
      unfold step
      simp only [own, top]
      rfl
    have heap : Running.heap s = .ok s.heap s := rfl
    rw [whole, Running.bind_of_ok heap]
    cases token : j.token? with
    | none =>
      refine .inr ⟨.malformed (.missingToken j.opcode), ?_⟩
      unfold Instruction.requireToken
      rw [token]
      rfl
    | some type =>
      have required : j.requireToken s = .ok type s := by
        unfold Instruction.requireToken
        rw [token]
        rfl
      rw [Running.bind_of_ok required]
      cases checkCast m s.heap r type with
      | ok _ => exact .inl rfl
      | error cause => exact .inr ⟨.execution cause, rfl⟩
  | _ =>
    unfold step
    simp only [own, top]
    exact .inl rfl

end Steps

/-! ### Looking the attribute up -/

/-- A value is the object that has been made of an attribute, or there is none yet. -/
def Held (made : HeapRef → Prop) (type : Token) (h : Heap) (v : Value) : Prop :=
  v = .null ∨ ∃ x, v = .ref x ∧ made x ∧ h.get? x = some (.instance type)

theorem Held.keeps {made : HeapRef → Prop} {type : Token} {h h' : Heap} {v : Value} (held : Held made type h v)
    (keeps : h.Keeps h') : Held made type h' v := by
  rcases held with none | ⟨x, same, fetched, found⟩
  · exact .inl none
  · exact .inr ⟨x, same, fetched, keeps _ _ found⟩

namespace Weave

/-- The call that looks the attributes of the method up. -/
def lookupCall (w : Weave) : Handle := ⟨w.old.code.size + 8⟩

/-- The values in use while the prologue looks the attribute up, by the number of instructions executed. -/
def Looking (w : Weave) (made : HeapRef → Prop) (type : Token) (h : Heap) (f : Frame) : Nat → Prop
  | 1 => ∃ rest, f.stack = .methodHandle w.method :: rest
  | 2 => ∃ declaring rest, f.stack = .typeHandle declaring :: .methodHandle w.method :: rest
  | 3 | 5 => ∃ y rest, f.stack = .ref y :: rest ∧ h.get? y = some (.method w.method)
  | 4 => ∃ y, f.slot w.slots.method.toNat = .ok (.ref y) ∧ h.get? y = some (.method w.method)
  | 6 => ∃ y rest, f.stack = .typeHandle w.plan.attributeType :: .ref y :: rest ∧ h.get? y = some (.method w.method)
  | 7 => ∃ y z rest, f.stack = .ref z :: .ref y :: rest ∧ h.get? y = some (.method w.method) ∧
      h.get? z = some (.type w.plan.attributeType)
  | 8 => ∃ y z rest, f.stack = .int32 0 :: .ref z :: .ref y :: rest ∧ h.get? y = some (.method w.method) ∧
      h.get? z = some (.type w.plan.attributeType)
  | 9 => ∃ r elements v rest, f.stack = .ref r :: rest ∧ h.get? r = some (.array elements) ∧ elements[0]? = some v ∧
      Held made type h v
  | 10 => ∃ r elements v rest, f.stack = .int32 0 :: .ref r :: rest ∧ h.get? r = some (.array elements) ∧
      elements[0]? = some v ∧ Held made type h v
  | 11 | 12 => ∃ v rest, f.stack = v :: rest ∧ Held made type h v
  | _ => True

/-- What the code of a layer finds when it is executed: its attribute comes first of those that are looked up. -/
structure Site (w : Weave) (p : Program) (kind : DecoratorKind) (new : Body) (own : Attribute) : Prop where
  layer : w.Layer new
  calls : w.CallsHooks kind new
  fetches : ∀ l ∈ w.plan.parameters, l.Fetches
  getMethod : p.Answers w.plan.getMethodFromHandle ⟨"GetMethodFromHandle", 2, false⟩
  getType : p.Answers w.plan.getTypeFromHandle ⟨"GetTypeFromHandle", 1, false⟩
  getAttributes : p.Answers w.plan.getCustomAttributes ⟨"GetCustomAttributes", 2, true⟩
  spares : p.Spares
  distinct : p.module.Distinct
  first : ∃ rest, attributesOf p.module w.method (some w.plan.attributeType) = own :: rest

end Weave

section Looking

variable {p : Program} {w : Weave} {kind : DecoratorKind} {new : Body} {own : Attribute} {made : HeapRef → Prop}
  {f : Frame} {cs : List Frame} {s : Machine} {i j : Instruction} {m : Module}

/-- The next instruction of a look-up is reached, with the slot of the attribute as it was. -/
def Weave.LooksOn (w : Weave) (made : HeapRef → Prop) (type : Token) (f : Frame) (cs : List Frame) (n : Nat) (r : Stage) :
    Prop :=
  ∃ g t, f.Beside g ∧ g.slot w.slots.attr.toNat = f.slot w.slots.attr.toNat ∧ w.Looking made type t.heap g n ∧
    r = goAhead g cs t

/-- An instruction that leaves the slots alone and calls nothing. -/
theorem Weave.LooksOn.next {stack : List Value} {type : Token} {n : Nat} (found : f.activation.body.code.get? f.place = some j)
    (stepped : step p.module f j { s with executed := s.executed + 1 } = .ok (stack, .next) { s with executed := s.executed + 1 })
    (looking : w.Looking made type s.heap { f with stack } n) : w.LooksOn made type f cs n (p.after f cs s) :=
  ⟨{ f with stack }, { s with executed := s.executed + 1 }, f.beside_stack stack, rfl, looking,
    Program.after_next cs found stepped⟩

/-- A call of the library that is over puts its result on the stack. -/
theorem Weave.LooksOn.call {target : Token} {arguments rest : List Value} {v : Value} {t : Machine} {type : Token} {n : Nat}
    (found : f.activation.body.code.get? f.place = some j)
    (stepped : step p.module f j { s with executed := s.executed + 1 } =
      .ok (rest, .call target arguments false) { s with executed := s.executed + 1 })
    (called : call p (cs.length + 1) target arguments false { s with executed := s.executed + 1 } = .ok (.result v) t)
    (looking : w.Looking made type t.heap ({ f with stack := rest }.receive v) n) :
    w.LooksOn made type f cs n (p.after f cs s) := by
  refine ⟨{ f with stack := rest }.receive v, t, (f.beside_stack rest).trans (Frame.beside_receive _ v), ?_, looking, ?_⟩
  · cases v <;> rfl
  · rw [Program.after_call cs found stepped, settleAttempt_eq, called]
    rfl

/-- Looking the attribute up goes on. -/
theorem Weave.Site.looks {n : Nat} (site : w.Site p kind new own) (body : f.activation.body = new)
    (place : f.place = ⟨w.old.code.size + n⟩) (early : n < 11) (other : n ≠ 8)
    (attr : ∃ v, f.slot w.slots.attr.toNat = .ok v) (looking : w.Looking made own.type s.heap f n) :
    w.LooksOn made own.type f cs (n + 1) (p.after f cs s) := by
  have fetch : ∀ i, w.prologue[n]? = some i → ∃ j, f.activation.body.code.get? f.place = some j ∧ i.Alike j := by
    intro i listed
    rw [body, place]
    exact site.layer.prologue.fetch listed
  interval_cases n
  · obtain ⟨j, found, alike⟩ := fetch _ rfl
    exact .next found (step_ldtoken alike rfl rfl) ⟨f.stack, rfl⟩
  · obtain ⟨j, found, alike⟩ := fetch _ rfl
    obtain ⟨rest, top⟩ := looking
    exact .next found (step_ldtoken alike rfl rfl) ⟨w.declaringType, rest, by simp [top]⟩
  · obtain ⟨j, found, alike⟩ := fetch _ rfl
    obtain ⟨declaring, rest, top⟩ := looking
    exact .call found
      (step_call [.methodHandle w.method, .typeHandle declaring] rest alike rfl rfl site.getMethod.callShape rfl top (by simp))
      ((site.getMethod.call_eq (by simp)).trans (site.getMethod.getMethod _ _))
      ⟨_, rest, rfl, s.heap.get?_nextRef _⟩
  · obtain ⟨j, found, alike⟩ := fetch _ rfl
    obtain ⟨y, rest, top, describes⟩ := looking
    obtain ⟨method, next, -⟩ := WovenSlots.toNat_startingAt site.layer.slotsFit
    have differs : w.slots.method.toNat ≠ w.slots.attr.toNat := by
      simp only [Weave.slots, method, next]
      omega
    have inside : w.slots.method.toNat < f.slots.size := by
      obtain ⟨v, held⟩ := attr
      have below := Frame.lt_of_slot held
      simp only [Weave.slots, method, next] at below ⊢
      omega
    exact ⟨_, { s with executed := s.executed + 1 }, (f.beside_stack rest).trans (Frame.beside_store _ _ _),
      Frame.slot_store_of_ne _ differs _, ⟨y, Frame.slot_store_self _ inside _, describes⟩,
      Program.after_storeSlot found alike top inside cs s⟩
  · obtain ⟨j, found, alike⟩ := fetch _ rfl
    obtain ⟨y, held, describes⟩ := looking
    exact ⟨{ f with stack := .ref y :: f.stack }, { s with executed := s.executed + 1 }, f.beside_stack _, rfl,
      ⟨y, f.stack, rfl, describes⟩, Program.after_loadSlot found alike held cs s⟩
  · obtain ⟨j, found, alike⟩ := fetch _ rfl
    obtain ⟨y, rest, top, describes⟩ := looking
    exact .next found (step_ldtoken alike rfl rfl) ⟨y, rest, by simp [top], describes⟩
  · obtain ⟨j, found, alike⟩ := fetch _ rfl
    obtain ⟨y, rest, top, describes⟩ := looking
    exact .call found
      (step_call [.typeHandle w.plan.attributeType] (.ref y :: rest) alike rfl rfl site.getType.callShape rfl top (by simp))
      ((site.getType.call_eq (by simp)).trans (site.getType.getType _))
      ⟨y, _, rest, rfl, Heap.get?_push describes _, s.heap.get?_nextRef _⟩
  · obtain ⟨j, found, alike⟩ := fetch _ rfl
    obtain ⟨y, z, rest, top, describes, asked⟩ := looking
    exact .next found (by rw [Instruction.step_pushInt32 alike]; rfl) ⟨y, z, rest, by simp [top], describes, asked⟩
  · exact absurd rfl other
  · obtain ⟨j, found, alike⟩ := fetch _ rfl
    obtain ⟨r, elements, v, rest, top, made, first, held⟩ := looking
    exact .next found (by rw [Instruction.step_pushInt32 alike]; rfl) ⟨r, elements, v, rest, by simp [top], made, first, held⟩
  · obtain ⟨j, found, alike⟩ := fetch _ rfl
    obtain ⟨r, elements, v, rest, top, made, first, held⟩ := looking
    exact .next found (step_ldelem alike rfl top made first) ⟨v, rest, rfl, held⟩

/-- The object that is looked up is taken for one of its type. -/
theorem Weave.Site.casts (site : w.Site p kind new own) (body : f.activation.body = new)
    (place : f.place = ⟨w.old.code.size + 11⟩) (looking : w.Looking made own.type s.heap f 11) :
    w.LooksOn made own.type f cs 12 (p.after f cs s) ∨ p.Faults f cs (p.after f cs s) := by
  obtain ⟨j, found, alike⟩ : ∃ j, f.activation.body.code.get? f.place = some j ∧
      (⟨.castclass, .type w.plan.attributeType⟩ : Instruction).Alike j := by
    rw [body, place]
    exact site.layer.prologue.fetch rfl
  obtain ⟨v, rest, top, held⟩ := looking
  rcases step_cast (m := p.module) (s := { s with executed := s.executed + 1 }) alike rfl top with stepped | ⟨fault, failed⟩
  · exact .inl (.next found stepped ⟨v, rest, rfl, held⟩)
  · rw [Program.after_eq p cs found, failed]
    exact .inr (p.faults_raise f f.stack cs fault _)

/-- An instruction calls the library for attributes, and the call collects these. -/
def Program.Collects (p : Program) (f : Frame) (cs : List Frame) (attributes : List Attribute) (s : Machine) : Prop :=
  ∃ i stack target arguments, f.activation.body.code.get? f.place = some i ∧
    step p.module f i s = .ok (stack, .call target arguments true) s ∧
      call p (cs.length + 1) target arguments true s = collect p (cs.length + 1) #[] attributes s

/-- The look-up of a layer makes an object of an attribute: the first one of its type that the method has. -/
def Program.Makes (p : Program) (w : Weave) (f : Frame) (cs : List Frame) (own : Attribute) (s : Machine) (x : HeapRef) :
    Prop :=
  ∃ rest, attributesOf p.module w.method (some w.plan.attributeType) = own :: rest ∧ p.Collects f cs (own :: rest) s ∧
    p.Initializes (cs.length + 1) own s x

/-- The attributes are looked up at once, or a constructor is entered first. -/
theorem Weave.Site.finds (site : w.Site p kind new own) (body : f.activation.body = new) (place : f.place = w.lookupCall)
    (looking : w.Looking made own.type s.heap f 8)
    (fetched : ∀ x, p.Makes w f cs own { s with executed := s.executed + 1 } x → made x) :
    w.LooksOn made own.type f cs 9 (p.after f cs s) ∨ p.Faults f cs (p.after f cs s) ∨
      ∃ stack c v t, p.after f cs s = .ok (.running c ({ f with stack } :: cs)) t ∧ Gathers v c.pending ∧
        Held made own.type t.heap v := by
  obtain ⟨j, found, alike⟩ : ∃ j, f.activation.body.code.get? f.place = some j ∧
      (⟨.callvirt, .method w.plan.getCustomAttributes⟩ : Instruction).Alike j := by
    rw [body, place]
    exact site.layer.prologue.fetch rfl
  obtain ⟨y, z, rest, top, describes, asked⟩ := looking
  obtain ⟨others, first⟩ := site.first
  have stepped := step_call (m := p.module) (s := { s with executed := s.executed + 1 })
    [.ref y, .ref z, .int32 0] rest alike rfl rfl site.getAttributes.callShape rfl top fun _ => ⟨y, _, rfl⟩
  have called : call p (cs.length + 1) w.plan.getCustomAttributes [.ref y, .ref z, .int32 0] true
      { s with executed := s.executed + 1 } =
        (do collect p (cs.length + 1) #[] (← compute (selectAttributes p.module w.method (some w.plan.attributeType))))
          { s with executed := s.executed + 1 } :=
    (site.getAttributes.call_eq fun _ => dispatch_method describes _).trans
      (site.getAttributes.getAttributes (s := { s with executed := s.executed + 1 }) describes asked)
  rw [Program.after_call cs found stepped, settleAttempt_eq]
  rcases selectAttributes_cases p.module w.method (some w.plan.attributeType) with selected | ⟨cause, endless⟩
  swap
  · rw [called, endless]
    exact .inr (.inl (p.faults_raise f rest cs _ _))
  replace called : call p (cs.length + 1) w.plan.getCustomAttributes [.ref y, .ref z, .int32 0] true
      { s with executed := s.executed + 1 } =
        collect p (cs.length + 1) #[] (own :: others) { s with executed := s.executed + 1 } := by
    rw [called, selected, first]
    rfl
  rw [called]
  cases came : collect p (cs.length + 1) #[] (own :: others) { s with executed := s.executed + 1 } with
  | error fault t => exact .inr (.inl (p.faults_raise f rest cs fault t))
  | ok progress t =>
    obtain ⟨x, initializes, kept, array⟩ := found_first site.spares site.distinct came
    have makes : p.Makes w f cs own { s with executed := s.executed + 1 } x :=
      ⟨others, first, ⟨j, rest, _, _, found, stepped, called⟩, initializes⟩
    have held : Held made own.type t.heap (.ref x) := .inr ⟨x, rfl, fetched x makes, kept⟩
    cases array with
    | threw y => exact .inr (.inl (.inr ⟨rest, y, t, rfl⟩))
    | array made first => exact .inl ⟨{ f with stack := .ref _ :: rest }, t, f.beside_stack _, rfl, ⟨_, _, _, rest, rfl, made, first, held⟩, rfl⟩
    | enters _ gathers => exact .inr (.inr ⟨rest, _, _, t, rfl, gathers, held⟩)

/-- The object that is looked up goes into the slot of the attribute. -/
theorem Weave.Site.stores (site : w.Site p kind new own) (body : f.activation.body = new) (place : f.place = w.attrStore)
    (attr : ∃ v, f.slot w.slots.attr.toNat = .ok v) (looking : w.Looking made own.type s.heap f 12) :
    ∃ g t v, f.Beside g ∧ g.slot w.slots.attr.toNat = .ok v ∧ Held made own.type s.heap v ∧ p.after f cs s = goAhead g cs t := by
  obtain ⟨j, found, alike⟩ : ∃ j, f.activation.body.code.get? f.place = some j ∧
      (Instruction.storeSlot w.slots.attr).Alike j := by
    rw [body, place]
    exact site.layer.prologue.fetch rfl
  obtain ⟨v, rest, top, held⟩ := looking
  obtain ⟨v', there⟩ := attr
  have inside := Frame.lt_of_slot there
  exact ⟨_, _, v, (f.beside_stack rest).trans (Frame.beside_store _ _ _), Frame.slot_store_self _ inside _, held,
    Program.after_storeSlot found alike top inside cs s⟩

end Looking

end AspectWeaving

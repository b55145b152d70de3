import AspectWeaving.Proofs.Pairs
import AspectWeaving.Proofs.WovenValidity

/-!
Renaming of tokens. Two bodies are alike up to a renaming of the types they name (`Body.Like`) if they are the
same but for some tokens of types, which stand on instructions that take a token, in slots or in clauses.
Weaving keeps bodies alike: where two plans are alike, splicing comes to the same fault or to bodies that are alike
(`WeavePlan.Like.splice`), as many branches are widened (`Body.Like.widen`), and the checks find the same
(`Body.Like.validate`).
-/
namespace AspectWeaving

/-! ### Types that are named -/

/-- The tokens in a signature. -/
def TypeSig.tokens : TypeSig → List Token
  | .classType token | .valueType token => [token]
  | .array element | .byRef element => element.tokens
  | _ => []

/-- The type an operand names. -/
def Instruction.type? (i : Instruction) : Option Token :=
  match i.operand with
  | .type token => some token
  | _ => none

/-- The types a body names. -/
def Body.types (b : Body) : List Token :=
  b.code.instructions.toList.filterMap (·.type?) ++ b.slots.toList.flatMap (·.sig.tokens) ++
    b.handlers.filterMap (·.catchType)

/-- The types a signature of a method names. -/
def Signature.types (s : Signature) : List Token := s.parameters.flatMap (·.sig.tokens) ++ s.result.tokens

/-- The types a method names. -/
def MethodDef.types (d : MethodDef) : List Token := d.signature.types ++ d.body.elim [] (·.types)

/-! ### Alike but for tokens -/

section Like

variable {ρ ρ' : Token → Token → Prop}

/-- Instructions that are alike: the same, or with two types that go together. -/
inductive Instruction.Like (ρ : Token → Token → Prop) : Instruction → Instruction → Prop
  | same {i} (own : ∀ type ∈ i.type?, ρ type type) : Like ρ i i
  | type {o a b} (takes : o.operandKind = .token) (renamed : ρ a b) : Like ρ ⟨o, .type a⟩ ⟨o, .type b⟩

/-- Signatures that are alike: the same, or two classes that go together. -/
inductive TypeSig.Like (ρ : Token → Token → Prop) : TypeSig → TypeSig → Prop
  | same {s} (own : ∀ type ∈ s.tokens, ρ type type) : Like ρ s s
  | classType {a b} (renamed : ρ a b) : Like ρ (.classType a) (.classType b)

/-- Slots that are alike. -/
structure LocalSlot.Like (ρ : Token → Token → Prop) (s t : LocalSlot) : Prop where
  name : s.name = t.name
  sig : s.sig.Like ρ t.sig

/-- Clauses that are alike. -/
structure Handler.Like (ρ : Token → Token → Prop) (h k : Handler) : Prop where
  frame : h = { k with catchType := h.catchType }
  catchType : Option.Rel ρ h.catchType k.catchType

/-- Two pieces of code with the same order and instructions that are alike. -/
structure Code.Like (ρ : Token → Token → Prop) (c d : Code) : Prop where
  order : c.order = d.order
  instructions : List.Forall₂ (Instruction.Like ρ) c.instructions.toList d.instructions.toList

/-- Bodies that are alike: the same but for the types they name, which go together. -/
structure Body.Like (ρ : Token → Token → Prop) (b b' : Body) : Prop where
  code : b.code.Like ρ b'.code
  slots : List.Forall₂ (LocalSlot.Like ρ) b.slots.toList b'.slots.toList
  initSlots : b.initSlots = b'.initSlots
  maxStack : b.maxStack = b'.maxStack
  handlers : List.Forall₂ (Handler.Like ρ) b.handlers b'.handlers

/-- Methods that are the same but for their bodies, which are alike. -/
structure MethodDef.Like (ρ : Token → Token → Prop) (d d' : MethodDef) : Prop where
  frame : d = { d' with body := d.body }
  body : Option.Rel (Body.Like ρ) d.body d'.body

/-! More tokens that go together only make more alike. -/

theorem Instruction.Like.mono {i j : Instruction} (like : i.Like ρ j) (more : ∀ a b, ρ a b → ρ' a b) : i.Like ρ' j := by
  cases like with
  | same own => exact .same fun type member => more _ _ (own type member)
  | type takes renamed => exact .type takes (more _ _ renamed)

theorem TypeSig.Like.mono {s t : TypeSig} (like : s.Like ρ t) (more : ∀ a b, ρ a b → ρ' a b) : s.Like ρ' t := by
  cases like with
  | same own => exact .same fun type member => more _ _ (own type member)
  | classType renamed => exact .classType (more _ _ renamed)

theorem Body.Like.mono {b b' : Body} (like : b.Like ρ b') (more : ∀ a b, ρ a b → ρ' a b) : b.Like ρ' b' where
  code := ⟨like.code.order, like.code.instructions.imp fun _ _ alike => alike.mono more⟩
  slots := like.slots.imp fun _ _ alike => ⟨alike.name, alike.sig.mono more⟩
  initSlots := like.initSlots
  maxStack := like.maxStack
  handlers := like.handlers.imp fun _ _ alike => ⟨alike.frame, rel_mono more alike.catchType⟩

theorem MethodDef.Like.mono {d d' : MethodDef} (like : d.Like ρ d') (more : ∀ a b, ρ a b → ρ' a b) : d.Like ρ' d' :=
  ⟨like.frame, rel_mono (fun _ _ alike => alike.mono more) like.body⟩

/-! What names only types that go with themselves is like itself. -/

theorem Body.like_self {b : Body} (own : ∀ type ∈ b.types, ρ type type) : b.Like ρ b := by
  simp only [types, List.mem_append, List.mem_filterMap, List.mem_flatMap] at own
  refine ⟨⟨rfl, List.forall₂_same.mpr fun i listed => .same fun type named => ?_⟩,
    List.forall₂_same.mpr fun s listed => ⟨rfl, .same fun type named => ?_⟩, rfl, rfl,
    List.forall₂_same.mpr fun h listed => ⟨rfl, rel_self fun type named => ?_⟩⟩
  · exact own type (.inl (.inl ⟨i, listed, named⟩))
  · exact own type (.inl (.inr ⟨s, listed, named⟩))
  · exact own type (.inr ⟨h, listed, named⟩)

theorem MethodDef.like_self {d : MethodDef} (own : ∀ type ∈ d.types, ρ type type) : d.Like ρ d := by
  refine ⟨rfl, rel_self fun b here => b.like_self fun type member => own type ?_⟩
  rw [Option.mem_def] at here
  simp only [types, here, Option.elim_some, List.mem_append]
  exact .inr member

end Like

/-! ### Instructions -/

namespace Instruction.Like

variable {ρ : Token → Token → Prop} {i j : Instruction}

theorem opcode (like : i.Like ρ j) : i.opcode = j.opcode := by cases like <;> rfl

theorem size (like : i.Like ρ j) : i.size = j.size := by
  unfold Instruction.size
  rw [like.opcode]

theorem target? (like : i.Like ρ j) : i.target? = j.target? := by cases like <;> rfl

private theorem slot?_type {o : Opcode} {type : Token} (takes : o.operandKind = .token) :
    (⟨o, .type type⟩ : Instruction).slot? = none := by
  cases o <;> first | rfl | cases takes

private theorem longForm?_of_token {o : Opcode} (takes : o.operandKind = .token) : o.longForm? = none := by
  cases o <;> first | rfl | cases takes

theorem widened (like : i.Like ρ j) : i.widened.Like ρ j.widened := by
  cases like with
  | same own =>
    refine .same fun type named => own type ?_
    unfold Instruction.widened at named
    split at named <;> exact named
  | @type o a b takes renamed =>
    unfold Instruction.widened
    simp only [longForm?_of_token takes]
    exact .type takes renamed

theorem redirectReturn (like : i.Like ρ j) (epilogue : Handle) :
    (redirectReturn epilogue i).Like ρ (AspectWeaving.redirectReturn epilogue j) := by
  unfold AspectWeaving.redirectReturn
  rw [like.opcode]
  split
  · exact .same (by rintro type ⟨⟩)
  · exact like

/-- Instructions that are alike pass the same checks. -/
theorem validate {b b' : Body} (like : i.Like ρ j) (size : b.code.size = b'.code.size) (slots : b.slots.size = b'.slots.size)
    (h : Handle) : b.validateInstruction h i = b'.validateInstruction h j := by
  unfold Body.validateInstruction Code.contains
  rw [size, slots]
  cases like with
  | same own => rfl
  | @type o a b takes renamed =>
    have matched : ∀ type, (⟨o, .type type⟩ : Instruction).operandMatches = true := fun type => by
      unfold Instruction.operandMatches
      rw [takes]
      rfl
    simp only [matched, slot?_type takes]
    rfl

end Instruction.Like

/-! ### Code -/

namespace Code.Like

variable {ρ : Token → Token → Prop} {c d : Code} {is js : List Instruction}

theorem size (like : c.Like ρ d) : c.size = d.size := by simpa [Code.size] using like.instructions.length_eq

theorem get? (like : c.Like ρ d) (h : Handle) : Option.Rel (Instruction.Like ρ) (c.get? h) (d.get? h) := by
  unfold Code.get?
  rw [← Array.getElem?_toList, ← Array.getElem?_toList]
  exact forall₂_iff_getElem?.mp like.instructions h.index

theorem position? (like : c.Like ρ d) (h : Handle) : c.position? h = d.position? h := by
  unfold Code.position? Code.contains
  rw [like.size, like.order]

/-- The entries of code that is alike. -/
theorem entries (like : c.Like ρ d) :
    List.Forall₂ (fun e e' => e.1 = e'.1 ∧ Instruction.Like ρ e.2 e'.2) c.entries d.entries := by
  unfold Code.entries
  rw [like.order]
  refine List.rel_filterMap (R := Eq) ?_ (by rw [List.forall₂_eq_eq_eq])
  rintro h _ rfl
  exact rel_map (fun _ _ alike => ⟨rfl, alike⟩) (like.get? h)

theorem append (like : c.Like ρ d) (added : List.Forall₂ (Instruction.Like ρ) is js) : (c.append is).Like ρ (d.append js) where
  order := by
    rw [← Array.toList_inj, append_order, append_order, like.order, like.size, added.length_eq]
  instructions := by
    rw [append_instructions, append_instructions]
    exact List.rel_append like.instructions added

theorem insertAt (like : c.Like ρ d) (place : Nat) (added : List.Forall₂ (Instruction.Like ρ) is js) :
    (c.insertAt place is).Like ρ (d.insertAt place js) where
  order := by simp only [Code.insertAt, like.order, like.size, added.length_eq]
  instructions := by
    unfold Code.insertAt
    simp only [Array.toList_append]
    exact List.rel_append like.instructions added

theorem insertAllBefore? (like : c.Like ρ d) (h : Handle) (added : List.Forall₂ (Instruction.Like ρ) is js) :
    Option.Rel (Code.Like ρ) (c.insertAllBefore? h is) (d.insertAllBefore? h js) := by
  unfold Code.insertAllBefore?
  rw [like.position?]
  cases d.position? h with
  | none => exact .none
  | some place => exact .some (like.insertAt place added)

theorem redirect (like : c.Like ρ d) (epilogue : Handle) :
    (c.mapInstructions fun _ => redirectReturn epilogue).Like ρ (d.mapInstructions fun _ => redirectReturn epilogue) where
  order := like.order
  instructions := by
    refine forall₂_iff_getElem?.mpr fun n => ?_
    have here : Option.Rel (Instruction.Like ρ) ((c.get? ⟨n⟩).map (redirectReturn epilogue))
        ((d.get? ⟨n⟩).map (redirectReturn epilogue)) :=
      rel_map (fun _ _ alike => alike.redirectReturn epilogue) (like.get? ⟨n⟩)
    rw [← get?_mapInstructions fun _ => redirectReturn epilogue, ← get?_mapInstructions fun _ => redirectReturn epilogue] at here
    rw [Array.getElem?_toList, Array.getElem?_toList]
    exact here

theorem any_ret {es es' : List (Handle × Instruction)}
    (like : List.Forall₂ (fun e e' => e.1 = e'.1 ∧ Instruction.Like ρ e.2 e'.2) es es') :
    es.any (·.2.opcode == .ret) = es'.any (·.2.opcode == .ret) := by
  induction like with
  | nil => rfl
  | cons here _ ih => rw [List.any_cons, List.any_cons, here.2.opcode, ih]

/-! Widening takes the same turns in code that is alike. -/

theorem modify_widened (like : c.Like ρ d) (h : Handle) :
    (c.modify h Instruction.widened).Like ρ (d.modify h Instruction.widened) where
  order := like.order
  instructions := by
    refine forall₂_iff_getElem?.mpr fun n => ?_
    have here := like.get? ⟨n⟩
    unfold Code.get? at here
    rw [Array.getElem?_toList, Array.getElem?_toList]
    simp only [Code.modify, Array.getElem?_modify]
    split
    · exact rel_map (fun _ _ alike => alike.widened) here
    · exact here

theorem widenEach (like : c.Like ρ d) (handles : List Handle) : (c.widenEach handles).Like ρ (d.widenEach handles) := by
  unfold Code.widenEach
  induction handles generalizing c d with
  | nil => exact like
  | cons h rest ih => exact ih (like.modify_widened h)

private theorem offsetsFrom_eq {es es' : List (Handle × Instruction)}
    (like : List.Forall₂ (fun e e' => e.1 = e'.1 ∧ Instruction.Like ρ e.2 e'.2) es es') (start : Nat) :
    offsetsFrom start es = offsetsFrom start es' := by
  induction like generalizing start with
  | nil => rfl
  | @cons e e' _ _ here _ ih =>
    obtain ⟨h, i⟩ := e
    obtain ⟨h', i'⟩ := e'
    obtain ⟨rfl, alike⟩ := here
    unfold offsetsFrom
    rw [alike.size, ih]

theorem outOfReach (like : c.Like ρ d) : c.outOfReach = d.outOfReach := by
  have offsets : c.offsets = d.offsets := by
    unfold Code.offsets
    rw [offsetsFrom_eq like.entries, like.size]
  unfold Code.outOfReach
  rw [offsets, ← List.forall₂_eq_eq_eq]
  refine List.rel_filterMap ?_ like.entries
  rintro ⟨h, i⟩ ⟨_, j⟩ ⟨rfl, alike⟩
  have opcode : i.opcode = j.opcode := alike.opcode
  simp only [displacement?, alike.size, alike.target?, opcode]
  exact rel_self fun _ _ => rfl

theorem shortBranchCount (like : c.Like ρ d) : c.shortBranchCount = d.shortBranchCount := by
  have same : c.entries.map (·.2.opcode) = d.entries.map (·.2.opcode) :=
    map_eq_of_forall₂ (fun _ _ alike => alike.2.opcode) like.entries
  have count : ∀ es : List (Handle × Instruction),
      es.countP (·.2.opcode.isShortBranch) = (es.map (·.2.opcode)).countP (·.isShortBranch) := fun es => by
    rw [List.countP_map]
    rfl
  unfold Code.shortBranchCount
  rw [count, count, same]

theorem widenRounds (like : c.Like ρ d) (fuel : Nat) :
    (Code.widenRounds fuel c).1.Like ρ (Code.widenRounds fuel d).1 ∧ (Code.widenRounds fuel c).2 = (Code.widenRounds fuel d).2 := by
  induction fuel generalizing c d with
  | zero => exact ⟨like, rfl⟩
  | succ fuel ih =>
    unfold Code.widenRounds
    rw [like.outOfReach]
    split
    · exact ⟨like, rfl⟩
    · have rest := ih (like.widenEach d.outOfReach)
      generalize Code.widenRounds fuel (c.widenEach d.outOfReach) = x at rest ⊢
      generalize Code.widenRounds fuel (d.widenEach d.outOfReach) = y at rest ⊢
      exact ⟨rest.1, congrArg (d.outOfReach.length + ·) rest.2⟩

end Code.Like

/-! ### Bodies -/

namespace Body.Like

variable {ρ : Token → Token → Prop} {b b' : Body}

theorem size_slots (like : b.Like ρ b') : b.slots.size = b'.slots.size := by simpa using like.slots.length_eq

/-- As many branches of bodies that are alike are widened. -/
theorem widen (like : b.Like ρ b') : b.widen.1.Like ρ b'.widen.1 ∧ b.widen.2 = b'.widen.2 := by
  have rounds := like.code.widenRounds b.code.shortBranchCount
  unfold Body.widen Code.widen
  rw [← like.code.shortBranchCount]
  exact ⟨⟨rounds.1, like.slots, like.initSlots, like.maxStack, like.handlers⟩, rounds.2⟩

theorem addSlot {s t : LocalSlot} (like : b.Like ρ b') (slot : s.Like ρ t) : Agree (Body.Like ρ) (b.addSlot s) (b'.addSlot t) := by
  unfold Body.addSlot
  rw [like.size_slots]
  split
  · refine .ok ⟨like.code, ?_, like.initSlots, like.maxStack, like.handlers⟩
    rw [Array.toList_push, Array.toList_push]
    exact List.rel_append like.slots (.cons slot .nil)
  · exact .error

theorem addSlots {added added' : List LocalSlot} (like : b.Like ρ b') (slots : List.Forall₂ (LocalSlot.Like ρ) added added') :
    Agree (Body.Like ρ) (added.foldlM Body.addSlot b) (added'.foldlM Body.addSlot b') := by
  induction slots generalizing b b' with
  | nil => exact .ok like
  | cons slot _ ih =>
    rw [List.foldlM_cons, List.foldlM_cons]
    exact (like.addSlot slot).bind fun _ _ => ih

theorem span? (like : b.Like ρ b') (r : Region) : b.span? r = b'.span? r := by
  unfold Body.span?
  rw [like.code.position?, like.code.size]
  cases r.stop with
  | none => rfl
  | some h => simp only [like.code.position?]

private theorem forM_eq {α β : Type} {R : α → β → Prop} {f : α → Except Fault Unit} {g : β → Except Fault Unit}
    {l : List α} {l' : List β} (same : ∀ a b, R a b → f a = g b) (paired : List.Forall₂ R l l') : forM l f = forM l' g := by
  induction paired with
  | nil => rfl
  | cons here _ ih => rw [List.forM_cons, List.forM_cons, same _ _ here, ih]

private theorem mapM_eq {α β γ : Type} {R : α → β → Prop} {f : α → Except Fault γ} {g : β → Except Fault γ}
    {l : List α} {l' : List β} (same : ∀ a b, R a b → f a = g b) (paired : List.Forall₂ R l l') : l.mapM f = l'.mapM g := by
  induction paired with
  | nil => rfl
  | cons here _ ih => rw [List.mapM_cons, List.mapM_cons, same _ _ here, ih]

theorem zipIdx {α β : Type} {R : α → β → Prop} {l : List α} {l' : List β} (paired : List.Forall₂ R l l') (start : Nat) :
    List.Forall₂ (fun e e' => R e.1 e'.1 ∧ e.2 = e'.2) (l.zipIdx start) (l'.zipIdx start) := by
  induction paired generalizing start with
  | nil => exact .nil
  | cons here _ ih =>
    rw [List.zipIdx_cons, List.zipIdx_cons]
    exact .cons ⟨here, rfl⟩ (ih (start + 1))

theorem validateHandler {h k : Handler} (like : b.Like ρ b') (alike : h.Like ρ k) (index : Nat) :
    b.validateHandler index h = b'.validateHandler index k := by
  unfold Body.validateHandler
  rw [alike.frame, like.span?, like.span?]

/-- Two bodies that are alike and return in the end pass the same checks. -/
theorem validate (like : b.Like ρ b') (stops : ∀ e ∈ b'.code.entries.getLast?, e.2.opcode.fallsThrough = false) :
    b.validate = b'.validate := by
  have entries := like.code.entries
  have last : Option.Rel (fun e e' => e.1 = e'.1 ∧ Instruction.Like ρ e.2 e'.2) b.code.entries.getLast? b'.code.entries.getLast? := by
    rw [List.getLast?_eq_getElem?, List.getLast?_eq_getElem?, entries.length_eq]
    exact forall₂_iff_getElem?.mp entries _
  have instructions : (forM b.code.entries fun e => b.validateInstruction e.1 e.2) =
      forM b'.code.entries fun e => b'.validateInstruction e.1 e.2 := by
    refine forM_eq ?_ entries
    rintro ⟨h, i⟩ ⟨_, j⟩ ⟨rfl, alike⟩
    exact alike.validate like.code.size like.size_slots h
  have clauses : (b.handlers.zipIdx.mapM fun e => b.validateHandler e.2 e.1) =
      b'.handlers.zipIdx.mapM fun e => b'.validateHandler e.2 e.1 := by
    refine mapM_eq ?_ (zipIdx like.handlers 0)
    rintro ⟨h, index⟩ ⟨k, _⟩ ⟨alike, rfl⟩
    exact like.validateHandler alike index
  have returns : ∀ spans : List Span, (forM b.code.entries.zipIdx fun e => validateReturn spans e.1.2 e.2) =
      forM b'.code.entries.zipIdx fun e => validateReturn spans e.1.2 e.2 := by
    refine fun spans => forM_eq ?_ (zipIdx entries 0)
    rintro ⟨⟨_, i⟩, position⟩ ⟨⟨_, j⟩, _⟩ ⟨⟨_, alike⟩, rfl⟩
    have opcode : i.opcode = j.opcode := alike.opcode
    simp only [validateReturn, opcode]
  cases ends : b.code.entries.getLast? <;> cases ends' : b'.code.entries.getLast? <;> rw [ends, ends'] at last
  case none.none => simp only [Body.validate, ends, ends']
  case some.some e e' =>
    obtain ⟨-, alike⟩ := Option.rel_some_some.mp last
    have stops := stops e' ends'
    have opcode : e.2.opcode = e'.2.opcode := alike.opcode
    simp only [Body.validate, ends, ends', List.forM_eq_forM, instructions, clauses, returns, opcode, stops, Bool.false_eq_true, if_false]
  all_goals cases last

end Body.Like

/-! ### Plans -/

/-- Loads of parameters that are alike. -/
structure ParameterLoad.Like (ρ : Token → Token → Prop) (l l' : ParameterLoad) : Prop where
  argument : l.argument = l'.argument
  deref : Option.Rel (Instruction.Like ρ) l.deref l'.deref
  boxType : Option.Rel ρ l.boxType l'.boxType

theorem ParameterLoad.Like.mono {ρ ρ' : Token → Token → Prop} {l l' : ParameterLoad} (like : l.Like ρ l')
    (more : ∀ a b, ρ a b → ρ' a b) : l.Like ρ' l' :=
  ⟨like.argument, rel_mono (fun _ _ alike => alike.mono more) like.deref, rel_mono more like.boxType⟩

/-- Plans that are alike: they place, call and return the same, and the types they name go together. -/
structure WeavePlan.Like (ρ : Token → Token → Prop) (p q : WeavePlan) : Prop where
  anchor : p.anchor = q.anchor
  methodBase : ρ p.methodBase q.methodBase
  exception : ρ p.exception q.exception
  object : ρ p.object q.object
  attributeType : ρ p.attributeType q.attributeType
  getMethodFromHandle : p.getMethodFromHandle = q.getMethodFromHandle
  getTypeFromHandle : p.getTypeFromHandle = q.getTypeFromHandle
  getCustomAttributes : p.getCustomAttributes = q.getCustomAttributes
  onEntry : p.onEntry = q.onEntry
  onExit : p.onExit = q.onExit
  onException : p.onException = q.onException
  parameters : List.Forall₂ (ParameterLoad.Like ρ) p.parameters q.parameters
  result : p.result = q.result
  resultNames : ∀ type ∈ p.result.tokens, ρ type type
  resultBox : Option.Rel ρ p.resultBox q.resultBox
  storesResult : p.storesResult = q.storesResult

section Injected

open Instruction (Like loadArgument loadSlot storeSlot pushInt32)

variable {ρ : Token → Token → Prop} {p q : WeavePlan} {s : WovenSlots} {index : UInt16} {method declaringType : Token}

private theorem like_plain {i : Instruction} (plain : i.type? = none) : i.Like ρ i := .same (by simp [plain])

private theorem like_loadSlot : (loadSlot index).Like ρ (loadSlot index) := by
  refine like_plain ?_
  unfold loadSlot
  split <;> rfl

private theorem like_storeSlot : (storeSlot index).Like ρ (storeSlot index) := by
  refine like_plain ?_
  unfold storeSlot
  split <;> rfl

private theorem like_loadArgument : (loadArgument index).Like ρ (loadArgument index) := by
  refine like_plain ?_
  unfold loadArgument
  split <;> rfl

private theorem like_pushInt32 {value : Int32} : (pushInt32 value).Like ρ (pushInt32 value) := by
  refine like_plain ?_
  unfold pushInt32
  split <;> rfl

private theorem like_box {x y : Option Token} (paired : Option.Rel ρ x y) :
    List.Forall₂ (Instruction.Like ρ) (x.map fun type => (⟨.box, .type type⟩ : Instruction)).toList
      (y.map fun type => (⟨.box, .type type⟩ : Instruction)).toList :=
  forall₂_toList (rel_map (fun _ _ renamed => .type rfl renamed) paired)

private theorem like_storeArgument {l l' : ParameterLoad} (like : l.Like ρ l') (position : Nat) :
    List.Forall₂ (Instruction.Like ρ) (WeavePlan.storeArgument s l position) (WeavePlan.storeArgument s l' position) := by
  unfold WeavePlan.storeArgument
  rw [like.argument]
  refine List.rel_append (List.rel_append (List.rel_append ?_ (forall₂_toList like.deref)) (like_box like.boxType)) ?_
  · exact .cons like_loadSlot (.cons like_pushInt32 (.cons like_loadArgument .nil))
  · exact .cons (like_plain rfl) .nil

namespace WeavePlan.Like

theorem prologue (like : p.Like ρ q) (declares : ρ declaringType declaringType) :
    List.Forall₂ (Instruction.Like ρ) (p.prologue s method declaringType) (q.prologue s method declaringType) := by
  have stores : List.Forall₂ (Instruction.Like ρ) (p.parameters.zipIdx.flatMap fun e => storeArgument s e.1 e.2)
      (q.parameters.zipIdx.flatMap fun e => storeArgument s e.1 e.2) := by
    refine List.rel_flatMap (Body.Like.zipIdx like.parameters 0) ?_
    rintro ⟨l, position⟩ ⟨l', _⟩ ⟨alike, rfl⟩
    exact like_storeArgument alike position
  unfold WeavePlan.prologue
  rw [like.getMethodFromHandle, like.getTypeFromHandle, like.getCustomAttributes, like.onEntry, like.parameters.length_eq]
  refine List.rel_append (List.rel_append ?_ stores) ?_
  all_goals
    simp only [List.forall₂_cons, List.forall₂_nil_left_iff, and_true]
    and_intros
    all_goals first
      | exact like_loadSlot
      | exact like_storeSlot
      | exact like_pushInt32
      | exact .type rfl like.attributeType
      | exact .type rfl like.object
      | exact .type rfl declares
      | exact like_plain rfl

theorem epilogue (like : p.Like ρ q) (goal : Handle) :
    List.Forall₂ (Instruction.Like ρ) (p.epilogue s goal) (q.epilogue s goal) := by
  have store : List.Forall₂ (Instruction.Like ρ) (if q.storesResult then [storeSlot s.result] else [])
      (if q.storesResult then [storeSlot s.result] else []) := by
    split
    · exact .cons like_storeSlot .nil
    · exact .nil
  unfold WeavePlan.epilogue
  rw [like.storesResult, like.onExit]
  refine List.rel_append (List.rel_append (List.rel_append store ?_) (like_box like.resultBox)) ?_
  · exact .cons like_loadSlot (.cons like_loadSlot .nil)
  · exact .cons like_loadSlot (.cons like_loadSlot (.cons (like_plain rfl) (.cons (like_plain rfl) .nil)))

theorem handler (like : p.Like ρ q) : List.Forall₂ (Instruction.Like ρ) (p.handler s) (q.handler s) := by
  unfold WeavePlan.handler
  rw [like.onException]
  exact .cons like_storeSlot (.cons like_loadSlot (.cons like_loadSlot (.cons like_loadSlot (.cons like_loadSlot
    (.cons (like_plain rfl) (.cons (like_plain rfl) .nil))))))

theorem returnBlock (like : p.Like ρ q) : List.Forall₂ (Instruction.Like ρ) (p.returnBlock s) (q.returnBlock s) := by
  unfold WeavePlan.returnBlock
  rw [like.result]
  split
  · exact .cons (like_plain rfl) .nil
  · exact .cons like_loadSlot (.cons (like_plain rfl) .nil)

theorem slots (like : p.Like ρ q) : List.Forall₂ (LocalSlot.Like ρ) p.slots q.slots := by
  have last : (if p.result.isVoid then ⟨none, .object⟩ else ⟨some "__fody$retval", p.result⟩ : LocalSlot).Like ρ
      (if q.result.isVoid then ⟨none, .object⟩ else ⟨some "__fody$retval", q.result⟩) := by
    rw [← like.result]
    split
    · exact ⟨rfl, .same (by simp [TypeSig.tokens])⟩
    · exact ⟨rfl, .same like.resultNames⟩
  exact .cons ⟨rfl, .classType like.methodBase⟩ (.cons ⟨rfl, .classType like.attributeType⟩
    (.cons ⟨rfl, .classType like.exception⟩ (.cons ⟨rfl, .same (by simp [TypeSig.tokens])⟩ (.cons last .nil))))

theorem places (like : p.Like ρ q) (epilogue : Handle) : p.places s epilogue = q.places s epilogue := by
  unfold WeavePlan.places
  rw [(like.epilogue epilogue).length_eq, like.handler.length_eq]

/-- Plans that are alike make alike bodies of bodies that are alike, or fail for the same fault. -/
theorem splice {b b' : Body} (like : p.Like ρ q) (body : b.Like ρ b') (declares : ρ declaringType declaringType) :
    Agree (Body.Like ρ) (p.splice b method declaringType) (q.splice b' method declaringType) := by
  unfold WeavePlan.splice
  refine (body.addSlots like.slots).bind fun enlarged enlarged' larger => ?_
  dsimp only
  rw [body.size_slots, body.code.size, like.anchor, (like.prologue declares).length_eq, like.places]
  generalize WovenSlots.startingAt b'.slots.size = s
  generalize q.places s _ = places
  have prologue : List.Forall₂ (Instruction.Like ρ) (p.prologue s method declaringType) (q.prologue s method declaringType) :=
    like.prologue declares
  have entered := (body.code.redirect places.epilogue).insertAllBefore? q.anchor prologue
  generalize Code.insertAllBefore? _ _ (p.prologue s method declaringType) = x at entered ⊢
  generalize Code.insertAllBefore? _ _ (q.prologue s method declaringType) = y at entered ⊢
  cases entered with
  | none => exact .error
  | some entered =>
    have clauses : List.Forall₂ (Handler.Like ρ) (b.handlers.map (·.closedAt places.epilogue))
        (b'.handlers.map (·.closedAt places.epilogue)) :=
      List.rel_map (fun h k alike => ⟨by rw [alike.frame]; rfl, alike.catchType⟩) body.handlers
    exact .ok
      { code := entered.append
          (List.rel_append (List.rel_append (like.epilogue places.returnBlock) like.handler) like.returnBlock)
        slots := larger.slots
        initSlots := rfl
        maxStack := congrArg (max · wovenMaxStack) body.maxStack
        handlers := List.rel_append clauses (.cons ⟨rfl, .some like.exception⟩ .nil) }

end WeavePlan.Like

end Injected

/-! ### Woven bodies -/

/-- The body a plan makes of another one: spliced, with its short branches widened, and checked if it is to be. -/
def WeavePlan.weave (p : WeavePlan) (policy : Policy) (b : Body) (method declaringType : Token) : Except Fault Body := do
  let spliced ← p.splice b method declaringType
  if policy.validates then spliced.widen.1.validate.map fun _ => spliced.widen.1
  else .ok spliced.widen.1

section Woven

variable {ρ : Token → Token → Prop} {p q : WeavePlan} {policy : Policy} {b b' new : Body} {method declaringType : Token}

/-- Splicing that succeeds puts the prologue at some place. -/
theorem exists_splices (done : p.splice b method declaringType = .ok new) :
    ∃ place, (⟨p, b, method, declaringType⟩ : Weave).Splices place new := by
  let w : Weave := ⟨p, b, method, declaringType⟩
  have entered : (w.redirected.insertAllBefore? p.anchor w.prologue).isSome := by
    unfold WeavePlan.splice at done
    simp only [bind, Except.bind] at done
    split at done
    · cases done
    · split at done
      · rename_i inserted
        exact Option.isSome_of_eq_some inserted
      · cases done
  obtain ⟨place, stands⟩ := Option.isSome_iff_exists.mp (by simpa [Code.insertAllBefore?] using entered)
  have anchor : w.old.code.order[place]? = some p.anchor := (Code.position?_eq_some_iff (c := w.redirected)).mp stands
  exact ⟨place, w.splices_of_splice anchor done⟩

/-- Woven code ends with its return. -/
theorem stops_of_splice (done : p.splice b method declaringType = .ok new) :
    ∀ e ∈ new.widen.1.code.entries.getLast?, e.2.opcode.fallsThrough = false := by
  obtain ⟨place, splices⟩ := exists_splices done
  obtain ⟨h, ends, found⟩ := splices.last
  have alike : new.code.Alike new.widen.1.code := new.code.alike_widen
  obtain ⟨i, there, same⟩ := alike.instruction found
  have last : new.widen.1.code.entries.getLast? = some (h, i) :=
    Code.getLast?_entries_eq_some_iff.mpr ⟨by rwa [Code.last?, alike.order], there⟩
  intro e member
  rw [last] at member
  cases member
  have flow : i.opcode.flow = Opcode.ret.flow := same.flow.symm
  rw [Opcode.fallsThrough, flow]
  rfl

/-- Plans that are alike weave bodies that are alike, or fail for the same fault. -/
theorem WeavePlan.Like.weave (like : p.Like ρ q) (body : b.Like ρ b') (declares : ρ declaringType declaringType) :
    Agree (Body.Like ρ) (p.weave policy b method declaringType) (q.weave policy b' method declaringType) := by
  have spliced : Agree (Body.Like ρ) (p.splice b method declaringType) (q.splice b' method declaringType) :=
    like.splice body declares
  unfold WeavePlan.weave
  cases first : p.splice b method declaringType <;> cases second : q.splice b' method declaringType <;>
    rw [first, second] at spliced
  case error.error =>
    cases spliced
    exact .error
  case ok.ok new new' =>
    cases spliced with
    | ok alike =>
      have widened := alike.widen.1
      show Agree _ (if policy.validates then _ else _) (if policy.validates then _ else _)
      split
      · rw [widened.validate (stops_of_splice second)]
        cases new'.widen.1.validate with
        | ok => exact .ok widened
        | error fault => exact .error
      · exact .ok widened
  all_goals cases spliced

end Woven

end AspectWeaving

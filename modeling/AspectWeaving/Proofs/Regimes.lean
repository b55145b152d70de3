import AspectWeaving.Proofs.Stepping
import AspectWeaving.Proofs.Validation

/-!
Regimes. A regime says how a machine may change, which values may be in use on it, and what a computation may fail for. All
that a program does to objects is to make new ones, to put values into arrays and to write messages into exceptions
(`HeapObject.Becomes`). So a regime that allows for these (`Regime.Lawful`) is kept to by each instruction (`obeys_step`).
-/
namespace AspectWeaving

open Running (compute fail allocate modifyObject note callHost attempt)

/-! ### Objects -/

/-- The values that an object has. -/
def HeapObject.values : HeapObject → List Value
  | .boxed value => [value]
  | .array elements => elements.toList
  | _ => []

/-- What a program may make of an object. -/
inductive HeapObject.Becomes : HeapObject → HeapObject → Prop
  | same (o : HeapObject) : Becomes o o
  /-- Values are put into an array. -/
  | elements {before after : Array Value} (size : after.size = before.size) : Becomes (.array before) (.array after)
  /-- A message is written into an exception. -/
  | message (typeName : String) (before after : Option String) :
      Becomes (.exception typeName before) (.exception typeName after)

namespace Heap

/-- What a value refers to is there. -/
def Has (h : Heap) (v : Value) : Prop := ∀ r ∈ v.ref?, (h.get? r).isSome

/-- All that the objects of a heap refer to is there. -/
def Closed (h : Heap) : Prop := ∀ r o, h.get? r = some o → ∀ v ∈ o.values, h.Has v

theorem closed_empty : ({} : Heap).Closed := by
  intro r o found
  simp [get?] at found

end Heap

/-! ### Regimes -/

/-- The fault has to do neither with a reference nor with the depth of calls, and is no name without end. -/
def ExecutionFault.isOrdinary : ExecutionFault → Bool
  | .invalidHeapReference _ | .callDepthExceeded _ | .endlessName _ => false
  | _ => true

/-- The fault is an ordinary one. -/
def Fault.isOrdinary : Fault → Bool
  | .execution cause => cause.isOrdinary
  | _ => true

/-- How a machine may change, which values may be in use on it, and what a computation may fail for. -/
structure Regime where
  /-- What holds of a machine all the time. -/
  sound : Machine → Prop
  becomes : Machine → Machine → Prop
  admits : Machine → Value → Prop
  fails : Fault → Prop

/-- A regime allows for what computations on a module do. -/
structure Regime.Lawful (D : Regime) (m : Module) : Prop where
  refl (s : Machine) : D.becomes s s
  trans {s t u : Machine} : D.becomes s t → D.becomes t u → D.becomes s u
  mono {s t : Machine} {v : Value} : D.becomes s t → D.admits s v → D.admits t v
  plain {s : Machine} {v : Value} : v.ref? = none → D.admits s v
  held {s : Machine} {r : HeapRef} {o : HeapObject} : D.sound s → s.heap.get? r = some o → ∀ v ∈ o.values, D.admits s v
  ordinary {fault : Fault} : fault.isOrdinary = true → D.fails fault
  endless {type : Token} : m.isEndless type = true → D.fails (.execution (.endlessName type))
  dangling {s : Machine} {r : HeapRef} :
    D.admits s (.ref r) → s.heap.get? r = none → D.fails (.execution (.invalidHeapReference r.id))
  push {s : Machine} {o : HeapObject} : D.sound s → (∀ v ∈ o.values, D.admits s v) →
    D.sound { s with heap := s.heap.push o } ∧ D.becomes s { s with heap := s.heap.push o } ∧
      D.admits { s with heap := s.heap.push o } (.ref s.heap.nextRef)
  modify {s : Machine} {r : HeapRef} {f : HeapObject → HeapObject} : D.sound s →
    (∀ o, s.heap.get? r = some o → o.Becomes (f o) ∧ ∀ v ∈ (f o).values, D.admits s v) →
    D.sound { s with heap := s.heap.modify r f } ∧ D.becomes s { s with heap := s.heap.modify r f }
  note {s : Machine} {event : TraceEvent} : D.sound s →
    D.sound { s with trace := s.trace.push event } ∧ D.becomes s { s with trace := s.trace.push event }

/-! ### Computations -/

/-- A computation on values and objects fails for nothing else. -/
def Regime.Lets {α : Type} (D : Regime) (e : Except ExecutionFault α) : Prop :=
  ∀ cause, e = .error cause → D.fails (.execution cause)

/-- From a machine on, a computation keeps to a regime, and has a property in the end. -/
def Running.Obeys {α : Type} (D : Regime) (s : Machine) (x : Running α) (Q : Machine → α → Prop) : Prop :=
  match x s with
  | .ok a t => D.sound t ∧ D.becomes s t ∧ Q t a
  | .error fault t => D.sound t ∧ D.becomes s t ∧ D.fails fault

section Computations

variable {α β : Type} {D : Regime} {s : Machine}

namespace Regime.Lets

@[simp] theorem ok {a : α} : D.Lets (.ok a) := nofun

@[simp] theorem pure {a : α} : D.Lets (pure a) := nofun

theorem error {cause : ExecutionFault} (fails : D.fails (.execution cause)) : D.Lets (.error cause : Except _ α) :=
  fun _ same => Except.error.inj same ▸ fails

theorem bind {e : Except ExecutionFault α} {f : α → Except ExecutionFault β} (first : D.Lets e)
    (second : ∀ a, e = .ok a → D.Lets (f a)) : D.Lets (e >>= f) := by
  cases e with
  | ok a => exact second a rfl
  | error cause => exact Lets.error (first _ rfl)

theorem map {e : Except ExecutionFault α} {f : α → β} (lets : D.Lets e) : D.Lets (e.map f) := by
  cases e with
  | ok a => exact nofun
  | error cause => exact Lets.error (lets _ rfl)

end Regime.Lets

namespace Running.Obeys

variable {P : Machine → α → Prop} {Q : Machine → β → Prop} {x : Running α} {f : α → Running β}

theorem ok {a : α} {t : Machine} (obeys : Obeys D s x P) (done : x s = .ok a t) : D.sound t ∧ D.becomes s t ∧ P t a := by
  unfold Obeys at obeys
  rwa [done] at obeys

theorem error {fault : Fault} {t : Machine} (obeys : Obeys D s x P) (failed : x s = .error fault t) :
    D.sound t ∧ D.becomes s t ∧ D.fails fault := by
  unfold Obeys at obeys
  rwa [failed] at obeys

theorem imp {P' : Machine → α → Prop} (obeys : Obeys D s x P)
    (weaker : ∀ a t, D.sound t → D.becomes s t → P t a → P' t a) : Obeys D s x P' := by
  unfold Obeys
  cases done : x s with
  | ok a t =>
    obtain ⟨sound, becomes, holds⟩ := obeys.ok done
    exact ⟨sound, becomes, weaker a t sound becomes holds⟩
  | error fault t => exact obeys.error done

variable {m : Module} (L : D.Lawful m) (sound : D.sound s)
include L

theorem bind (first : Obeys D s x P) (second : ∀ a t, D.sound t → D.becomes s t → P t a → Obeys D t (f a) Q) :
    Obeys D s (x >>= f) Q := by
  change match EStateM.bind x f s with | .ok a t => _ | .error fault t => _
  unfold EStateM.bind
  cases start : x s with
  | ok a t =>
    obtain ⟨sound, becomes, holds⟩ := first.ok start
    have rest := second a t sound becomes holds
    dsimp only
    cases ends : f a t with
    | ok b u =>
      obtain ⟨sound, becomes', holds⟩ := rest.ok ends
      exact ⟨sound, L.trans becomes becomes', holds⟩
    | error fault u =>
      obtain ⟨sound, becomes', fails⟩ := rest.error ends
      exact ⟨sound, L.trans becomes becomes', fails⟩
  | error fault t => exact first.error start

include sound

theorem pure {a : α} (holds : P s a) : Obeys D s (pure a) P := ⟨sound, L.refl s, holds⟩

theorem throw {fault : Fault} (fails : D.fails fault) : Obeys D s (throw fault : Running α) P := ⟨sound, L.refl s, fails⟩

theorem fail {cause : ExecutionFault} (ordinary : cause.isOrdinary = true) : Obeys D s (fail cause : Running α) P :=
  throw L sound (L.ordinary ordinary)

/-- What a computation on values and objects gives is worked on. -/
theorem compute {e : Except ExecutionFault α} (lets : D.Lets e) (next : ∀ a, e = .ok a → Obeys D s (f a) Q) :
    Obeys D s (compute e >>= f) Q := by
  cases e with
  | ok a => exact next a rfl
  | error cause => exact throw (α := β) L sound (lets _ rfl)

theorem allocate {o : HeapObject} (values : ∀ v ∈ o.values, D.admits s v) :
    Obeys D s (allocate o) fun t r => D.admits t (.ref r) := L.push sound values

theorem modifyObject {r : HeapRef} {g : HeapObject → HeapObject}
    (becomes : ∀ o, s.heap.get? r = some o → o.Becomes (g o) ∧ ∀ v ∈ (g o).values, D.admits s v) :
    Obeys D s (modifyObject r g) fun _ _ => True := ⟨(L.modify sound becomes).1, (L.modify sound becomes).2, trivial⟩

theorem note {event : TraceEvent} : Obeys D s (note event) fun _ _ => True :=
  ⟨(L.note sound).1, (L.note sound).2, trivial⟩

omit L sound in
theorem attempt (obeys : Obeys D s x P) :
    Obeys D s (attempt x) fun t result =>
      (∀ a, result = .ok a → P t a) ∧ ∀ fault, result = .error fault → D.fails fault := by
  unfold Obeys Running.attempt
  cases done : x s with
  | ok a t =>
    obtain ⟨sound, becomes, holds⟩ := obeys.ok done
    exact ⟨sound, becomes, fun b same => Except.ok.inj same ▸ holds, nofun⟩
  | error fault t =>
    obtain ⟨sound, becomes, fails⟩ := obeys.error done
    exact ⟨sound, becomes, nofun, fun cause same => Except.error.inj same ▸ fails⟩

end Running.Obeys

end Computations

/-! ### Values and frames -/

/-- The outcome of a call may be in use. -/
def Outcome.Admitted (D : Regime) (s : Machine) : Outcome → Prop
  | .returned value => D.admits s value
  | .threw x => D.admits s (.ref x)

/-- What is to become of an outcome has objects that may be in use. -/
def Pending.Admitted (D : Regime) (s : Machine) : Pending → Prop
  | .construct object => D.admits s (.ref object)
  | .collect objects _ => ∀ v ∈ objects, D.admits s v

/-- All values of a frame may be in use. -/
structure Frame.Admitted (D : Regime) (s : Machine) (f : Frame) : Prop where
  arguments : ∀ v ∈ f.activation.arguments, D.admits s v
  slots : ∀ v, some v ∈ f.slots → D.admits s v
  stack : ∀ v ∈ f.stack, D.admits s v
  active : ∀ c ∈ f.active, D.admits s (.ref c.exception)
  pending : ∀ next ∈ f.pending, next.Admitted D s

/-- The values of an effect may be in use. -/
def Effect.Admitted (D : Regime) (s : Machine) : Effect → Prop
  | .store _ value | .exit value => D.admits s value
  | .throw x => D.admits s (.ref x)
  | .call _ arguments _ | .construct _ arguments => ∀ v ∈ arguments, D.admits s v
  | .next | .jump _ | .leave _ => True

namespace Value

variable {v w : Value}

theorem ref?_of_negateValue {result : Value} (done : negateValue v = .ok result) : result.ref? = none := by
  cases v <;> cases done <;> rfl

theorem ref?_of_onValues {result : Value} {operation : Arithmetic} (done : operation.onValues v w = .ok result) :
    result.ref? = none := by
  unfold Arithmetic.onValues at done
  split at done
  · rename_i x y
    cases calculated : operation.onInt32 x y with
    | ok value => rw [calculated] at done; cases done; rfl
    | error cause => rw [calculated] at done; cases done
  · rename_i x y
    cases calculated : operation.onInt64 x y with
    | ok value => rw [calculated] at done; cases done; rfl
    | error cause => rw [calculated] at done; cases done
  · cases done
    rfl
  · cases done

end Value

section Values

variable {D : Regime} {m : Module} (L : D.Lawful m) {s t : Machine} (sound : D.sound s)
include L

theorem Pending.Admitted.mono {next : Pending} (becomes : D.becomes s t) (admitted : next.Admitted D s) : next.Admitted D t := by
  cases next with
  | construct object => exact L.mono becomes admitted
  | collect objects attributes => exact fun v member => L.mono becomes (admitted v member)

theorem Frame.Admitted.mono {f : Frame} (becomes : D.becomes s t) (admitted : f.Admitted D s) : f.Admitted D t where
  arguments v member := L.mono becomes (admitted.arguments v member)
  slots v member := L.mono becomes (admitted.slots v member)
  stack v member := L.mono becomes (admitted.stack v member)
  active c member := L.mono becomes (admitted.active c member)
  pending next member := (admitted.pending next member).mono L becomes

omit L in
theorem Activation.mem_of_argument {a : Activation} {index : Nat} {v : Value} (loaded : a.argument index = .ok v) :
    v ∈ a.arguments := by
  unfold Activation.argument at loaded
  split at loaded
  · cases loaded
    exact Array.mem_of_getElem? ‹_›
  · cases loaded

omit L in
theorem Frame.mem_of_slot {f : Frame} {index : Nat} {v : Value} (loaded : f.slot index = .ok v) : some v ∈ f.slots := by
  unfold Frame.slot at loaded
  split at loaded
  · cases loaded
    exact Array.mem_of_getElem? ‹_›
  · cases loaded
  · cases loaded

omit L in
theorem get?_of_get {h : Heap} {r : HeapRef} {o : HeapObject} (found : h.get r = .ok o) : h.get? r = some o := by
  unfold Heap.get at found
  split at found
  · cases found
    assumption
  · cases found

theorem lets_get {r : HeapRef} (admits : D.admits s (.ref r)) : D.Lets (s.heap.get r) := by
  unfold Heap.get
  split
  · exact .ok
  · rename_i missing
    exact .error (L.dangling admits missing)

theorem lets_object {v : Value} (admits : D.admits s v) : D.Lets (s.heap.object v) := by
  cases v with
  | ref r => exact lets_get L admits
  | _ => exact .error (L.ordinary rfl)

theorem lets_array {v : Value} (admits : D.admits s v) : D.Lets (s.heap.array v) := by
  refine (lets_object L admits).bind fun object _ => ?_
  split
  · exact .pure
  · exact .error (L.ordinary rfl)

theorem lets_string {v : Value} (admits : D.admits s v) : D.Lets (s.heap.string v) := by
  refine (lets_object L admits).bind fun object _ => ?_
  split
  · exact .pure
  · exact .error (L.ordinary rfl)

theorem lets_unboxValue {v : Value} (admits : D.admits s v) : D.Lets (unboxValue s.heap v) := by
  refine (lets_object L admits).bind fun object _ => ?_
  split <;> exact .pure

theorem lets_naming (token : Token) : D.Lets (m.naming token) := by
  unfold Module.naming
  split
  · rename_i endless
    exact .error (L.endless endless)
  · exact .ok

theorem lets_isInstance {r : HeapRef} (admits : D.admits s (.ref r)) (type : Token) :
    D.Lets (isInstance m s.heap r type) := by
  refine (lets_naming L type).bind fun name? _ => ?_
  split
  · exact .pure
  · exact (lets_get L admits).map

theorem lets_checkCast {r : HeapRef} (admits : D.admits s (.ref r)) (type : Token) :
    D.Lets (checkCast m s.heap r type) := by
  refine (lets_get L admits).bind fun object _ => (lets_isInstance L admits type).bind fun holds _ => ?_
  split
  · exact .error (L.ordinary rfl)
  · exact .pure

theorem lets_callShape (token : Token) : D.Lets (m.callShape token) := by
  simp only [Module.callShape]
  generalize (if token.table = Token.methodDef then _ else _) = shape?
  cases shape? with
  | none => exact .error (L.ordinary rfl)
  | some shape => exact .ok

theorem lets_asInt32 (v : Value) : D.Lets v.asInt32 := by
  cases v with
  | int32 value => exact .ok
  | _ => exact .error (L.ordinary rfl)

theorem lets_isTrue (v : Value) : D.Lets v.isTrue := by
  cases v with
  | void | methodHandle | typeHandle => exact .error (L.ordinary rfl)
  | _ => exact .ok

theorem lets_onInt32 (operation : Arithmetic) (x y : Int32) : D.Lets (operation.onInt32 x y) := by
  cases operation <;> simp only [Arithmetic.onInt32] <;> (try split) <;>
    first | exact .ok | exact .error (L.ordinary rfl)

theorem lets_onInt64 (operation : Arithmetic) (x y : Int64) : D.Lets (operation.onInt64 x y) := by
  cases operation <;> simp only [Arithmetic.onInt64] <;> (try split) <;>
    first | exact .ok | exact .error (L.ordinary rfl)

theorem lets_onValues (operation : Arithmetic) (a b : Value) : D.Lets (operation.onValues a b) := by
  unfold Arithmetic.onValues
  split
  · exact (lets_onInt32 L operation _ _).map
  · exact (lets_onInt64 L operation _ _).map
  · exact .ok
  · exact .error (L.ordinary rfl)

theorem lets_negateValue (v : Value) : D.Lets (negateValue v) := by
  cases v with
  | int32 | int64 | real => exact .ok
  | _ => exact .error (L.ordinary rfl)

theorem lets_compareValues (a b : Value) : D.Lets (compareValues a b) := by
  unfold compareValues
  split
  all_goals first | exact .ok | exact .error (L.ordinary rfl)

theorem lets_thrownException (v : Value) : D.Lets (thrownException v) := by
  cases v with
  | ref r => exact .ok
  | _ => exact .error (L.ordinary rfl)

theorem lets_arrayLength (v : Value) : D.Lets (arrayLength v) := by
  refine (lets_asInt32 L v).bind fun length _ => ?_
  split
  · exact .pure
  · exact .error (L.ordinary rfl)

theorem lets_lengthValue (length : Nat) : D.Lets (lengthValue length) := by
  unfold lengthValue
  split
  · exact .ok
  · exact .error (L.ordinary rfl)

theorem lets_elementIndex (index : Int32) (length : Nat) : D.Lets (Heap.elementIndex index length) := by
  unfold Heap.elementIndex
  split
  · exact .ok
  · exact .error (L.ordinary rfl)

theorem lets_element (elements : Array Value) (index : Int32) : D.Lets (Heap.element elements index) :=
  (lets_elementIndex L index elements.size).bind fun _ _ => .pure

theorem lets_argument (a : Activation) (index : Nat) : D.Lets (a.argument index) := by
  unfold Activation.argument
  split
  · exact .ok
  · exact .error (L.ordinary rfl)

theorem lets_slot (f : Frame) (index : Nat) : D.Lets (f.slot index) := by
  unfold Frame.slot
  split
  · exact .ok
  · exact .error (L.ordinary rfl)
  · exact .error (L.ordinary rfl)

theorem lets_checkSlot (f : Frame) (index : Nat) : D.Lets (f.checkSlot index) := by
  unfold Frame.checkSlot
  split
  · exact .ok
  · exact .error (L.ordinary rfl)

include sound

theorem admits_of_array {v : Value} {elements : Array Value} (found : s.heap.array v = .ok elements) :
    ∀ w ∈ elements, D.admits s w := by
  cases v with
  | ref r =>
    obtain ⟨object, got, kind⟩ := bind_eq_ok_iff.mp found
    cases object with
    | array elements' =>
      cases kind
      exact fun w member => L.held sound (get?_of_get got) w (Array.mem_toList_iff.mpr member)
    | _ => cases kind
  | _ => cases found

theorem admits_of_unboxValue {v w : Value} (admits : D.admits s v) (unboxed : unboxValue s.heap v = .ok w) : D.admits s w := by
  cases v with
  | ref r =>
    obtain ⟨object, got, inner⟩ := bind_eq_ok_iff.mp unboxed
    cases object with
    | boxed value =>
      cases inner
      exact L.held sound (get?_of_get got) _ List.mem_cons_self
    | _ =>
      cases inner
      exact admits
  | _ => cases unboxed

omit L sound in
theorem mem_of_element {elements : Array Value} {index : Int32} {v : Value} (loaded : Heap.element elements index = .ok v) :
    v ∈ elements := by
  obtain ⟨place, named, got⟩ := bind_eq_ok_iff.mp loaded
  have inside : place < elements.size := by
    unfold Heap.elementIndex at named
    split at named
    · rename_i bounds
      cases named
      omega
    · cases named
  cases got
  simp [Array.getD, inside]

end Values

/-! ### Instructions -/

section Instructions

variable {α : Type} {D : Regime} {m : Module} (L : D.Lawful m) {s t : Machine} (sound : D.sound s) {stack : List Value}
  {Q : Machine → α → Prop}
include L sound

open Running (Obeys)

theorem obeys_require {β : Type} (operand : MissingOperand) (a? : Option β) {f : β → Running α}
    (next : ∀ a, a? = some a → Obeys D s (f a) Q) : Obeys D s (Instruction.require operand a? >>= f) Q := by
  cases a? with
  | none => exact .throw (α := α) L sound (L.ordinary rfl)
  | some a => exact next a rfl

theorem obeys_branchTarget (i : Instruction) {f : Handle → Running α} (next : ∀ target, Obeys D s (f target) Q) :
    Obeys D s (i.branchTarget >>= f) Q := by
  unfold Instruction.branchTarget
  cases i.target? with
  | none => exact .throw (α := α) L sound (L.ordinary rfl)
  | some target => exact next target

theorem obeys_requireToken (i : Instruction) {f : Token → Running α} (next : ∀ token, Obeys D s (f token) Q) :
    Obeys D s (i.requireToken >>= f) Q := by
  unfold Instruction.requireToken
  cases i.token? with
  | none => exact .throw (α := α) L sound (L.ordinary rfl)
  | some token => exact next token

theorem obeys_pop (stack : List Value) {f : Value × List Value → Running α}
    (next : ∀ v rest, stack = v :: rest → Obeys D s (f (v, rest)) Q) : Obeys D s (pop stack >>= f) Q := by
  cases stack with
  | nil => exact .throw (α := α) L sound (L.ordinary rfl)
  | cons v rest => exact next v rest rfl

theorem obeys_popPair (stack : List Value) {f : Value × Value × List Value → Running α}
    (next : ∀ a b rest, stack = b :: a :: rest → Obeys D s (f (a, b, rest)) Q) : Obeys D s (popPair stack >>= f) Q := by
  match stack with
  | [] => exact .throw (α := α) L sound (L.ordinary rfl)
  | [_] => exact .throw (α := α) L sound (L.ordinary rfl)
  | b :: a :: rest => exact next a b rest rfl

theorem obeys_popMany (count : Nat) (stack : List Value) {f : List Value × List Value → Running α}
    (next : Obeys D s (f ((stack.take count).reverse, stack.drop count)) Q) : Obeys D s (popMany count stack >>= f) Q := by
  unfold popMany
  split
  · exact next
  · exact .throw (α := α) L sound (L.ordinary rfl)

theorem obeys_storeElement {target value : Value} (index : Int32) (targeted : D.admits s target) (stored : D.admits s value) :
    Obeys D s (storeElement target index value) fun _ _ => True := by
  unfold storeElement
  cases target with
  | ref r =>
    show Obeys D s (compute (s.heap.get r) >>= _) _
    refine .compute L sound (lets_get L targeted) fun object found => ?_
    cases object with
    | array elements =>
      refine .compute L sound (lets_elementIndex L index _) fun place _ => .modifyObject L sound fun o there => ?_
      obtain rfl : .array elements = o := Option.some.inj ((get?_of_get found).symm.trans there)
      refine ⟨.elements (by simp), fun v member => ?_⟩
      have member : v ∈ elements.toList.set place value := by simpa [HeapObject.values] using member
      rcases List.mem_or_eq_of_mem_set member with old | rfl
      · exact L.held sound there v old
      · exact stored
    | _ => exact .fail L sound rfl
  | _ => exact .fail L sound rfl

theorem obeys_boxValue {value : Value} (boxed : D.admits s value) :
    Obeys D s (boxValue value) fun t v => D.admits t v := by
  cases value with
  | ref r => exact .pure L sound boxed
  | null => exact .pure L sound boxed
  | _ =>
    refine Obeys.bind L (.allocate L sound ?_) fun r t sound _ admits => .pure L sound admits
    simpa [HeapObject.values] using boxed

/-- An instruction keeps to a regime, and leaves values that may be in use. -/
theorem obeys_step {f : Frame} (admitted : f.Admitted D s) (i : Instruction) :
    Obeys D s (step m f i) fun t result => (∀ v ∈ result.1, D.admits t v) ∧ result.2.Admitted D t := by
  have pushes : ∀ {t : Machine} {v : Value} {rest : List Value}, D.sound t → D.admits t v → (∀ v ∈ rest, D.admits t v) →
      Obeys D t (pure (v :: rest, Effect.next)) fun t (result : List Value × Effect) =>
        (∀ v ∈ result.1, D.admits t v) ∧ result.2.Admitted D t :=
    fun sound top rest => .pure L sound ⟨List.forall_mem_cons.mpr ⟨top, rest⟩, trivial⟩
  have stack := admitted.stack
  have popped : ∀ {v : Value} {rest : List Value}, f.stack = v :: rest → D.admits s v ∧ ∀ w ∈ rest, D.admits s w :=
    fun same => List.forall_mem_cons.mp (same ▸ stack)
  have paired : ∀ {a b : Value} {rest : List Value}, f.stack = b :: a :: rest → ∀ w ∈ rest, D.admits s w :=
    fun same => (List.forall_mem_cons.mp (popped same).2).2
  cases action : i.opcode.action with
  | nothing =>
    simp only [step, action]
    exact .pure L sound ⟨stack, trivial⟩
  | loadArgument fixed =>
    simp only [step, action]
    refine obeys_require L sound _ _ fun index _ => .compute L sound (lets_argument L _ _) fun v loaded => pushes sound ?_ stack
    exact admitted.arguments v (Activation.mem_of_argument loaded)
  | loadLocal fixed =>
    simp only [step, action]
    refine obeys_require L sound _ _ fun index _ => .compute L sound (lets_slot L _ _) fun v loaded => pushes sound ?_ stack
    exact admitted.slots v (Frame.mem_of_slot loaded)
  | storeLocal fixed =>
    simp only [step, action]
    refine obeys_require L sound _ _ fun index _ => obeys_pop L sound _ fun v rest same => ?_
    exact .compute L sound (lets_checkSlot L _ _) fun _ _ => .pure L sound ⟨(popped same).2, (popped same).1⟩
  | pushNull =>
    simp only [step, action]
    exact pushes sound (L.plain rfl) stack
  | pushConstant value =>
    simp only [step, action]
    exact pushes sound (L.plain rfl) stack
  | pushInt32 =>
    simp only [step, action]
    exact obeys_require L sound _ _ fun _ _ => pushes sound (L.plain rfl) stack
  | pushInt64 =>
    simp only [step, action]
    exact obeys_require L sound _ _ fun _ _ => pushes sound (L.plain rfl) stack
  | pushReal =>
    simp only [step, action]
    exact obeys_require L sound _ _ fun _ _ => pushes sound (L.plain rfl) stack
  | pushText =>
    simp only [step, action]
    refine obeys_require L sound _ _ fun text _ => .bind L (.allocate L sound (by simp [HeapObject.values])) ?_
    exact fun r t sound becomes admits => pushes sound admits fun v member => L.mono becomes (stack v member)
  | duplicate =>
    simp only [step, action]
    refine obeys_pop L sound _ fun v rest same => pushes sound (popped same).1 ?_
    exact List.forall_mem_cons.mpr (popped same)
  | discard =>
    simp only [step, action]
    exact obeys_pop L sound _ fun v rest same => .pure L sound ⟨(popped same).2, trivial⟩
  | arithmetic operation =>
    simp only [step, action]
    refine obeys_popPair L sound _ fun a b rest same => .compute L sound (lets_onValues L _ a b) fun v calculated => ?_
    exact pushes sound (L.plain (Value.ref?_of_onValues calculated)) (paired same)
  | negate =>
    simp only [step, action]
    refine obeys_pop L sound _ fun v rest same => .compute L sound (lets_negateValue L v) fun w calculated => ?_
    exact pushes sound (L.plain (Value.ref?_of_negateValue calculated)) (popped same).2
  | compare relation =>
    simp only [step, action]
    refine obeys_popPair L sound _ fun a b rest same => .compute L sound (lets_compareValues L a b) fun order _ => ?_
    exact pushes sound (L.plain rfl) (paired same)
  | jump =>
    simp only [step, action]
    exact obeys_branchTarget L sound i fun _ => .pure L sound ⟨stack, trivial⟩
  | jumpWhen truth =>
    simp only [step, action]
    refine obeys_pop L sound _ fun v rest same => .compute L sound (lets_isTrue L v) fun truth _ => ?_
    split
    · exact obeys_branchTarget L sound i fun _ => .pure L sound ⟨(popped same).2, trivial⟩
    · exact .pure L sound ⟨(popped same).2, trivial⟩
  | jumpIf relation =>
    simp only [step, action]
    refine obeys_popPair L sound _ fun a b rest same => .compute L sound (lets_compareValues L a b) fun order _ => ?_
    split
    · exact obeys_branchTarget L sound i fun _ => .pure L sound ⟨paired same, trivial⟩
    · exact .pure L sound ⟨paired same, trivial⟩
  | leave =>
    simp only [step, action]
    exact obeys_branchTarget L sound i fun _ => .pure L sound ⟨stack, trivial⟩
  | exit =>
    simp only [step, action]
    split
    · exact obeys_pop L sound _ fun v rest same => .pure L sound ⟨(popped same).2, (popped same).1⟩
    · exact .pure L sound ⟨stack, L.plain rfl⟩
  | throw =>
    simp only [step, action]
    refine obeys_pop L sound _ fun v rest same => .compute L sound (lets_thrownException L v) fun x thrown => ?_
    refine .pure L sound ⟨(popped same).2, ?_⟩
    cases v with
    | ref r =>
      cases thrown
      exact (popped same).1
    | _ => cases thrown
  | rethrow =>
    simp only [step, action]
    split
    · rename_i clause rest innermost
      exact .pure L sound ⟨stack, admitted.active clause (innermost ▸ List.mem_cons_self)⟩
    · exact .fail L sound rfl
  | call dynamic =>
    simp only [step, action]
    refine obeys_requireToken L sound i fun target => .compute L sound (lets_callShape L target) fun shape _ => ?_
    refine obeys_popMany L sound _ _ ?_
    dsimp only
    split
    · exact .throw L sound (L.ordinary rfl)
    · exact .pure L sound ⟨fun v member => stack v (List.mem_of_mem_drop member),
        fun v member => stack v (List.mem_of_mem_take (List.mem_reverse.mp member))⟩
  | construct =>
    simp only [step, action]
    refine obeys_requireToken L sound i fun target => .compute L sound (lets_callShape L target) fun shape _ => ?_
    refine obeys_popMany L sound _ _ (.pure L sound ⟨fun v member => stack v (List.mem_of_mem_drop member), ?_⟩)
    exact fun v member => stack v (List.mem_of_mem_take (List.mem_reverse.mp member))
  | newArray =>
    simp only [step, action]
    refine obeys_pop L sound _ fun v rest same => .compute L sound (lets_arrayLength L v) fun length _ => ?_
    refine .bind L (.allocate L sound ?_) fun r t sound becomes admits =>
      pushes sound admits fun w member => L.mono becomes ((popped same).2 w member)
    intro w member
    obtain ⟨-, rfl⟩ : _ ∧ w = .null := by simpa [HeapObject.values] using member
    exact L.plain rfl
  | arrayLength =>
    simp only [step, action]
    refine obeys_pop L sound _ fun v rest same => ?_
    show Obeys D s (compute (s.heap.array v) >>= _) _
    refine .compute L sound (lets_array L (popped same).1) fun elements _ => .compute L sound (lets_lengthValue L _) fun w length => ?_
    refine pushes sound (L.plain ?_) (popped same).2
    unfold lengthValue at length
    split at length <;> cases length
    rfl
  | loadElement =>
    simp only [step, action]
    refine obeys_pop L sound _ fun v rest same => .compute L sound (lets_asInt32 L v) fun index _ => ?_
    refine obeys_pop L sound _ fun target rest' same' => ?_
    obtain rfl : rest = target :: rest' := same'
    show Obeys D s (compute (s.heap.array target) >>= _) _
    have below := List.forall_mem_cons.mp (popped same).2
    refine .compute L sound (lets_array L below.1) fun elements got => .compute L sound (lets_element L _ _) fun w loaded => ?_
    exact pushes sound (admits_of_array L sound got w (mem_of_element loaded)) below.2
  | storeElement =>
    simp only [step, action]
    refine obeys_pop L sound _ fun v rest same => obeys_pop L sound _ fun w rest' same' => ?_
    refine .compute L sound (lets_asInt32 L w) fun index _ => obeys_pop L sound _ fun target rest'' same'' => ?_
    obtain rfl : rest = w :: rest' := same'
    obtain rfl : rest' = target :: rest'' := same''
    have below := List.forall_mem_cons.mp (List.forall_mem_cons.mp (popped same).2).2
    refine .bind L (obeys_storeElement L sound index below.1 (popped same).1) fun _ t sound becomes _ => ?_
    exact .pure L sound ⟨fun u member => L.mono becomes (below.2 u member), trivial⟩
  | box =>
    simp only [step, action]
    refine obeys_pop L sound _ fun v rest same => .bind L (obeys_boxValue L sound (popped same).1) ?_
    exact fun w t sound becomes admits => pushes sound admits fun u member => L.mono becomes ((popped same).2 u member)
  | unbox =>
    simp only [step, action]
    refine obeys_pop L sound _ fun v rest same => ?_
    show Obeys D s (compute (unboxValue s.heap v) >>= _) _
    refine .compute L sound (lets_unboxValue L (popped same).1) fun w unboxed => ?_
    exact pushes sound (admits_of_unboxValue L sound (popped same).1 unboxed) (popped same).2
  | cast =>
    simp only [step, action]
    refine obeys_pop L sound _ fun v rest same => ?_
    have pushed := pushes sound (popped same).1 (popped same).2
    cases v with
    | ref r =>
      show Obeys D s (i.requireToken >>= fun type => compute (checkCast m s.heap r type) >>= _) _
      exact obeys_requireToken L sound i fun type => .compute L sound (lets_checkCast L (popped same).1 type) fun _ _ => pushed
    | _ => exact pushed
  | loadToken =>
    simp only [step, action]
    refine obeys_require L sound _ _ fun v made => pushes sound (L.plain ?_) stack
    unfold Instruction.handleValue? at made
    split at made <;> cases made <;> rfl
  | unsupported =>
    simp only [step, action]
    exact .throw L sound (L.ordinary rfl)

end Instructions

end AspectWeaving

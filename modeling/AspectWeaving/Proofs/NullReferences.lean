import AspectWeaving.Proofs.Turns
import AspectWeaving.StandardLibrary

/-!
Null references. An instruction looks up objects by values of its operands, and so does a method of the library that it calls
(`Program.LooksUp`). What it says of a value that is no reference depends on the place (`LookupKind.refusal`). Where a lookup is strict, null
is a null reference, which the program sees as an exception, and any other value is of the wrong type, which ends the run. Two places are
lax: storing into an array, and the initialization of a library type, take for null whatever is no reference.
-/
namespace AspectWeaving

open Running (compute fail allocate modifyObject note callHost)

/-! ### Computations on values -/

section Computations

variable {α β : Type}

theorem bind_ne {x : Except ExecutionFault α} {f : α → Except ExecutionFault β} (first : x ≠ .error .nullReference)
    (second : ∀ a, f a ≠ .error .nullReference) : x >>= f ≠ .error .nullReference := by
  cases x with
  | ok a => exact second a
  | error cause =>
    intro failed
    cases failed
    exact first rfl

theorem map_ne {x : Except ExecutionFault α} {f : α → β} (first : x ≠ .error .nullReference) : x.map f ≠ .error .nullReference := by
  cases x with
  | ok a => nofun
  | error cause =>
    intro failed
    cases failed
    exact first rfl

@[simp] theorem argument_ne (a : Activation) (index : Nat) : a.argument index ≠ .error .nullReference := by
  unfold Activation.argument
  split <;> nofun

@[simp] theorem slot_ne (f : Frame) (index : Nat) : f.slot index ≠ .error .nullReference := by
  unfold Frame.slot
  split <;> nofun

@[simp] theorem checkSlot_ne (f : Frame) (index : Nat) : f.checkSlot index ≠ .error .nullReference := by
  unfold Frame.checkSlot
  split <;> nofun

@[simp] theorem asInt32_ne (v : Value) : v.asInt32 ≠ .error .nullReference := by
  cases v <;> nofun

@[simp] theorem isTrue_ne (v : Value) : v.isTrue ≠ .error .nullReference := by
  cases v <;> nofun

@[simp] theorem onValues_ne (operation : Arithmetic) (a b : Value) : operation.onValues a b ≠ .error .nullReference := by
  unfold Arithmetic.onValues
  split
  · refine map_ne ?_
    cases operation <;> dsimp only [Arithmetic.onInt32] <;> (try split) <;> nofun
  · refine map_ne ?_
    cases operation <;> dsimp only [Arithmetic.onInt64] <;> (try split) <;> nofun
  · nofun
  · nofun

@[simp] theorem negateValue_ne (v : Value) : negateValue v ≠ .error .nullReference := by
  cases v <;> nofun

@[simp] theorem compareValues_ne (a b : Value) : compareValues a b ≠ .error .nullReference := by
  unfold compareValues
  split <;> nofun

@[simp] theorem arrayLength_ne (v : Value) : arrayLength v ≠ .error .nullReference := by
  refine bind_ne (asInt32_ne v) fun length => ?_
  split <;> nofun

@[simp] theorem lengthValue_ne (length : Nat) : lengthValue length ≠ .error .nullReference := by
  unfold lengthValue
  split <;> nofun

@[simp] theorem elementIndex_ne (index : Int32) (length : Nat) : Heap.elementIndex index length ≠ .error .nullReference := by
  unfold Heap.elementIndex
  split <;> nofun

@[simp] theorem element_ne (elements : Array Value) (index : Int32) : Heap.element elements index ≠ .error .nullReference :=
  bind_ne (elementIndex_ne index elements.size) nofun

@[simp] theorem callShape_ne (m : Module) (token : Token) : m.callShape token ≠ .error .nullReference := by
  unfold Module.callShape
  dsimp only
  split <;> nofun

theorem get_ne (h : Heap) (r : HeapRef) : h.get r ≠ .error .nullReference := by
  unfold Heap.get
  split <;> nofun

theorem naming_ne (m : Module) (token : Token) : m.naming token ≠ .error .nullReference := by
  unfold Module.naming
  split <;> nofun

theorem memberName_ne (m : Module) (object : HeapObject) : memberName m object ≠ .error .nullReference := by
  cases object with
  | method token => exact map_ne (callShape_ne m token)
  | type token => exact map_ne (naming_ne m token)
  | _ => nofun

theorem describedType_ne (h : Heap) (v : Option Value) : describedType h v ≠ .error .nullReference := by
  match v with
  | none | some .null => nofun
  | some (.ref r) => exact bind_ne (get_ne h r) fun object => by split <;> nofun
  | some (.void) | some (.int32 _) | some (.int64 _) | some (.real _) | some (.methodHandle _) | some (.typeHandle _) => nofun

theorem selectAttributes_ne (m : Module) (method : Token) (type : Option Token) :
    selectAttributes m method type ≠ .error .nullReference := by
  unfold selectAttributes
  split
  · split
    · nofun
    · exact bind_ne (naming_ne m _) nofun
  · nofun

theorem messageArgument_ne (h : Heap) (v : Option Value) : messageArgument h v ≠ .error .nullReference := by
  match v with
  | none | some .null => nofun
  | some (.ref r) => exact map_ne (bind_ne (get_ne h r) fun object => by split <;> nofun)
  | some (.void) | some (.int32 _) | some (.int64 _) | some (.real _) | some (.methodHandle _) | some (.typeHandle _) => nofun

theorem dispatch_ne (m : Module) (h : Heap) (target : Token) (this? : Option Value) :
    dispatch m h target this? ≠ .error .nullReference := by
  unfold dispatch
  split
  · refine bind_ne (get_ne h _) fun object => ?_
    split
    · exact bind_ne (callShape_ne m target) nofun
    · nofun
  · nofun

@[simp] theorem checkCast_ne (m : Module) (h : Heap) (r : HeapRef) (type : Token) : checkCast m h r type ≠ .error .nullReference := by
  refine bind_ne (get_ne h r) fun object => bind_ne ?_ fun holds => ?_
  · refine bind_ne (naming_ne m type) fun name? => ?_
    split
    · nofun
    · exact map_ne (get_ne h r)
  · split <;> nofun

end Computations

/-! ### Computations that spare -/

/-- A computation reports a null reference only for a reason. -/
def Running.Spares {α : Type} (s : Machine) (reason : Prop) (x : Running α) : Prop :=
  ∀ t, x s = .error (.execution .nullReference) t → reason

namespace Running.Spares

variable {α β : Type} {s : Machine} {reason : Prop} {x : Running α} {f : α → Running β}

theorem pure {a : α} : Spares s reason (pure a) := by
  intro t failed
  cases failed

theorem throw {fault : Fault} (other : fault ≠ .execution .nullReference) : Spares s reason (throw fault : Running α) := by
  intro t failed
  cases failed
  exact absurd rfl other

theorem fail {cause : ExecutionFault} (other : cause = .nullReference → reason) : Spares s reason (fail cause : Running α) := by
  intro t failed
  cases failed
  exact other rfl

theorem bind (first : Spares s reason x) (second : ∀ a t, Spares t reason (f a)) : Spares s reason (x >>= f) := by
  intro u failed
  change EStateM.bind x f s = _ at failed
  unfold EStateM.bind at failed
  cases start : x s with
  | ok a t =>
    rw [start] at failed
    exact second a t u failed
  | error fault t =>
    rw [start] at failed
    cases failed
    exact first u start

theorem heap {g : Heap → Running β} (next : Spares s reason (g s.heap)) : Spares s reason (Running.heap >>= g) := next

theorem compute {e : Except ExecutionFault α} (other : e = .error .nullReference → reason)
    (next : ∀ a, e = .ok a → Spares s reason (f a)) : Spares s reason (compute e >>= f) := by
  cases e with
  | ok a => exact next a rfl
  | error cause =>
    intro t failed
    cases failed
    exact other rfl

theorem allocate {o : HeapObject} : Spares s reason (allocate o) := by
  intro t failed
  cases failed

theorem modifyObject {r : HeapRef} {g : HeapObject → HeapObject} : Spares s reason (modifyObject r g) := by
  intro t failed
  cases failed

theorem note {event : TraceEvent} : Spares s reason (note event) := by
  intro t failed
  cases failed

theorem imp {reason' : Prop} (spares : Spares s reason x) (weaker : reason → reason') : Spares s reason' x :=
  fun t failed => weaker (spares t failed)

end Running.Spares

open Running (Spares)

/-! ### Calls -/

/-- A host method reports a null reference. -/
def Program.HostReportsNull (p : Program) : Prop :=
  ∃ host ∈ p.hostMethods, ∃ arguments heap heap', host.2 arguments heap = .error (.execution .nullReference) heap'

section Calls

variable {p : Program} {depth : Nat} {s : Machine} {reason : Prop}

theorem spares_callHost {host : Token × HostMethod} (among : host ∈ p.hostMethods) (arguments : List Value) :
    Spares s p.HostReportsNull (callHost host arguments) := by
  intro t failed
  unfold callHost at failed
  cases called : host.2 arguments s.heap with
  | ok outcome heap =>
    rw [called] at failed
    cases failed
  | error fault heap =>
    rw [called] at failed
    cases failed
    exact ⟨host, among, arguments, _, heap, called⟩

theorem spares_andThen {progress : Progress} {next : Pending} {finish : Value → Running Progress}
    (rest : ∀ v, Spares s reason (finish v)) : Spares s reason (progress.andThen next finish) := by
  cases progress with
  | done outcome =>
    cases outcome with
    | returned value => exact rest value
    | threw x => exact .pure
  | enter frame => exact .pure

theorem spares_enterBody (d : MethodDef) (body : Body) (arguments : List Value) : Spares s reason (enterBody p depth d body arguments) := by
  unfold enterBody
  dsimp only
  split
  · split
    · refine .bind .note fun _ _ => ?_
      split
      · exact .fail nofun
      · exact .pure
    · exact .fail nofun
  · exact .fail nofun

theorem spares_callDefinition (token : Token) (arguments : List Value) :
    Spares s p.HostReportsNull (callDefinition p depth token arguments) := by
  unfold callDefinition
  split
  · rename_i host found
    exact .bind (spares_callHost (List.mem_of_find?_eq_some found) arguments) fun _ _ => .pure
  · split
    · exact .fail nofun
    · split
      · exact .fail nofun
      · exact spares_enterBody _ _ _

theorem spares_constructDefinition (token : Token) (arguments : List Value) :
    Spares s p.HostReportsNull (constructDefinition p depth token arguments) := by
  unfold constructDefinition
  split
  · exact .fail nofun
  · refine .bind .allocate fun object _ => .bind (spares_callDefinition token _) fun call _ => ?_
    exact spares_andThen fun _ => .pure

theorem spares_toValue (argument : AttributeArgument) : Spares s reason argument.toValue := by
  cases argument with
  | string value => exact .bind .allocate fun _ _ => .pure
  | _ => exact .pure

theorem spares_mapM_toValue (arguments : List AttributeArgument) : Spares s reason (arguments.mapM (·.toValue)) := by
  induction arguments generalizing s with
  | nil => exact .pure
  | cons a rest ih =>
    rw [List.mapM_cons]
    exact .bind (spares_toValue a) fun _ _ => .bind ih fun _ _ => .pure

theorem spares_instantiate (a : Attribute) : Spares s p.HostReportsNull (instantiate p depth a) := by
  unfold instantiate
  refine .bind (spares_mapM_toValue _) fun arguments _ => ?_
  dsimp only
  split
  · exact spares_constructDefinition _ _
  · split
    · exact .bind .allocate fun _ _ => .pure
    · exact .compute (fun failed => absurd failed (naming_ne _ _)) fun _ _ => .throw nofun

theorem spares_collect (objects : Array Value) (attributes : List Attribute) :
    Spares s p.HostReportsNull (collect p depth objects attributes) := by
  induction attributes generalizing s objects with
  | nil => exact .bind .allocate fun _ _ => .pure
  | cons a rest ih => exact .bind (spares_instantiate a) fun _ _ => spares_andThen fun object => ih _

theorem spares_complete (pending : List Pending) (outcome : Outcome) :
    Spares s p.HostReportsNull (complete p depth pending outcome) := by
  induction pending generalizing s outcome with
  | nil => exact .pure
  | cons next rest ih =>
    cases outcome with
    | threw x => exact .pure
    | returned value =>
      cases next with
      | construct object => exact ih _
      | collect objects attributes =>
        refine .bind (spares_collect _ attributes) fun progress t => ?_
        cases progress with
        | done outcome => exact ih outcome
        | enter frame => exact .pure

end Calls

/-! ### Lookups -/

/-- How a place treats values that are no reference to an object. -/
inductive LookupKind where
  /-- Null is a null reference, any other value is of the wrong type. -/
  | strict
  /-- There need not be an object, so null is fine, and any other value is of the wrong type. -/
  | optional
  /-- Any value is a null reference. -/
  | lax
  /-- Null is a null reference, and any other value goes on to be an argument. -/
  | receiver
  deriving DecidableEq

/-- The fault of a value that a lookup refuses. -/
def LookupKind.refusal : LookupKind → Value → Option ExecutionFault
  | _, .ref _ => none
  | .optional, .null => none
  | _, .null => some .nullReference
  | .lax, _ => some .nullReference
  | .receiver, _ => none
  | .strict, v | .optional, v => some (v.mismatch "object")

namespace LookupKind

variable {lookup : LookupKind} {v : Value} {cause : ExecutionFault}

theorem refusal_eq_nullReference_iff :
    lookup.refusal v = some .nullReference ↔ v = .null ∧ lookup ≠ .optional ∨ lookup = .lax ∧ v.ref? = none := by
  cases lookup <;> cases v <;> simp [refusal, Value.mismatch, Value.ref?]

theorem refusal_of_mismatch (careful : lookup = .strict ∨ lookup = .optional) (none : v.ref? = none) (other : v ≠ .null) :
    lookup.refusal v = some (v.mismatch "object") := by
  rcases careful with rfl | rfl <;> cases v <;> simp_all [refusal, Value.ref?]

end LookupKind

section Objects

variable {h : Heap} {v : Value} {cause : ExecutionFault}

theorem Heap.object_of_refused (refused : LookupKind.strict.refusal v = some cause) : h.object v = .error cause := by
  cases v <;> simp_all [LookupKind.refusal, Heap.object]

theorem Heap.refused_of_object (missing : h.object v = .error .nullReference) : LookupKind.strict.refusal v = some .nullReference := by
  cases v with
  | ref r => cases found : h.get? r <;> simp [Heap.object, Heap.get, found] at missing
  | null => rfl
  | _ => simp [Heap.object, Value.mismatch] at missing

end Objects

/-! ### Methods of the library -/

/-- A method of the library looks up the object of an argument. A constructor reads its message before it looks up the object. -/
inductive LibraryLooksUp (h : Heap) : String → List Value → Value → LookupKind → Prop
  | reader {name : String} {this : Value} {rest : List Value} (reads : name ∈ ["GetCustomAttributes", "get_Name", "get_Message"]) :
      LibraryLooksUp h name (this :: rest) this .strict
  | filter {this type : Value} {rest : List Value} {method : Token} (described : h.object this = .ok (.method method)) :
      LibraryLooksUp h "GetCustomAttributes" (this :: type :: rest) type .optional
  | message {this message : Value} {rest : List Value} : LibraryLooksUp h ".ctor" (this :: message :: rest) message .optional
  | initialized {this : Value} {rest : List Value} {message : Option String} (read : messageArgument h rest.head? = .ok message) :
      LibraryLooksUp h ".ctor" (this :: rest) this .lax

section Library

variable {p : Program} {depth : Nat} {token : Token} {row : MemberRef} {arguments : List Value} {s t : Machine}

theorem spares_thisObject {α : Type} {reason : Prop} {f : HeapObject → Running α}
    (refused : ∀ this rest, arguments = this :: rest → LookupKind.strict.refusal this = some .nullReference → reason)
    (next : ∀ this rest object, arguments = this :: rest → s.heap.object this = .ok object → Spares s reason (f object)) :
    Spares s reason (compute (thisObject s.heap arguments) >>= f) := by
  cases arguments with
  | nil => exact .compute nofun nofun
  | cons this rest =>
    exact .compute (fun missing => refused this rest rfl (Heap.refused_of_object missing)) fun object found => next this rest object rfl found

theorem spares_initializeLibrary :
    Spares s (∃ v lookup, LibraryLooksUp s.heap ".ctor" arguments v lookup ∧ lookup.refusal v = some .nullReference)
      (initializeLibrary arguments) := by
  unfold initializeLibrary
  cases arguments with
  | nil => exact .compute nofun nofun
  | cons this rest =>
    refine .compute nofun fun a same => ?_
    cases same
    refine .heap (.compute (fun failed => absurd failed (messageArgument_ne _ _)) fun message read => ?_)
    cases reference : this.ref? with
    | some r => exact .heap (.compute (fun failed => absurd failed (get_ne _ _)) fun _ _ => .bind .modifyObject fun _ _ => .pure)
    | none =>
      have read : messageArgument s.heap rest.head? = .ok message := by rwa [List.head?_eq_getElem?]
      exact .fail fun _ => ⟨this, .lax, .initialized read, LookupKind.refusal_eq_nullReference_iff.mpr (.inr ⟨rfl, reference⟩)⟩

/-- A method of the library reports a null reference only of a value that it looks up, unless a host method does. -/
theorem spares_callLibrary (found : p.module.imports.getMemberRef? token = some row) :
    Spares s (p.HostReportsNull ∨ ∃ v lookup, LibraryLooksUp s.heap row.name arguments v lookup ∧ lookup.refusal v = some .nullReference)
      (callLibrary p depth token arguments) := by
  have reader : row.name ∈ ["GetCustomAttributes", "get_Name", "get_Message"] → ∀ this rest, arguments = this :: rest →
      LookupKind.strict.refusal this = some .nullReference →
        p.HostReportsNull ∨ ∃ v lookup, LibraryLooksUp s.heap row.name arguments v lookup ∧ lookup.refusal v = some .nullReference := by
    rintro reads this rest rfl refused
    exact .inr ⟨this, .strict, .reader reads, refused⟩
  unfold callLibrary
  rw [found]
  dsimp only
  split <;> rename_i name
  · split
    · exact .bind .allocate fun _ _ => .pure
    · exact .fail nofun
  · split
    · exact .bind .allocate fun _ _ => .pure
    · exact .fail nofun
  · refine .heap (spares_thisObject (reader (by simp [name])) fun this rest object arguments found => ?_)
    refine .compute ?_ fun method described => .heap (.compute (fun failed => absurd failed (describedType_ne _ _)) fun type asked => ?_)
    · cases object <;> nofun
    · exact .compute (fun failed => absurd failed (selectAttributes_ne _ _ _)) fun _ _ => (spares_collect _ _).imp .inl
  · refine .heap (spares_thisObject (reader (by simp [name])) fun this rest object arguments found => ?_)
    refine .compute ?_ fun text named => .bind .allocate fun _ _ => .pure
    exact fun failed => absurd failed (memberName_ne _ _)
  · refine .heap (spares_thisObject (reader (by simp [name])) fun this rest object arguments found => ?_)
    refine .compute ?_ fun message read => ?_
    · cases object <;> nofun
    · split
      · exact .bind .allocate fun _ _ => .pure
      · exact .pure
  · rw [name]
    exact spares_initializeLibrary.imp .inr
  · exact .fail nofun

theorem describedType_of_refused {h : Heap} {v : Value} {cause : ExecutionFault} (refused : LookupKind.optional.refusal v = some cause) :
    describedType h (some v) = .error cause := by
  cases v <;> cases refused <;> rfl

theorem messageArgument_of_refused {h : Heap} {v : Value} {cause : ExecutionFault} (refused : LookupKind.optional.refusal v = some cause) :
    messageArgument h (some v) = .error cause := by
  cases v <;> cases refused <;> rfl

/-- A value that a method of the library looks up and refuses makes it fail. -/
theorem callLibrary_of_refused {v : Value} {lookup : LookupKind} {cause : ExecutionFault}
    (found : p.module.imports.getMemberRef? token = some row) (looks : LibraryLooksUp s.heap row.name arguments v lookup)
    (refused : lookup.refusal v = some cause) : callLibrary p depth token arguments s = .error (.execution cause) s := by
  unfold callLibrary
  rw [found]
  dsimp only
  generalize row.name = name at looks
  cases looks with
  | reader reads =>
    have missing := Heap.object_of_refused (h := s.heap) refused
    simp only [List.mem_cons, List.not_mem_nil, or_false] at reads
    rcases reads with rfl | rfl | rfl <;> exact Running.compute_bind_of_error missing
  | filter described =>
    refine (Running.compute_bind_of_ok described).trans ((Running.compute_bind_of_ok rfl).trans ?_)
    exact Running.compute_bind_of_error (describedType_of_refused refused)
  | message =>
    refine (Running.compute_bind_of_ok rfl).trans ?_
    exact Running.compute_bind_of_error (messageArgument_of_refused refused)
  | @initialized _ rest message read =>
    obtain ⟨none, rfl⟩ : v.ref? = none ∧ cause = .nullReference := by
      cases v <;> cases refused <;> exact ⟨rfl, rfl⟩
    rw [List.head?_eq_getElem?] at read
    refine (Running.compute_bind_of_ok rfl).trans ((Running.compute_bind_of_ok read).trans ?_)
    rw [none]
    rfl

end Library

/-- A call comes to the method of the library that stands in a row of the import table. -/
structure Program.CallsLibrary (p : Program) (h : Heap) (target : Token) (arguments : List Value) (dynamic : Bool) (row : MemberRef) where
  token : Token
  resolves : if dynamic then dispatch p.module h target arguments.head? = .ok token else token = target
  free : (p.hostMethod? token <|> p.hostMethod? target) = none
  table : token.table = Token.memberRef
  found : p.module.imports.getMemberRef? token = some row

/-- The objects that a call has a method of the library look up. -/
inductive Program.CallLooksUp (p : Program) (h : Heap) (target : Token) (arguments : List Value) (dynamic : Bool) (v : Value)
    (lookup : LookupKind) : Prop
  | intro {row : MemberRef} (calls : p.CallsLibrary h target arguments dynamic row) (looks : LibraryLooksUp h row.name arguments v lookup)

section Construction

variable {p : Program} {depth : Nat} {target : Token} {arguments : List Value} {dynamic : Bool} {s : Machine}

/-- A call reports a null reference only of a value that a method of the library looks up, unless a host method does. -/
theorem spares_call (target : Token) (arguments : List Value) (dynamic : Bool) :
    Spares s (p.HostReportsNull ∨ ∃ v lookup, p.CallLooksUp s.heap target arguments dynamic v lookup ∧
      lookup.refusal v = some .nullReference) (call p depth target arguments dynamic) := by
  unfold call
  extract_lets onward
  have resolves : ∀ token, (if dynamic then dispatch p.module s.heap target arguments.head? = .ok token else token = target) →
      Spares s (p.HostReportsNull ∨ ∃ v lookup, p.CallLooksUp s.heap target arguments dynamic v lookup ∧
        lookup.refusal v = some .nullReference) (onward token) := by
    intro token resolved
    dsimp only [onward]
    split
    · rename_i host found
      exact .bind ((spares_callHost (p.mem_of_hostMethod?_or found) arguments).imp .inl) fun _ _ => .pure
    · rename_i free
      split
      · exact (spares_callDefinition token arguments).imp .inl
      · split
        · rename_i table
          cases found : p.module.imports.getMemberRef? token with
          | none =>
            unfold callLibrary
            rw [found]
            exact .fail nofun
          | some row =>
            refine (spares_callLibrary found).imp ?_
            rintro (host | ⟨v, lookup, looks, refused⟩)
            · exact .inl host
            · exact .inr ⟨v, lookup, ⟨⟨token, resolved, free, table, found⟩, looks⟩, refused⟩
        · exact .fail nofun
  cases dynamic with
  | false => exact resolves target rfl
  | true => exact .heap (.compute (fun failed => absurd failed (dispatch_ne _ _ _ _)) fun token resolved => resolves token resolved)

/-- A value that a method of the library refuses makes the call fail. -/
theorem call_of_refused {v : Value} {lookup : LookupKind} {cause : ExecutionFault}
    (looks : p.CallLooksUp s.heap target arguments dynamic v lookup) (refused : lookup.refusal v = some cause) :
    call p depth target arguments dynamic s = .error (.execution cause) s := by
  obtain ⟨⟨token, resolved, free, table, found⟩, looks⟩ := looks
  have other : ¬ token.table = Token.methodDef := by rw [table]; decide
  have failed : callLibrary p depth token arguments s = .error (.execution cause) s := callLibrary_of_refused found looks refused
  unfold call
  cases dynamic with
  | false =>
    cases resolved
    simp only [Bool.false_eq_true, if_false, pure_bind, free, if_neg other, if_pos table, failed]
  | true =>
    refine (Running.compute_bind_of_ok resolved).trans ?_
    simp only [free, if_neg other, if_pos table, failed]

theorem LibraryLooksUp.not_receiver {h : Heap} {name : String} {v : Value} : ¬ LibraryLooksUp h name arguments v .receiver := nofun

/-- What is looked up for a call on an object is no null reference. -/
theorem LibraryLooksUp.refusal_ne {h : Heap} {name : String} {r : HeapRef} {rest : List Value} {v : Value} {lookup : LookupKind}
    (looks : LibraryLooksUp h name (.ref r :: rest) v lookup) : lookup.refusal v ≠ some .nullReference := by
  intro refused
  cases looks with
  | reader reads => cases refused
  | initialized read => cases refused
  | filter described => cases v <;> cases refused
  | message => cases v <;> cases refused

theorem spares_construct (target : Token) (arguments : List Value) : Spares s p.HostReportsNull (construct p depth target arguments) := by
  unfold construct
  split
  · exact spares_constructDefinition target arguments
  · split
    · unfold constructException
      split
      · exact .fail nofun
      · refine .compute (fun failed => absurd failed (naming_ne _ _)) fun typeName _ => ?_
        split
        · split
          · refine .bind .allocate fun object t => .bind ((spares_call target _ false).imp ?_) fun call _ => spares_andThen fun _ => .pure
            rintro (host | ⟨v, lookup, ⟨calls, looks⟩, refused⟩)
            · exact host
            · exact absurd refused looks.refusal_ne
          · exact .throw nofun
        · exact .fail nofun
    · exact .fail nofun

end Construction

/-! ### Instructions -/

/-- An instruction looks up the object of a value of its operands. -/
inductive Instruction.LooksUp (m : Module) (f : Frame) (i : Instruction) : Value → LookupKind → Prop
  | top {v : Value} {rest : List Value} (reads : i.opcode.action ∈ [.throw, .arrayLength, .unbox]) (stack : f.stack = v :: rest) :
      i.LooksUp m f v .strict
  | loaded {v : Value} {index : Int32} {rest : List Value} (loads : i.opcode.action = .loadElement)
      (stack : f.stack = .int32 index :: v :: rest) : i.LooksUp m f v .strict
  | stored {v value : Value} {index : Int32} {rest : List Value} (stores : i.opcode.action = .storeElement)
      (stack : f.stack = value :: .int32 index :: v :: rest) : i.LooksUp m f v .lax
  | receiver {v : Value} {target : Token} {shape : CallShape} (calls : i.opcode.action = .call true) (named : i.token? = some target)
      (shaped : m.callShape target = .ok shape) (enough : shape.argumentCount ≤ f.stack.length)
      (first : (f.stack.take shape.argumentCount).reverse.head? = some v) : i.LooksUp m f v .receiver

section Steps

variable {m : Module} {f : Frame} {i : Instruction} {s : Machine} {reason : Prop} {α : Type}

theorem spares_pop {stack : List Value} {k : Value × List Value → Running α}
    (next : ∀ value rest, stack = value :: rest → Spares s reason (k (value, rest))) : Spares s reason (pop stack >>= k) := by
  cases stack with
  | nil => nofun
  | cons value rest => exact next value rest rfl

theorem spares_popPair {stack : List Value} {k : Value × Value × List Value → Running α}
    (next : ∀ a b rest, stack = b :: a :: rest → Spares s reason (k (a, b, rest))) : Spares s reason (popPair stack >>= k) := by
  match stack with
  | [] | [_] => nofun
  | b :: a :: rest => exact next a b rest rfl

theorem spares_popMany {count : Nat} {stack : List Value} {k : List Value × List Value → Running α}
    (next : count ≤ stack.length → Spares s reason (k ((stack.take count).reverse, stack.drop count))) :
    Spares s reason (popMany count stack >>= k) := by
  unfold popMany
  split
  · rename_i enough
    exact next enough
  · nofun

theorem spares_require {β : Type} {operand : MissingOperand} {a? : Option β} {k : β → Running α}
    (next : ∀ a, Spares s reason (k a)) : Spares s reason (Instruction.require operand a? >>= k) := by
  cases a? with
  | none => nofun
  | some a => exact next a

theorem spares_requireToken {k : Token → Running α} (next : ∀ token, i.token? = some token → Spares s reason (k token)) :
    Spares s reason (i.requireToken >>= k) := by
  unfold Instruction.requireToken
  split
  · rename_i token named
    exact next token named
  · nofun

theorem spares_branchTarget {k : Handle → Running α} (next : ∀ target, Spares s reason (k target)) :
    Spares s reason (i.branchTarget >>= k) := by
  unfold Instruction.branchTarget
  split
  · exact next _
  · nofun

theorem spares_boxValue {value : Value} {k : Value → Running α} (next : ∀ boxed t, Spares t reason (k boxed)) :
    Spares s reason (boxValue value >>= k) := by
  refine .bind ?_ next
  cases value <;> exact .pure

theorem spares_storeElement {target value : Value} {index : Int32} {k : Unit → Running α}
    (refused : LookupKind.lax.refusal target = some .nullReference → reason) (next : ∀ t, Spares t reason (k ())) :
    Spares s reason (storeElement target index value >>= k) := by
  refine .bind ?_ fun _ => next
  unfold storeElement
  split
  · refine .heap (.compute (fun failed => absurd failed (get_ne _ _)) fun object found => ?_)
    split
    · exact .compute (fun failed => absurd failed (elementIndex_ne _ _)) fun place inside => .modifyObject
    · exact .fail nofun
  · rename_i none
    refine .fail fun _ => refused (LookupKind.refusal_eq_nullReference_iff.mpr (.inr ⟨rfl, ?_⟩))
    cases target <;> first | rfl | exact absurd rfl (none _)

theorem refused_of_thrownException {v : Value} (missing : thrownException v = .error .nullReference) :
    LookupKind.strict.refusal v = some .nullReference := by
  cases v <;> first | rfl | cases missing

theorem refused_of_array {h : Heap} {v : Value} (missing : h.array v = .error .nullReference) :
    LookupKind.strict.refusal v = some .nullReference := by
  by_contra accepted
  refine bind_ne (fun failed => accepted (Heap.refused_of_object failed)) (fun object => ?_) missing
  split <;> nofun

theorem refused_of_unboxValue {h : Heap} {v : Value} (missing : unboxValue h v = .error .nullReference) :
    LookupKind.strict.refusal v = some .nullReference := by
  by_contra accepted
  refine bind_ne (fun failed => accepted (Heap.refused_of_object failed)) (fun object => ?_) missing
  split <;> nofun

theorem eq_int32_of_asInt32 {v : Value} {index : Int32} (number : v.asInt32 = .ok index) : v = .int32 index := by
  cases v <;> cases number
  rfl

/-- An instruction reports a null reference only of a value that it looks up. -/
theorem spares_step : Spares s (∃ v lookup, i.LooksUp m f v lookup ∧ lookup.refusal v = some .nullReference) (step m f i) := by
  cases operation : i.opcode.action with
  | throw =>
    simp only [step, operation]
    refine spares_pop fun value rest stack => .compute (fun failed => ?_) fun _ _ => .pure
    exact ⟨value, .strict, .top (by simp [operation]) stack, refused_of_thrownException failed⟩
  | call dynamic =>
    simp only [step, operation]
    refine spares_requireToken fun target named => .compute (fun failed => absurd failed (callShape_ne _ _)) fun shape shaped => ?_
    refine spares_popMany fun enough => ?_
    dsimp only
    split
    · rename_i null
      obtain ⟨rfl, first⟩ : dynamic = true ∧ (f.stack.take shape.argumentCount).reverse.head? = some .null := by
        cases first : (f.stack.take shape.argumentCount).reverse.head? with
        | none => simp [first] at null
        | some v => cases v <;> simp [first, Value.isNull] at null ⊢; exact null
      exact fun _ _ => ⟨.null, .receiver, .receiver operation named shaped enough first, rfl⟩
    · exact .pure
  | arrayLength =>
    simp only [step, operation]
    refine spares_pop fun value rest stack => .heap (.compute (fun failed => ?_) fun _ _ => ?_)
    · exact ⟨value, .strict, .top (by simp [operation]) stack, refused_of_array failed⟩
    · exact .compute (fun failed => absurd failed (lengthValue_ne _)) fun _ _ => .pure
  | loadElement =>
    simp only [step, operation]
    refine spares_pop fun number rest top => .compute (fun failed => absurd failed (asInt32_ne _)) fun index read => ?_
    refine spares_pop fun value rest stack => .heap (.compute (fun failed => ?_) fun _ _ => ?_)
    · cases eq_int32_of_asInt32 read
      cases stack
      exact ⟨value, .strict, .loaded operation top, refused_of_array failed⟩
    · exact .compute (fun failed => absurd failed (element_ne _ _)) fun _ _ => .pure
  | storeElement =>
    simp only [step, operation]
    refine spares_pop fun stored rest top => spares_pop fun number rest second => ?_
    refine .compute (fun failed => absurd failed (asInt32_ne _)) fun index read => ?_
    refine spares_pop fun value rest stack => spares_storeElement (fun refused => ?_) fun _ => .pure
    cases eq_int32_of_asInt32 read
    cases second
    cases stack
    exact ⟨value, .lax, .stored operation top, refused⟩
  | unbox =>
    simp only [step, operation]
    refine spares_pop fun value rest stack => .heap (.compute (fun failed => ?_) fun _ _ => .pure)
    exact ⟨value, .strict, .top (by simp [operation]) stack, refused_of_unboxValue failed⟩
  -- The other instructions look nothing up.
  | _ =>
    simp only [step, operation]
    repeat' first
      | exact .pure
      | exact .throw (by simp)
      | refine spares_pop fun value rest stack => ?_
      | refine spares_popPair fun a b rest stack => ?_
      | refine spares_popMany fun enough => ?_
      | refine spares_require fun operand => ?_
      | refine spares_requireToken fun token named => ?_
      | refine spares_branchTarget fun target => ?_
      | refine spares_boxValue fun boxed t => ?_
      | refine .heap ?_
      | refine .bind .allocate fun _ _ => ?_
      | refine .compute (fun failed => absurd failed (by simp)) fun a done => ?_
      | split

/-- A value that an instruction looks up and refuses makes it fail. -/
theorem step_of_refused {v : Value} {lookup : LookupKind} {cause : ExecutionFault} (looks : i.LooksUp m f v lookup)
    (refused : lookup.refusal v = some cause) : step m f i s = .error (.execution cause) s := by
  cases looks with
  | top reads stack =>
    have missing := Heap.object_of_refused (h := s.heap) refused
    simp only [List.mem_cons, List.not_mem_nil, or_false] at reads
    rcases reads with operation | operation | operation
    · have thrown : thrownException v = .error cause := by cases v <;> cases refused <;> rfl
      simp only [step, operation, stack, pop, pure_bind]
      exact Running.compute_bind_of_error thrown
    · have array : s.heap.array v = .error cause := by simp [Heap.array, missing, bind, Except.bind]
      simp only [step, operation, stack, pop, pure_bind]
      exact Running.compute_bind_of_error array
    · have inner : unboxValue s.heap v = .error cause := by simp [unboxValue, missing, bind, Except.bind]
      simp only [step, operation, stack, pop, pure_bind]
      exact Running.compute_bind_of_error inner
  | loaded operation stack =>
    have missing := Heap.object_of_refused (h := s.heap) refused
    have array : s.heap.array v = .error cause := by simp [Heap.array, missing, bind, Except.bind]
    simp only [step, operation, stack, pop, pure_bind]
    exact (Running.compute_bind_of_ok rfl).trans (Running.compute_bind_of_error array)
  | stored operation stack =>
    obtain ⟨none, rfl⟩ : v.ref? = none ∧ cause = .nullReference := by
      cases v <;> cases refused <;> exact ⟨rfl, rfl⟩
    simp only [step, operation, stack, pop, pure_bind, storeElement, none]
    rfl
  | receiver operation named shaped enough first =>
    obtain ⟨rfl, rfl⟩ : v = .null ∧ cause = .nullReference := by
      cases v <;> cases refused
      exact ⟨rfl, rfl⟩
    simp only [step, operation, Instruction.requireToken, named, shaped, popMany, if_pos enough, compute, pure_bind, first]
    rfl

end Steps

/-! ### Faults of an instruction -/

section Faults

variable {p : Program} {f : Frame} {callers : List Frame} {i : Instruction} {s : Machine}

/-- The instruction of a frame fails at some frames, in its step or in what is called for its effect. The program sees the fault there if
    it sees it at all. -/
inductive Program.Reports (p : Program) (f : Frame) (callers : List Frame) (i : Instruction) (s : Machine) :
    Fault → Machine → List Frame → Prop
  | step {fault : Fault} {t : Machine} (failed : step p.module f i s = .error fault t) : p.Reports f callers i s fault t (f :: callers)
  | call {stack arguments : List Value} {target : Token} {dynamic : Bool} {fault : Fault} {t u : Machine}
      (stepped : AspectWeaving.step p.module f i s = .ok (stack, .call target arguments dynamic) t)
      (failed : call p (callers.length + 1) target arguments dynamic t = .error fault u) :
      p.Reports f callers i s fault u ({ f with stack } :: callers)
  | construct {stack arguments : List Value} {target : Token} {fault : Fault} {t u : Machine}
      (stepped : AspectWeaving.step p.module f i s = .ok (stack, .construct target arguments) t)
      (failed : AspectWeaving.construct p (callers.length + 1) target arguments t = .error fault u) :
      p.Reports f callers i s fault u ({ f with stack } :: callers)
  | exit {stack : List Value} {value : Value} {fault : Fault} {t u : Machine}
      (stepped : AspectWeaving.step p.module f i s = .ok (stack, .exit value) t)
      (failed : complete p callers.length f.pending (.returned value) t = .error fault u) : p.Reports f callers i s fault u callers

theorem Program.Reports.advance_eq {fault : Fault} {t : Machine} {frames : List Frame} (reports : p.Reports f callers i s fault t frames)
    (found : f.activation.body.code.get? f.place = some i) : advance p f callers s = raise p.module fault frames t := by
  rw [AspectWeaving.advance_eq found]
  cases reports with
  | step failed => rw [failed]
  | call stepped failed =>
    rw [stepped]
    dsimp only [perform]
    rw [settleAttempt_eq, failed]
  | construct stepped failed =>
    rw [stepped]
    dsimp only [perform]
    rw [settleAttempt_eq, failed]
  | exit stepped failed =>
    rw [stepped]
    dsimp only [perform]
    rw [settleAttempt_eq, failed]

/-- An instruction looks up an object by a value, or a method of the library that it calls does. -/
inductive Program.LooksUp (p : Program) (f : Frame) (i : Instruction) (s : Machine) (v : Value) (lookup : LookupKind) : Prop
  | own (looks : i.LooksUp p.module f v lookup)
  | called {stack arguments : List Value} {target : Token} {dynamic : Bool}
      (stepped : step p.module f i s = .ok (stack, .call target arguments dynamic) s)
      (looks : p.CallLooksUp s.heap target arguments dynamic v lookup)

/-- An instruction reports a null reference only of a value that it has looked up, unless a host method does. -/
theorem Program.Reports.lookup {t : Machine} {frames : List Frame}
    (reports : p.Reports f callers i s (.execution .nullReference) t frames) :
    p.HostReportsNull ∨ ∃ v lookup, p.LooksUp f i s v lookup ∧ lookup.refusal v = some .nullReference := by
  cases reports with
  | step failed =>
    obtain ⟨v, lookup, looks, refused⟩ := spares_step _ failed
    exact .inr ⟨v, lookup, .own looks, refused⟩
  | call stepped failed =>
    obtain ⟨-, -, -, -, -, -, rfl⟩ := call_of_step stepped
    rcases spares_call _ _ _ _ failed with host | ⟨v, lookup, looks, refused⟩
    · exact .inl host
    · exact .inr ⟨v, lookup, .called stepped looks, refused⟩
  | construct stepped failed => exact .inl (spares_construct _ _ _ failed)
  | exit stepped failed => exact .inl (spares_complete _ _ _ failed)

/-- A value that is looked up and refused makes the instruction fail. -/
theorem Program.LooksUp.reports {v : Value} {lookup : LookupKind} {cause : ExecutionFault} (looks : p.LooksUp f i s v lookup)
    (refused : lookup.refusal v = some cause) : ∃ stack, p.Reports f callers i s (.execution cause) s ({ f with stack } :: callers) := by
  cases looks with
  | own looks => exact ⟨f.stack, .step (step_of_refused looks refused)⟩
  | called stepped looks => exact ⟨_, .call stepped (call_of_refused looks refused)⟩

/-- A machine on which an instruction has met a null reference. -/
def Machine.nullReference (s : Machine) (i : Instruction) : Machine :=
  { s with
    trace := s.trace.push (.raised i "System.NullReferenceException")
    heap := s.heap.push (.exception "System.NullReferenceException" (some "null reference")) }

/-- The program sees a null reference as an exception. -/
theorem raise_nullReference (found : f.activation.body.code.get? f.place = some i) :
    raise p.module (.execution .nullReference) (f :: callers) s = unwind p.module s.heap.nextRef (f :: callers) (s.nullReference i) := by
  simp only [raise, found]
  rfl

/-- A virtual call on a value that is not null goes on with the call. -/
theorem step_of_receiver {m : Module} {v : Value} (looks : i.LooksUp m f v .receiver) (other : v ≠ .null) :
    ∃ stack target arguments, step m f i s = .ok (stack, .call target arguments true) s ∧ arguments.head? = some v := by
  cases looks with
  | @receiver target shape operation named shaped enough first =>
    have passes : v.isNull = false := by cases v <;> first | rfl | exact absurd rfl other
    refine ⟨f.stack.drop shape.argumentCount, target, (f.stack.take shape.argumentCount).reverse, ?_, first⟩
    simp only [step, operation, Instruction.requireToken, named, shaped, popMany, if_pos enough, compute, pure_bind, first,
      Option.map_some, Option.getD_some, passes]
    rfl

/-- The objects that the instruction of a frame looks up, itself or in a method of the library. It throws a null reference exception only
    if one of the values is null where there has to be an object, or is no reference at all where the lookup is lax, or if a host method
    says so. It does so for each such value. Any other value that is no reference ends the run, but for the object of a virtual call: that
    is only compared with null and goes on to be an argument. -/
theorem null_references_of_lookups (found : f.activation.body.code.get? f.place = some i) :
    (∀ t frames, p.Reports f callers i s (.execution .nullReference) t frames →
      p.HostReportsNull ∨
        ∃ v lookup, p.LooksUp f i s v lookup ∧ (v = .null ∧ lookup ≠ .optional ∨ lookup = .lax ∧ v.ref? = none)) ∧
    ∀ v lookup, p.LooksUp f i s v lookup →
      (v = .null ∧ lookup ≠ .optional ∨ lookup = .lax ∧ v.ref? = none →
        ∃ stack, advance p f callers s = unwind p.module s.heap.nextRef ({ f with stack } :: callers) (s.nullReference i)) ∧
      (v ≠ .null → v.ref? = none → lookup = .strict ∨ lookup = .optional →
        advance p f callers s = .error (.execution (v.mismatch "object")) s) ∧
      (v ≠ .null → lookup = .receiver →
        ∃ stack target arguments, step p.module f i s = .ok (stack, .call target arguments true) s ∧ arguments.head? = some v) := by
  refine ⟨fun t frames reports => ?_, fun v lookup looks => ⟨fun null => ?_, fun other none careful => ?_, fun other tested => ?_⟩⟩
  · refine reports.lookup.imp id ?_
    rintro ⟨v, lookup, looks, refused⟩
    exact ⟨v, lookup, looks, LookupKind.refusal_eq_nullReference_iff.mp refused⟩
  · obtain ⟨stack, reports⟩ : ∃ stack, p.Reports f callers i s (.execution .nullReference) s ({ f with stack } :: callers) :=
      looks.reports (LookupKind.refusal_eq_nullReference_iff.mpr null)
    exact ⟨stack, (reports.advance_eq found).trans (raise_nullReference found)⟩
  · obtain ⟨stack, reports⟩ : ∃ stack, p.Reports f callers i s (.execution (v.mismatch "object")) s ({ f with stack } :: callers) :=
      looks.reports (LookupKind.refusal_of_mismatch careful none other)
    exact reports.advance_eq found
  · subst tested
    cases looks with
    | own looks => exact step_of_receiver looks other
    | called stepped looks =>
      obtain ⟨-, looks⟩ := looks
      exact absurd looks LibraryLooksUp.not_receiver

end Faults

namespace Sample

/-- Code that stores into a number as if it were an array. -/
def fill : Body where
  code := .ofList [⟨.ldcI4, .int32 5⟩, ⟨.ldcI4, .int32 0⟩, ⟨.ldnull, .none⟩, ⟨.stelemRef, .none⟩, ⟨.ret, .none⟩]

/-- A module with a method of that code. -/
def filling : Program where
  module := (({ name := "Sample", library := .standard } : Module).addType
    { name := ⟨"Sample", "Host"⟩, methods := [{ name := "Fill", modifiers := { isStatic := true }, body := some fill }] }).1

/-- The execution of the code at the instruction that stores. -/
def storing : Frame where
  activation := .ofMethod { name := "Fill", modifiers := { isStatic := true }, body := some fill, token := .ofParts Token.methodDef 1 } fill []
  pending := []
  place := ⟨3⟩
  slots := #[]
  stack := [.null, .int32 0, .int32 5]

/-- The number is looked up, and the program sees an exception. -/
theorem storing_throws :
    storing.activation.body.code.get? storing.place = some ⟨.stelemRef, .none⟩ ∧
      filling.LooksUp storing ⟨.stelemRef, .none⟩ {} (.int32 5) .lax ∧
      ∃ stack, advance filling storing [] {} =
        unwind filling.module ⟨1⟩ [{ storing with stack }] (Machine.nullReference {} ⟨.stelemRef, .none⟩) :=
  have looks : filling.LooksUp storing ⟨.stelemRef, .none⟩ {} (.int32 5) .lax := .own (.stored rfl rfl)
  ⟨rfl, looks, ((null_references_of_lookups rfl).2 _ _ looks).1 (.inr ⟨rfl, rfl⟩)⟩

/-- The execution of the code is at the instruction that stores, and the number is where the array should be. -/
def isStoring : Stage → Bool
  | .ok (.running f []) _ =>
    match f.activation.body.code.get? f.place, f.stack with
    | some i, [.null, .int32 index, .int32 number] => i.opcode == .stelemRef && index == 0 && number == 5
    | _, _ => false
  | _ => false

/-- The type of the exception that gets out of a call. -/
def thrownType? : EStateM.Result Fault Machine Outcome → Option String
  | .ok (.threw x) t =>
    match t.heap.get? x with
    | some (.exception typeName _) => some typeName
    | _ => none
  | _ => none

set_option maxRecDepth 100000 in
/-- A call of the method gets to the instruction that stores. There the step reports a null reference, though the value that is looked up
    is a number, and the call throws. -/
theorem filling_throws :
    fill.validate.isOk ∧
      isStoring (filling.trail 3 (filling.start (call filling 0 (.ofParts Token.methodDef 1) [] false) {})).2 ∧
      step filling.module storing ⟨.stelemRef, .none⟩ {} = .error (.execution .nullReference) {} ∧
      thrownType? (filling.invoke (.ofParts Token.methodDef 1) [] {}) = some "System.NullReferenceException" := by
  refine ⟨by decide +kernel, by decide +kernel, rfl, by decide +kernel⟩

end Sample

end AspectWeaving

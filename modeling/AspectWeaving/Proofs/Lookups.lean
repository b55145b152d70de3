import AspectWeaving.Proofs.Instances
import AspectWeaving.Proofs.ModuleMethods
import AspectWeaving.Proofs.Planning

/-!
Looking an attribute up. The library finds the attributes of a method that are of a type, and makes an object
of each (`collect`). The object of the first one comes first in the array that is found (`Found`), whether the
constructors are host methods or have bodies to execute meanwhile.
-/
namespace AspectWeaving

open Running (compute allocate note Ensures)

/-! ### Objects of attributes -/

variable {p : Program} {depth : Nat} {token : Token} {a : Attribute} {x : HeapRef} {s t : Machine} {progress : Progress}

/-- The constructor of a type that takes a number of arguments. -/
def Module.constructor? (m : Module) (type : Token) (count : Nat) : Option MethodDef :=
  (((m.typeDef? type).map (·.methods)).getD []).find? fun d => d.isConstructor && d.parameters.length == count

/-- An attribute becomes an object: its arguments become values, and the new object of its type goes with them to
    the constructor of as many parameters, if there is one. -/
def Program.Initializes (p : Program) (depth : Nat) (a : Attribute) (s : Machine) (x : HeapRef) : Prop :=
  ∃ values t, a.arguments.mapM (·.toValue) s = .ok values t ∧ x = t.heap.nextRef ∧
    ((∃ d progress u, p.module.constructor? a.type values.length = some d ∧
        callDefinition p depth d.token (.ref x :: values) { t with heap := t.heap.push (.instance a.type) } =
          .ok progress u) ∨
      p.module.constructor? a.type values.length = none ∧ values = [])

/-- What is to become of the outcome of a constructor before the array is there: the first object is a value. -/
def Gathers (v : Value) (pending : List Pending) : Prop :=
  ∃ y objects rest, pending = [.construct y, .collect objects rest] ∧ (objects.push (.ref y))[0]? = some v

/-- What looking attributes up comes to: an array whose first object is a value. -/
inductive Found (v : Value) : Progress → Machine → Prop
  | threw (x : HeapRef) (t : Machine) : Found v (.done (.threw x)) t
  | array {r : HeapRef} {elements : Array Value} {t : Machine} (made : t.heap.get? r = some (.array elements))
      (first : elements[0]? = some v) : Found v (.result (.ref r)) t
  | enters {f : Frame} (t : Machine) (gathers : Gathers v f.pending) : Found v (.enter f) t

/-- A body that is entered for a call has nothing to be done with its outcome yet. -/
def Progress.Plain (progress : Progress) : Prop := ∀ f, progress = .enter f → f.pending = []

theorem plain_enterBody (d : MethodDef) (body : Body) (arguments : List Value) :
    Ensures (enterBody p depth d body arguments) Progress.Plain := by
  unfold enterBody
  dsimp only
  repeat' first
    | exact .fails
    | exact .pure fun f same => by cases same; rfl
    | refine Ensures.always.bind fun _ _ => ?_
    | split

theorem plain_callDefinition (token : Token) (arguments : List Value) :
    Ensures (callDefinition p depth token arguments) Progress.Plain := by
  unfold callDefinition
  split
  · exact Ensures.always.bind fun _ _ => .pure fun f same => by cases same
  · split
    · exact .fails
    · split
      · exact .fails
      · exact plain_enterBody _ _ _

/-- An attribute that becomes an object has been initialized, or its constructor has been entered. -/
theorem instantiate_cases (spares : p.Spares) (distinct : p.module.Distinct)
    (done : instantiate p depth a s = .ok progress t) :
    ∃ x, p.Initializes depth a s x ∧ t.heap.get? x = some (.instance a.type) ∧
      ((∃ y, progress = .done (.threw y)) ∨ progress = .result (.ref x) ∨
        ∃ f, progress = .enter f ∧ f.pending = [.construct x]) := by
  unfold instantiate at done
  obtain ⟨values, u, valued, done⟩ := Running.bind_eq_ok.mp done
  cases found : p.module.constructor? a.type values.length with
  | some d =>
    have chosen := found
    unfold Module.constructor? at found
    simp only [found] at done
    cases declared : p.module.typeDef? a.type with
    | none => simp [declared] at found
    | some type =>
      simp only [declared, Option.map_some, Option.getD_some] at found
      have own : type.token = a.type := by simpa using List.find?_some declared
      have method := distinct.method? (List.mem_of_find?_eq_some declared) (List.mem_of_find?_eq_some found)
      unfold constructDefinition at done
      rw [method] at done
      obtain ⟨object, v, made, done⟩ := Running.bind_eq_ok.mp done
      cases made
      obtain ⟨call, v, called, done⟩ := Running.bind_eq_ok.mp done
      rw [own] at called
      have kept := (keeps_callDefinition spares _ _).ok called _ _ (u.heap.get?_nextRef _)
      have initializes : p.Initializes depth a s u.heap.nextRef :=
        ⟨values, u, valued, rfl, .inl ⟨d, call, v, chosen, called⟩⟩
      cases call with
      | enter f =>
        cases done
        exact ⟨_, initializes, kept, .inr (.inr ⟨_, rfl, by rw [plain_callDefinition _ _ _ _ _ called f rfl]; rfl⟩)⟩
      | done outcome =>
        cases outcome with
        | returned value =>
          cases done
          exact ⟨_, initializes, kept, .inr (.inl rfl)⟩
        | threw y =>
          cases done
          exact ⟨_, initializes, kept, .inl ⟨y, rfl⟩⟩
  | none =>
    have missing := found
    unfold Module.constructor? at found
    simp only [found] at done
    by_cases none : values.isEmpty
    · rw [if_pos none] at done
      obtain ⟨object, v, made, done⟩ := Running.bind_eq_ok.mp done
      cases made
      cases done
      exact ⟨_, ⟨values, u, valued, rfl, .inr ⟨missing, List.isEmpty_iff.mp none⟩⟩, u.heap.get?_nextRef _, .inr (.inl rfl)⟩
    · rw [if_neg none] at done
      obtain ⟨typeName, v, -, done⟩ := Running.bind_eq_ok.mp done
      cases done

/-- The attributes behind the first ones become objects behind theirs. -/
theorem found_collect (spares : p.Spares) (distinct : p.module.Distinct) {v : Value} {objects : Array Value}
    {attributes : List Attribute} (first : objects[0]? = some v)
    (done : collect p depth objects attributes s = .ok progress t) : Found v progress t := by
  induction attributes generalizing objects s with
  | nil =>
    obtain ⟨r, u, made, done⟩ := Running.bind_eq_ok.mp done
    cases made
    cases done
    exact .array (s.heap.get?_nextRef _) first
  | cons a rest ih =>
    have more : ∀ y, (objects.push y)[0]? = some v := by
      intro y
      have inside := (Array.getElem?_eq_some_iff.mp first).1
      rw [Array.getElem?_push_lt inside, ← Array.getElem?_eq_getElem inside, first]
    obtain ⟨call, u, called, done⟩ := Running.bind_eq_ok.mp done
    obtain ⟨x, -, -, ⟨y, rfl⟩ | rfl | ⟨f, rfl, pending⟩⟩ := instantiate_cases spares distinct called
    · cases done
      exact .threw y _
    · exact ih (more _) done
    · cases done
      exact .enters _ ⟨x, objects, rest, by rw [pending]; rfl, more _⟩

/-- The first attribute that is looked up becomes the first object. -/
theorem found_first (spares : p.Spares) (distinct : p.module.Distinct) {rest : List Attribute}
    (done : collect p depth #[] (a :: rest) s = .ok progress t) :
    ∃ x, p.Initializes depth a s x ∧ t.heap.get? x = some (.instance a.type) ∧ Found (.ref x) progress t := by
  obtain ⟨call, u, called, done⟩ := Running.bind_eq_ok.mp done
  obtain ⟨x, initializes, made, outcome⟩ := instantiate_cases spares distinct called
  rcases outcome with ⟨y, rfl⟩ | rfl | ⟨f, rfl, pending⟩
  · cases done
    exact ⟨x, initializes, made, .threw y _⟩
  · have kept := (keeps_collect spares _ rest).ok done
    exact ⟨x, initializes, kept _ _ made, found_collect spares distinct rfl done⟩
  · cases done
    exact ⟨x, initializes, made, .enters _ ⟨x, #[], rest, by rw [pending]; rfl, rfl⟩⟩

/-- When a constructor has returned, its object is one of those that are found. -/
theorem found_complete (spares : p.Spares) (distinct : p.module.Distinct) {v value : Value} {pending : List Pending}
    (gathers : Gathers v pending) (done : complete p depth pending (.returned value) s = .ok progress t) :
    Found v progress t := by
  obtain ⟨y, objects, rest, rfl, first⟩ := gathers
  obtain ⟨call, u, called, done⟩ := Running.bind_eq_ok.mp done
  have found := found_collect spares distinct first called
  cases call with
  | done outcome =>
    cases outcome <;> cases done <;> exact found
  | enter f =>
    cases done
    cases found with
    | enters _ gathers => exact .enters _ (by simpa using gathers)

/-! ### Library methods -/

/-- The host stands in for no method of the library that finds attributes. -/
def Program.Reflects (p : Program) : Prop :=
  ∀ host ∈ p.hostMethods, ∀ row, p.module.imports.getMemberRef? host.1 = some row →
    row.name ∉ ["GetMethodFromHandle", "GetTypeFromHandle", "GetCustomAttributes"]

/-- The attributes of a method are selected, and become objects. -/
theorem callLibrary_getCustomAttributes {method : Token} {row : MemberRef} {y : HeapRef} {rest : List Value} {filter : Option Token}
    (found : p.module.imports.getMemberRef? token = some row)
    (name : row.name = "GetCustomAttributes") (describes : s.heap.get? y = some (.method method))
    (asked : describedType s.heap rest[0]? = .ok filter) :
    callLibrary p depth token (.ref y :: rest) s = (do collect p depth #[] (← compute (selectAttributes p.module method filter))) s := by
  have described : compute (thisObject s.heap (.ref y :: rest)) s = .ok (.method method) s := by
    have this : thisObject s.heap (.ref y :: rest) = s.heap.get y := rfl
    rw [this, Heap.get, describes]
    rfl
  have typed : compute (describedType s.heap (Value.ref y :: rest)[1]?) s = .ok filter s := by
    rw [List.getElem?_cons_succ, asked]
    rfl
  unfold callLibrary
  rw [found]
  simp only [name]
  exact (Running.bind_of_ok (x := Running.heap) rfl).trans <| (Running.bind_of_ok described).trans <|
    (Running.bind_of_ok rfl).trans <| (Running.bind_of_ok (x := Running.heap) rfl).trans (Running.bind_of_ok typed)

/-- Calls of a token go to a method of the library. -/
structure Program.Answers (p : Program) (token : Token) (shape : CallShape) : Prop where
  table : token.table = Token.memberRef
  row : ∃ row, p.module.imports.getMemberRef? token = some row ∧
    (⟨row.name, row.parameters.length, row.hasThis⟩ : CallShape) = shape
  free : p.hostMethod? token = none

namespace Program.Answers

variable {shape : CallShape} {arguments : List Value} {method type : Token} {y z : HeapRef} {v : Value}

theorem callShape (answers : p.Answers token shape) : p.module.callShape token = .ok shape := by
  obtain ⟨row, found, same⟩ := answers.row
  unfold Module.callShape
  rw [answers.table, if_neg (by decide), if_pos rfl, found, Option.map_some, same]

/-- A call is one of the library method, unless it goes to a method of the module. -/
theorem call_eq (answers : p.Answers token shape) {dynamic : Bool}
    (stays : dynamic = true → dispatch p.module s.heap token arguments.head? = .ok token) :
    call p depth token arguments dynamic s = callLibrary p depth token arguments s := by
  have other : ¬ token.table = Token.methodDef := by rw [answers.table]; decide
  suffices whole : ∃ onward : Token → Running Progress, onward token = callLibrary p depth token arguments ∧
      call p depth token arguments dynamic =
        if dynamic then do onward (← compute (dispatch p.module (← Running.heap) token arguments.head?))
        else onward token by
    obtain ⟨onward, goes, same⟩ := whole
    rw [same, ← goes]
    cases dynamic with
    | false => rfl
    | true =>
      have resolved : compute (dispatch p.module s.heap token arguments.head?) s = .ok token s := by rw [stays rfl]; rfl
      exact (Running.bind_of_ok (x := Running.heap) rfl).trans (Running.bind_of_ok resolved)
  unfold call
  extract_lets onward
  refine ⟨onward, ?_, by cases dynamic <;> rfl⟩
  dsimp only [onward]
  rw [answers.free]
  simp only [Option.orElse_eq_orElse, Option.orElse_none, if_neg other, if_pos answers.table]

theorem getMethod (answers : p.Answers token ⟨"GetMethodFromHandle", 2, false⟩) (rest : List Value) (s : Machine) :
    callLibrary p depth token (.methodHandle method :: rest) s =
      .ok (.result (.ref s.heap.nextRef)) { s with heap := s.heap.push (.method method) } := by
  obtain ⟨row, found, same⟩ := answers.row
  have name : row.name = "GetMethodFromHandle" := congrArg CallShape.name same
  unfold callLibrary
  rw [found]
  simp only [name]
  rfl

theorem getType (answers : p.Answers token ⟨"GetTypeFromHandle", 1, false⟩) (s : Machine) :
    callLibrary p depth token [.typeHandle type] s =
      .ok (.result (.ref s.heap.nextRef)) { s with heap := s.heap.push (.type type) } := by
  obtain ⟨row, found, same⟩ := answers.row
  have name : row.name = "GetTypeFromHandle" := congrArg CallShape.name same
  unfold callLibrary
  rw [found]
  simp only [name]
  rfl

theorem getAttributes (answers : p.Answers token ⟨"GetCustomAttributes", 2, true⟩)
    (describes : s.heap.get? y = some (.method method)) (asked : s.heap.get? z = some (.type type)) :
    callLibrary p depth token [.ref y, .ref z, v] s =
      (do collect p depth #[] (← compute (selectAttributes p.module method (some type)))) s := by
  obtain ⟨row, found, same⟩ := answers.row
  refine callLibrary_getCustomAttributes found (congrArg CallShape.name same) describes ?_
  have read : describedType s.heap (some (.ref z)) = (s.heap.get z).bind _ := rfl
  rw [List.getElem?_cons_zero, read, Heap.get, asked]
  rfl

end Program.Answers

/-- An object that describes a method takes a virtual call to the method that is called. -/
theorem dispatch_method {m : Module} {h : Heap} {y : HeapRef} {method : Token} (describes : h.get? y = some (.method method))
    (target : Token) : dispatch m h target (some (.ref y)) = .ok target := by
  simp only [dispatch, Heap.get, describes]
  rfl

end AspectWeaving

import AspectWeaving.Proofs.AttributeTypes
import AspectWeaving.Proofs.CallOutcomes
import AspectWeaving.Proofs.Lookups
import AspectWeaving.Proofs.NamingEnds
import AspectWeaving.Proofs.Turns

/-!
Attributes as new objects. The library makes one object after another of the attributes that are asked for, also where the
constructors have bodies to execute meanwhile (`Program.MakesAll`). So where these return, it returns an array of objects that are
all new and can all be taken for ones of the type that is asked for; and an exception of a constructor is the one of the
call. Where naming the type has no end the call has none either, unless all the attributes of the method derive from the type within
the module, and are told by their tokens (`attributes_are_new_objects`).
-/
namespace AspectWeaving

open Running (compute Obeys)

/-! ### Objects that stay -/

/-- A later heap has the objects of an earlier one, and the instances as they are. -/
def Heap.Retains (h h' : Heap) : Prop :=
  ∀ r o, h.get? r = some o → ∃ o', h'.get? r = some o' ∧ ∀ type, o = .instance type → o' = .instance type

namespace Heap.Retains

variable {h h' : Heap} {r : HeapRef} {type : Token}

theorem some (retains : h.Retains h') (found : h.get? r = some (.instance type)) : h'.get? r = some (.instance type) := by
  obtain ⟨o, there, same⟩ := retains r _ found
  rw [there, same type rfl]

theorem none (retains : h.Retains h') (missing : h'.get? r = none) : h.get? r = none := by
  cases found : h.get? r with
  | none => rfl
  | some o =>
    obtain ⟨o', there, -⟩ := retains r o found
    rw [missing] at there
    cases there

end Heap.Retains

theorem Heap.allows_retains : Heap.Allows Heap.Retains where
  refl _ _ o found := ⟨o, found, fun _ same => same⟩
  trans first second r o found := by
    obtain ⟨o', there, same⟩ := first r o found
    obtain ⟨o'', behind, alike⟩ := second r o' there
    exact ⟨o'', behind, fun type is => alike type (same type is)⟩
  push h added r o found := ⟨o, Heap.get?_push found added, fun _ same => same⟩
  modify h r f becomes q o found := by
    by_cases same : q = r
    · subst same
      refine ⟨f o, by rw [Heap.get?_modify, if_pos rfl, found]; rfl, fun type is => ?_⟩
      subst is
      have changed := becomes _ found
      generalize f (.instance type) = o at changed
      cases changed
      rfl
    · exact ⟨o, by rw [Heap.get?_modify, if_neg same, found], fun _ same => same⟩

/-- No object is taken away by the host, and no instance becomes something else. -/
def Program.Retains (p : Program) : Prop := ∀ host ∈ p.hostMethods, HostMethod.Within Heap.Retains host.2

/-! ### One attribute -/

/-- An attribute becomes the object `x`, as far as its constructor does not throw an exception: the arguments become values, and the new
    object of the type goes with them to the constructor of as many parameters. None is needed where there are no arguments. -/
inductive Program.Instantiates (p : Program) (frames : List Frame) (a : Attribute) (s : Machine) (x : HeapRef) :
    Outcome → Machine → Prop
  | plain {t : Machine} (arguments : a.arguments = []) (missing : p.module.constructor? a.type 0 = none) (next : x = s.heap.nextRef)
      (made : t = { s with heap := s.heap.push (.instance a.type) }) : Instantiates p frames a s x (.returned (.ref x)) t
  | constructor {values : List Value} {u : Machine} {d : MethodDef} {o : Outcome} {t : Machine}
      (arguments : a.arguments.mapM (·.toValue) s = .ok values u) (found : p.module.constructor? a.type values.length = some d)
      (next : x = u.heap.nextRef)
      (comes : p.Comes frames (callDefinition p frames.length d.token (.ref x :: values))
        { u with heap := u.heap.push (.instance a.type) } o t) : Instantiates p frames a s x o t

/-- Attributes become objects, one after another. -/
inductive Program.MakesAll (p : Program) (frames : List Frame) : List Attribute → Machine → List HeapRef → Machine → Prop
  | nil (s : Machine) : MakesAll p frames [] s [] s
  | cons {a : Attribute} {rest : List Attribute} {s t u : Machine} {x : HeapRef} {xs : List HeapRef} {value : Value}
      (first : p.Instantiates frames a s x (.returned value) t) (others : MakesAll p frames rest t xs u) :
      MakesAll p frames (a :: rest) s (x :: xs) u

section Objects

variable {p : Program} {frames above : List Frame} {a : Attribute} {attributes rest : List Attribute} {c : Frame} {s t u : Machine}
  {x : HeapRef} {xs : List HeapRef} {o : Outcome} {call : Running Progress}

theorem Program.EndsWith.retains (hosts : p.Retains) (ends : p.EndsWith frames above c s o t) : s.heap.Retains t.heap := by
  obtain ⟨visits, leads, -⟩ := ends.leads []
  have retains := leads.heap Heap.allows_retains hosts
  have start : (Stage.above above { c with pending := [] } frames s).machine = s := by cases above <;> rfl
  have last : Stage.machine (settleAttempt p.module frames (complete p frames.length [] o) t) = t :=
    machine_settle p.module frames (.done o) t
  rwa [start, last] at retains

theorem Program.Comes.retains (hosts : p.Retains) (called : Obeys (.heap Heap.Retains) s call fun _ _ => True)
    (comes : p.Comes frames call s o t) : s.heap.Retains t.heap := by
  cases comes with
  | done done => exact called.heap done
  | body entered ends => exact Heap.allows_retains.trans (called.heap entered) (ends.retains hosts)

/-- The object of an attribute is new. -/
theorem Program.Instantiates.fresh (hosts : p.Retains) (instantiates : p.Instantiates frames a s x o t) :
    s.heap.Retains t.heap ∧ s.heap.get? x = none ∧ t.heap.get? x = some (.instance a.type) := by
  have next : ∀ h : Heap, h.get? h.nextRef = none := fun h => by simp [Heap.get?, Heap.nextRef, Heap.size]
  cases instantiates with
  | plain _ _ same made =>
    subst same made
    exact ⟨Heap.allows_retains.push _ _, next _, s.heap.get?_nextRef _⟩
  | @constructor values u d o t arguments _ same comes =>
    subst same
    have valued : s.heap.Retains u.heap :=
      (obeys_mapM_toValue (lawful_heap Heap.allows_retains (m := p.module)) trivial a.arguments).heap arguments
    have refuses : (Regime.heap Heap.Retains).Refuses p frames.length := refuses_heap
    have called : Running.Obeys (.heap Heap.Retains) { u with heap := u.heap.push (.instance a.type) }
        (callDefinition p frames.length d.token (.ref u.heap.nextRef :: values)) _ :=
      obeys_callDefinition (lawful_heap Heap.allows_retains) (abides_heap hosts) refuses trivial d.token fun _ _ => trivial
    have run := comes.retains hosts (called.imp fun _ _ _ _ _ => trivial)
    have made : (u.heap.push (.instance a.type)).get? u.heap.nextRef = some (.instance a.type) := u.heap.get?_nextRef _
    refine ⟨?_, valued.none (next _), run.some made⟩
    exact Heap.allows_retains.trans valued (Heap.allows_retains.trans (Heap.allows_retains.push _ _) run)

/-- The objects of attributes are new and different from each other. -/
theorem Program.MakesAll.fresh (hosts : p.Retains) (makes : p.MakesAll frames attributes s xs t) :
    s.heap.Retains t.heap ∧ xs.Nodup ∧
      List.Forall₂ (fun a x => s.heap.get? x = none ∧ t.heap.get? x = some (.instance a.type)) attributes xs := by
  induction makes with
  | nil s => exact ⟨Heap.allows_retains.refl _, List.nodup_nil, .nil⟩
  | @cons a rest s t u x xs value first others ih =>
    obtain ⟨before, missing, made⟩ := first.fresh hosts
    obtain ⟨after, distinct, objects⟩ := ih
    refine ⟨Heap.allows_retains.trans before after, List.nodup_cons.mpr ⟨fun member => ?_, distinct⟩, ?_⟩
    · -- The object is there when the others are made.
      obtain ⟨b, -, absent, -⟩ := exists_paired_left objects x member
      rw [made] at absent
      cases absent
    · exact .cons ⟨missing, after.some made⟩ (objects.imp fun b y => fun ⟨absent, there⟩ => ⟨before.none absent, there⟩)

end Objects

/-! ### All attributes of a method -/

section Collect

variable {p : Program} {frames : List Frame} {a : Attribute} {attributes rest : List Attribute} {s t : Machine}
  {x : HeapRef} {xs : List HeapRef} {o : Outcome} {objects : Array Value}

/-- What a lookup comes to when an attribute has become an object, or its constructor has thrown an exception. -/
def afterObject (p : Program) (depth : Nat) (objects : Array Value) (x : HeapRef) (rest : List Attribute) : Outcome → Running Progress
  | .returned _ => collect p depth (objects.push (.ref x)) rest
  | .threw y => return .done (.threw y)

/-- When the object is there that a constructor has been called for, the lookup goes on. -/
theorem complete_constructed (p : Program) (depth : Nat) (objects : Array Value) (x : HeapRef) (rest : List Attribute) (o : Outcome) :
    complete p depth [.construct x, .collect objects rest] o = afterObject p depth objects x rest o := by
  cases o with
  | threw y => rfl
  | returned value =>
    funext s
    simp only [complete, afterObject, bind, EStateM.bind]
    cases collect p depth (objects.push (.ref x)) rest s with
    | error fault t => rfl
    | ok progress t =>
      cases progress with
      | done outcome => cases outcome <;> rfl
      | enter f => simp [pure, EStateM.pure]

/-- An attribute with a constructor calls it on a new object. -/
theorem instantiate_of_constructor {p : Program} (depth : Nat) {a : Attribute} {s u : Machine} {values : List Value} {d : MethodDef}
    (distinct : p.module.Distinct) (arguments : a.arguments.mapM (·.toValue) s = .ok values u)
    (found : p.module.constructor? a.type values.length = some d) :
    instantiate p depth a s =
      (do
        let call ← callDefinition p depth d.token (.ref u.heap.nextRef :: values)
        call.andThen (.construct u.heap.nextRef) fun _ => return .result (.ref u.heap.nextRef) : Running Progress)
      { u with heap := u.heap.push (.instance a.type) } := by
  have chosen := found
  unfold Module.constructor? at found
  cases declared : p.module.typeDef? a.type with
  | none => simp [declared] at found
  | some type =>
    simp only [declared, Option.map_some, Option.getD_some] at found
    have own : type.token = a.type := by simpa using List.find?_some declared
    have method := distinct.method? (List.mem_of_find?_eq_some declared) (List.mem_of_find?_eq_some found)
    unfold Module.constructor? at chosen
    refine (Running.bind_of_ok arguments).trans ?_
    simp only [chosen, constructDefinition, method, own]
    rfl

/-- An attribute that becomes an object leads to where the lookup goes on with the others. -/
theorem Program.Instantiates.leads (distinct : p.module.Distinct) (instantiates : p.Instantiates frames a s x o t)
    (objects : Array Value) (rest : List Attribute) :
    ∃ visits, p.Leads (settleAttempt p.module frames (collect p frames.length objects (a :: rest)) s) visits
        (settleAttempt p.module frames (afterObject p frames.length objects x rest o) t) ∧
      ∀ v ∈ visits, frames.length ≤ v.callers.length := by
  cases instantiates with
  | plain arguments missing next made =>
    subst next made
    refine ⟨[], ?_, nofun⟩
    have same : collect p frames.length objects (a :: rest) s =
        collect p frames.length (objects.push (.ref s.heap.nextRef)) rest { s with heap := s.heap.push (.instance a.type) } := by
      unfold Module.constructor? at missing
      refine (Running.bind_of_ok (a := .result (.ref s.heap.nextRef)) (t := { s with heap := s.heap.push (.instance a.type) }) ?_).trans rfl
      simp only [instantiate, arguments, List.mapM_nil, pure_bind, List.length_nil, missing]
      rfl
    simp only [settleAttempt_eq, same, afterObject]
    exact .stay _
  | @constructor values u d o t arguments found next comes =>
    subst next
    have calls := instantiate_of_constructor frames.length distinct arguments found
    cases comes with
    | done called =>
      refine ⟨[], ?_, nofun⟩
      have same : collect p frames.length objects (a :: rest) s = afterObject p frames.length objects u.heap.nextRef rest o t := by
        cases o with
        | returned value =>
          exact (Running.bind_of_ok (a := .result (.ref u.heap.nextRef)) (calls.trans ((Running.bind_of_ok called).trans rfl))).trans rfl
        | threw y =>
          exact (Running.bind_of_ok (a := .done (.threw y)) (calls.trans ((Running.bind_of_ok called).trans rfl))).trans rfl
      simp only [settleAttempt_eq, same]
      exact .stay _
    | @body c w called ends =>
      have plain : c.pending = [] := plain_callDefinition _ _ _ _ _ called c rfl
      have same : collect p frames.length objects (a :: rest) s =
          .ok (.enter { c with pending := [.construct u.heap.nextRef, .collect objects rest] }) w := by
        refine (Running.bind_of_ok (a := .enter { c with pending := c.pending ++ [.construct u.heap.nextRef] })
          (calls.trans ((Running.bind_of_ok called).trans rfl))).trans ?_
        simp only [Progress.andThen, plain]
        rfl
      obtain ⟨visits, leads, above⟩ := ends.leads [.construct u.heap.nextRef, .collect objects rest]
      rw [complete_constructed] at leads
      refine ⟨visits, ?_, above⟩
      rw [settleAttempt_eq, same]
      exact leads

/-- Attributes that become objects lead to where the lookup goes on with those behind them. -/
theorem Program.MakesAll.leads (distinct : p.module.Distinct) (makes : p.MakesAll frames attributes s xs t) (objects : Array Value)
    (rest : List Attribute) :
    ∃ visits, p.Leads (settleAttempt p.module frames (collect p frames.length objects (attributes ++ rest)) s) visits
        (settleAttempt p.module frames (collect p frames.length (objects ++ xs.map Value.ref) rest) t) ∧
      ∀ v ∈ visits, frames.length ≤ v.callers.length := by
  induction makes generalizing objects with
  | nil s => exact ⟨[], by simpa using Program.Leads.stay _, nofun⟩
  | @cons a later s t u x xs value first _ ih =>
    obtain ⟨visits, leads, above⟩ := first.leads distinct objects (later ++ rest)
    obtain ⟨visits', leads', above'⟩ := ih (objects.push (.ref x))
    refine ⟨visits ++ visits', leads.trans ?_, List.forall_mem_append.mpr ⟨above, above'⟩⟩
    simpa [afterObject, Array.append_assoc] using leads'

/-- When all attributes have become objects, an array of these is returned. -/
theorem Program.MakesAll.returns (distinct : p.module.Distinct) (makes : p.MakesAll frames attributes s xs t) :
    ∃ visits, p.Leads (settleAttempt p.module frames (collect p frames.length #[] attributes) s) visits
        (settle p.module frames (.done (.returned (.ref t.heap.nextRef)))
          { t with heap := t.heap.push (.array (xs.map Value.ref).toArray) }) ∧
      ∀ v ∈ visits, frames.length ≤ v.callers.length := by
  obtain ⟨visits, leads, above⟩ := makes.leads distinct #[] []
  have array : collect p frames.length ((#[] : Array Value) ++ xs.map Value.ref) [] t =
      .ok (.result (.ref t.heap.nextRef)) { t with heap := t.heap.push (.array (xs.map Value.ref).toArray) } := by
    rw [show (#[] : Array Value) ++ xs.map Value.ref = (xs.map Value.ref).toArray by simp]
    rfl
  rw [List.append_nil, settleAttempt_eq (s := t), array] at leads
  exact ⟨visits, leads, above⟩

end Collect

/-! ### The library method -/

/-- A cast of an object to a type goes through. -/
def Heap.Casts (m : Module) (h : Heap) (x : HeapRef) (type : Token) : Prop :=
  ∀ (f : Frame) (i : Instruction) (stack : List Value) (s : Machine), i.opcode = .castclass → i.token? = some type →
    f.stack = .ref x :: stack → s.heap = h → step m f i s = .ok (.ref x :: stack, .next) s

theorem Heap.casts_of_checkCast {m : Module} {h : Heap} {x : HeapRef} {type : Token} (checks : checkCast m h x type = .ok ()) :
    h.Casts m x type := by
  intro f i stack s casts token top same
  subst same
  have action : i.opcode.action = .cast := by
    rw [casts]
    rfl
  have required : i.requireToken = pure type := by
    unfold Instruction.requireToken
    rw [token]
  simp only [step, action, top, pop, pure_bind]
  refine (Running.bind_of_ok (x := Running.heap) rfl).trans ?_
  rw [required, pure_bind, checks]
  rfl

/-- Attributes that are asked for by a type are of it. -/
theorem attributeIs_of_mem_attributesOf {m : Module} {method type : Token} {a : Attribute}
    (among : a ∈ attributesOf m method (some type)) : attributeIs m a.type type = true := by
  unfold attributesOf at among
  split at among
  · cases among
  · simpa using (List.mem_filter.mp among).2

/-- The attributes of a method can be selected: either each of them derives from the type within the module, or naming the type
    ends. -/
def Module.Selects (m : Module) (method : Token) (filter : Option Token) : Prop :=
  ∀ type, filter = some type →
    (∀ a ∈ attributesOf m method none, derivesWithin m a.type type = true) ∨ ∃ name?, m.nameToken type = some name?

namespace Module

variable {m : Module} {method : Token} {filter : Option Token}

theorem Selects.eq_ok (selects : m.Selects method filter) :
    selectAttributes m method filter = .ok (attributesOf m method filter) := by
  cases filter with
  | none => rfl
  | some type =>
    rcases selects type rfl with all | ⟨name?, named⟩
    · simp only [selectAttributes, List.all_eq_true.mpr all]
      rfl
    · apply selectAttributes_of_naming
      rw [naming_eq, named]

theorem eq_error_of_not_selects (endless : ¬ m.Selects method filter) :
    ∃ type, filter = some type ∧ selectAttributes m method filter = .error (.endlessName type) := by
  simp only [Selects, not_forall, not_or, not_exists] at endless
  obtain ⟨type, rfl, some, unnamed⟩ := endless
  have circle : m.naming type = .error (.endlessName type) :=
    naming_eq_error_iff.mpr (Option.eq_none_iff_forall_ne_some.mpr unnamed)
  refine ⟨type, rfl, ?_⟩
  have others : ¬ (attributesOf m method none).all (derivesWithin m ·.type type) = true := by simpa using some
  simp only [selectAttributes, if_neg others, circle]
  rfl

end Module

/-- The attributes of a method are asked for, those of a type or all of them. Where they can be selected and all become objects,
    an array of these is returned in the order of the attributes: the objects are new and different from each other, and a cast of
    them to the type goes through. If the constructor of one throws an exception, the call throws that exception. Where they cannot
    be selected, the call does not end. -/
theorem attributes_are_new_objects {p : Program} (distinct : p.module.Distinct)
    (tables : ∀ t ∈ p.module.types, t.token.table = Token.typeDef) (reads : p.module.ReadsBases) (hosts : p.Retains)
    {frames : List Frame} {token method : Token} {row : MemberRef} {y : HeapRef} {rest : List Value} {filter : Option Token} {s : Machine}
    (found : p.module.imports.getMemberRef? token = some row) (name : row.name = "GetCustomAttributes")
    (describes : s.heap.get? y = some (.method method)) (asked : describedType s.heap rest[0]? = .ok filter) :
    (p.module.Selects method filter →
      (∀ xs t, p.MakesAll frames (attributesOf p.module method filter) s xs t → ∃ visits r t',
          p.Leads (settleAttempt p.module frames (callLibrary p frames.length token (.ref y :: rest)) s) visits
              (settle p.module frames (.done (.returned (.ref r))) t') ∧
            (∀ v ∈ visits, frames.length ≤ v.callers.length) ∧
            s.heap.get? r = none ∧ t'.heap.get? r = some (.array (xs.map Value.ref).toArray) ∧ xs.Nodup ∧
            List.Forall₂ (fun a x => s.heap.get? x = none ∧ t'.heap.get? x = some (.instance a.type) ∧
              ∀ type, filter = some type → t'.heap.Casts p.module x type) (attributesOf p.module method filter) xs) ∧
        ∀ before a behind xs t x e u, attributesOf p.module method filter = before ++ a :: behind →
          p.MakesAll frames before s xs t → p.Instantiates frames a t x (.threw e) u → ∃ visits,
            p.Leads (settleAttempt p.module frames (callLibrary p frames.length token (.ref y :: rest)) s) visits
                (settle p.module frames (.done (.threw e)) u) ∧
              ∀ v ∈ visits, frames.length ≤ v.callers.length) ∧
      (¬ p.module.Selects method filter → ∃ type, filter = some type ∧
        callLibrary p frames.length token (.ref y :: rest) s = .error (.execution (.endlessName type)) s) := by
  have called : callLibrary p frames.length token (.ref y :: rest) s =
      (do collect p frames.length #[] (← compute (selectAttributes p.module method filter))) s :=
    callLibrary_getCustomAttributes found name describes asked
  refine ⟨fun selects => ?_, fun endless => ?_⟩
  swap
  · obtain ⟨type, same, unnamed⟩ := Module.eq_error_of_not_selects endless
    rw [called, unnamed]
    exact ⟨type, same, rfl⟩
  replace called : callLibrary p frames.length token (.ref y :: rest) s =
      collect p frames.length #[] (attributesOf p.module method filter) s := by
    rw [called, selects.eq_ok]
    rfl
  rw [settleAttempt_eq, called, ← settleAttempt_eq]
  constructor
  · intro xs t makes
    obtain ⟨retains, unlike, objects⟩ := makes.fresh hosts
    obtain ⟨visits, leads, above⟩ := makes.returns distinct
    refine ⟨visits, _, _, leads, above, retains.none (by simp [Heap.get?, Heap.nextRef, Heap.size]), t.heap.get?_nextRef _,
      unlike, ?_⟩
    -- The objects that are found are of types that are of the type.
    have passes : ∀ a ∈ attributesOf p.module method filter, ∀ type, filter = some type →
        attributeIs p.module a.type type = true := by
      rintro a among type rfl
      exact attributeIs_of_mem_attributesOf among
    refine (List.forall₂_and_left _ _ |>.mpr ⟨passes, objects⟩).imp fun a x => ?_
    rintro ⟨is, missing, made⟩
    have there := Heap.get?_push made (.array (xs.map Value.ref).toArray)
    exact ⟨missing, there, fun type same =>
      Heap.casts_of_checkCast (checkCast_of_attributeIs distinct tables reads (is type same) there)⟩
  · intro before a behind xs t x e u whole makes throws
    obtain ⟨visits, leads, above⟩ := makes.leads distinct #[] (a :: behind)
    obtain ⟨visits', leads', above'⟩ := throws.leads distinct ((#[] : Array Value) ++ xs.map Value.ref) behind
    rw [whole]
    exact ⟨visits ++ visits', leads.trans leads', List.forall_mem_append.mpr ⟨above, above'⟩⟩

namespace Sample

/-- An attribute with a constructor that does nothing. -/
def noteAttribute : TypeDecl where
  name := ⟨"Sample", "NoteAttribute"⟩
  base := some (.external WellKnown.attributeBase)
  methods := [{ name := constructorName, body := some { code := .ofList [⟨.ret, .none⟩] } }]

/-- An attribute that derives from it and has no constructor. -/
def markAttribute : TypeDecl where
  name := ⟨"Sample", "MarkAttribute"⟩
  base := some (.definition (.ofParts Token.typeDef 1))

/-- A method with both attributes. -/
def marked : Method where
  name := "Marked"
  attributes := [{ type := .ofParts Token.typeDef 1 }, { type := .ofParts Token.typeDef 2 }]

/-- The module of the attributes and of the type with the method, with the rows to look them up. -/
def marks : Module :=
  let start : Module :=
    { name := "Sample"
      library := {
        types := [{ name := WellKnown.object, base := none }, { name := WellKnown.attributeBase, base := some WellKnown.object }] }
      imports := {
        typeRefs := #[WellKnown.attributeBase, WellKnown.memberInfo]
        memberRefs := #[⟨.ofParts Token.typeRef 2, "GetCustomAttributes", [WellKnown.type, WellKnown.boolean], true⟩] } }
  (((start.addType noteAttribute).1.addType markAttribute).1.addType { name := ⟨"Sample", "Host"⟩, methods := [marked] }).1

/-- The objects that describe the method and the base of all attributes. -/
def describing : Machine := { heap := ⟨#[.method (.ofParts Token.methodDef 2), .type (.ofParts Token.typeRef 1)]⟩ }

/-- The module under execution. -/
def marking : Program := { module := marks }

/-- Both attributes become objects. -/
theorem marking_makesAll :
    ∃ t, marking.MakesAll [] (attributesOf marks (.ofParts Token.methodDef 2) (some (.ofParts Token.typeRef 1))) describing
      [⟨3⟩, ⟨4⟩] t := by
  have listed : attributesOf marks (.ofParts Token.methodDef 2) (some (.ofParts Token.typeRef 1)) = marked.attributes := by
    have known : (marks.method? (.ofParts Token.methodDef 2)).map (·.2.attributes) = some marked.attributes := rfl
    obtain ⟨⟨t, d⟩, found, same⟩ := Option.map_eq_some_iff.mp known
    unfold attributesOf
    rw [found]
    refine (List.filter_eq_self.mpr fun a among => ?_).trans same
    rw [same] at among
    revert a
    decide +kernel
  rw [listed]
  have constructs : marking.Comes [] (callDefinition marking 0 (.ofParts Token.methodDef 1) [.ref ⟨3⟩])
      { describing with heap := describing.heap.push (.instance (.ofParts Token.typeDef 1)) } (.returned .void) _ :=
    .body rfl (.ended fun _ => rfl)
  exact ⟨_, .cons (.constructor rfl rfl rfl constructs) (.cons (.plain rfl rfl rfl rfl) (.nil _))⟩

theorem marks_distinct : marks.Distinct := ⟨by decide +kernel, by decide +kernel⟩

theorem marks_tables : ∀ t ∈ marks.types, t.token.table = Token.typeDef := by
  have all : (marks.types.all fun t => t.token.table == Token.typeDef) = true := by decide +kernel
  simpa using List.all_eq_true.mp all

theorem marks_readsBases : marks.ReadsBases := by
  intro t listed name outside
  have bases : marks.types.map (·.base) =
      [some (.external (.parse "System.Attribute")), some (.definition (.ofParts Token.typeDef 1)), none] := by decide +kernel
  have among : some (.external name) ∈ marks.types.map (·.base) := outside ▸ List.mem_map_of_mem listed
  rw [bases] at among
  exact ⟨"System.Attribute", by simpa using among⟩

/-- Nothing outside answers, so nothing outside touches the heap. -/
theorem marking_retains : marking.Retains := by simp [marking, Program.Retains]

/-- The name of the base is known, so the question which attributes are of it has an answer. -/
theorem marks_selects : marks.Selects (.ofParts Token.methodDef 2) (some (.ofParts Token.typeRef 1)) := by
  intro type same
  cases same
  rw [Module.nameToken.eq_def]
  exact .inr ⟨_, rfl⟩

/-- The attributes of the method are asked for. -/
theorem marked_attributes_are_new :
    marks.Distinct ∧ marks.ReadsBases ∧ ∃ visits r t',
      marking.Leads (settleAttempt marks [] (callLibrary marking 0 (.ofParts Token.memberRef 1) [.ref ⟨1⟩, .ref ⟨2⟩]) describing) visits
          (.ok (.finished (.returned (.ref r))) t') ∧
        t'.heap.get? r = some (.array #[.ref ⟨3⟩, .ref ⟨4⟩]) ∧ t'.heap.Casts marks ⟨4⟩ (.ofParts Token.typeRef 1) := by
  obtain ⟨t, makes⟩ := marking_makesAll
  obtain ⟨visits, r, t', leads, -, -, array, -, objects⟩ :=
    ((@attributes_are_new_objects marking marks_distinct marks_tables marks_readsBases marking_retains [] (.ofParts Token.memberRef 1)
      (.ofParts Token.methodDef 2) _ ⟨1⟩ [.ref ⟨2⟩] _ describing rfl rfl rfl rfl).1 marks_selects).1 _ t makes
  refine ⟨marks_distinct, marks_readsBases, visits, r, t', leads, array, ?_⟩
  obtain ⟨a, -, -, -, casts⟩ := exists_paired_left objects ⟨4⟩ (by simp)
  exact casts _ rfl

/-- The module with a row for the array of what the row itself stands for. -/
def circling : Program :=
  { module := { marks with imports := { marks.imports with typeSpecs := #[.array (.classType (.ofParts Token.typeSpec 1))] } } }

/-- The objects that describe the method and the type of the row. -/
def circlingTypes : Machine := { heap := ⟨#[.method (.ofParts Token.methodDef 2), .type (.ofParts Token.typeSpec 1)]⟩ }

/-- None of the attributes is of the type of such a row, so no constructor is asked for. But they are not told to be none. -/
theorem circling_has_no_answer :
    circling.module.Distinct ∧ (∀ t ∈ circling.module.types, t.token.table = Token.typeDef) ∧ circling.module.ReadsBases ∧
      describedType circlingTypes.heap (some (.ref ⟨2⟩)) = .ok (some (.ofParts Token.typeSpec 1)) ∧
      circling.MakesAll [] (attributesOf circling.module (.ofParts Token.methodDef 2) (some (.ofParts Token.typeSpec 1)))
        circlingTypes [] circlingTypes ∧
      circling.module.nameToken (.ofParts Token.typeSpec 1) = none ∧
      callLibrary circling 0 (.ofParts Token.memberRef 1) [.ref ⟨1⟩, .ref ⟨2⟩] circlingTypes =
        .error (.execution (.endlessName (.ofParts Token.typeSpec 1))) circlingTypes := by
  refine ⟨⟨marks_distinct.types, marks_distinct.methods⟩, marks_tables, marks_readsBases, rfl, ?_,
    Module.naming_eq_error_iff.mp rfl, rfl⟩
  have none : attributesOf circling.module (.ofParts Token.methodDef 2) (some (.ofParts Token.typeSpec 1)) = [] := rfl
  rw [none]
  exact .nil _

end Sample

end AspectWeaving

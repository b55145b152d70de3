import AspectWeaving.Proofs.BaseChains
import AspectWeaving.Proofs.ImportGrowth
import AspectWeaving.Proofs.VirtualCalls
import AspectWeaving.Proofs.WeaveOrder

/-!
The hooks of decorators. A hook is the first method along the bases of a decorator, in the module and then in the library,
that has the name and the types of parameters that are asked for (`Module.Finds`), with the types compared by name. So a call
of it names these parameters; but nothing asks whether it is called on an object, and a call in woven code, which has pushed
one, takes all that has been pushed just where it is (`hooks_of_decorators`). A static method becomes a hook like any other
(`Sample.fixed_becomes_hook`).
-/
namespace AspectWeaving

/-! ### What is asked for -/

/-- The name of a hook. -/
def HookCall.name : HookCall → String
  | .onEntry => "OnEntry"
  | .onExit => "OnExit"
  | .onException _ => "OnException"

/-- The names of the types of the parameters of a hook. -/
def HookCall.types : HookCall → List String
  | .onEntry => [WellKnown.methodBase.fullName, WellKnown.objectArray.fullName]
  | .onExit => [WellKnown.object.fullName, WellKnown.methodBase.fullName, WellKnown.objectArray.fullName]
  | .onException _ => [WellKnown.exception.fullName, WellKnown.methodBase.fullName, WellKnown.objectArray.fullName]

/-- The description that a hook is looked for with. -/
def HookCall.query (hook : HookCall) : MethodQuery := ({ name := hook.name } : MethodQuery).withTypes hook.types

theorem HookCall.length_types (hook : HookCall) : hook.types.length = hook.parameters := by cases hook <;> rfl

/-- A method of the module has a name and types of parameters. -/
def Module.asks (m : Module) (name : String) (types : List String) (d : MethodDef) : Bool :=
  d.name == name && d.parameters.map (fun p => m.sigName? p.sig) == types.map some

/-- A method of the library has a name and types of parameters. -/
def LibraryMethod.asks (name : String) (types : List String) (d : LibraryMethod) : Bool :=
  d.name == name && d.parameters.map (·.fullName) == types

theorem all_zip_iff {types : List String} {parameters : List (Option String)} (lengths : types.length = parameters.length) :
    ((types.zip parameters).all fun (asked, actual) => actual == some asked) = true ↔ parameters = types.map some := by
  induction types generalizing parameters with
  | nil => simp [List.length_eq_zero_iff.mp lengths.symm]
  | cons type types ih =>
    cases parameters with
    | nil => cases lengths
    | cons parameter parameters =>
      rw [List.zip_cons_cons, List.all_cons, Bool.and_eq_true, beq_iff_eq, ih (Nat.succ.inj lengths), List.map_cons, List.cons.injEq]

/-- A description with types asks for just these. -/
theorem MethodQuery.accepts_withTypes {name name' : String} {types : List String} {parameters : List (Option String)} :
    (({ name } : MethodQuery).withTypes types).accepts name' parameters = (name' == name && parameters == types.map some) := by
  rw [Bool.eq_iff_iff]
  unfold accepts withTypes
  simp only [Option.all_some, Bool.and_eq_true, beq_iff_eq, and_assoc]
  refine and_congr_right fun _ => ?_
  constructor
  · rintro ⟨lengths, all⟩
    exact (all_zip_iff lengths).mp all
  · rintro rfl
    have lengths : types.length = (types.map some).length := (List.length_map _).symm
    exact ⟨lengths, (all_zip_iff lengths).mpr rfl⟩

/-! ### Where methods are found -/

section Found

variable {m m' : Module} {type token : Token} {name : String} {types : List String} {rows rows' t u : ImportTable} {this : Bool}
  {d : MethodDef} {base : TypeName}

/-- The methods of a type of the module and of its bases there, those of the nearest first. -/
def Module.baseMethods (m : Module) (type : Token) : List MethodDef := (m.bases type).flatMap (·.methods)

/-- The methods of a type of the library and of its bases, those of the nearest first. -/
def Library.baseMethods (l : Library) (name : TypeName) : List LibraryMethod := (l.baseChain name).flatMap (·.methods)

/-- A token is that of the first method along the bases of a type that has a name and types of parameters, in the module or, if
    there is none, in the library. The method is called on objects or not. -/
inductive Module.Finds (m : Module) (type : Token) (name : String) (types : List String) (rows : ImportTable) : Token → Bool → Prop
  | own {d : MethodDef} (first : (m.baseMethods type).find? (m.asks name types) = some d) :
      Finds m type name types rows d.token d.hasThis
  | library {base : TypeName} {d : LibraryMethod} {parent token : Token} (none : (m.baseMethods type).find? (m.asks name types) = none)
      (leaves : (Definitions.ofModule m).externalBase? type = some base)
      (first : (m.library.baseMethods base).find? (·.asks name types) = some d)
      (names : rows.NamesMember token { parent, name := d.name, parameters := d.parameters, hasThis := d.hasThis }) :
      Finds m type name types rows token d.hasThis

theorem Module.Finds.mono (finds : m.Finds type name types rows token this) (grows : rows.Grows rows') :
    m.Finds type name types rows' token this := by
  cases finds with
  | own first => exact .own first
  | library none leaves first names => exact .library none leaves first (names.mono grows)

theorem Resolver.findOwnMethod?_withTypes (m : Module) (type : Token) (name : String) (types : List String) :
    (ofModule m).findOwnMethod? type (({ name } : MethodQuery).withTypes types) =
      ((m.baseMethods type).find? (m.asks name types)).map (Definitions.methodEntry m) := by
  have own : (fun d => (({ name } : MethodQuery).withTypes types).acceptsEntry (Definitions.methodEntry m d)) = m.asks name types :=
    funext fun d => MethodQuery.accepts_withTypes
  unfold Module.baseMethods
  rw [List.find?_flatMap, ← own]
  exact findOwnMethod?_eq m.library m type _

theorem Resolver.findLibraryMethod?_snd (r : Resolver) (base : TypeName) (name : String) (types : List String) :
    (r.findLibraryMethod? base (({ name } : MethodQuery).withTypes types)).map (·.2) =
      (r.library.baseMethods base).find? (·.asks name types) := by
  have own : ∀ d : LibraryMethod, (({ name } : MethodQuery).withTypes types).acceptsLibrary d = d.asks name types := fun d => by
    have some : d.parameters.map (fun t => some t.fullName) = (d.parameters.map (·.fullName)).map some := by simp
    rw [Bool.eq_iff_iff]
    unfold MethodQuery.acceptsLibrary LibraryMethod.asks
    rw [MethodQuery.accepts_withTypes, some]
    simp only [Bool.and_eq_true, beq_iff_eq, List.map_inj_right (fun _ _ => Option.some.inj)]
  unfold findLibraryMethod? Library.baseMethods
  rw [List.find?_flatMap, List.map_findSome?]
  congr 1
  funext t
  simp only [Function.comp_apply, Option.map_map, Function.comp_def, Option.map_id', funext own]

/-- A type or one of its bases, in the module or in the library, has a method of a name and types of parameters. -/
def Module.provides (m : Module) (type : Token) (name : String) (types : List String) : Bool :=
  (m.baseMethods type).any (m.asks name types) ||
    ((Definitions.ofModule m).externalBase? type).any fun base => (m.library.baseMethods base).any (·.asks name types)

theorem Resolver.exists_importMethod (found : LibraryType × LibraryMethod) (t : ImportTable) :
    ∃ token u parent, importMethod found t = .ok token u ∧
      u.NamesMember token { parent, name := found.2.name, parameters := found.2.parameters, hasThis := found.2.hasThis } :=
  ⟨_, _, _, rfl, _, getElem?_intern_self .., rfl⟩

/-- What a look-up of a method in a type of the module comes to. -/
theorem Resolver.resolveMethod_cases (known : (m.typeDef? type).isSome) (name : String) (types : List String) (t : ImportTable) :
    (∃ token u this, (ofModule m).resolveMethod (.definition type) (({ name } : MethodQuery).withTypes types) t = .ok token u ∧
      m.Finds type name types u token this ∧ m.provides type name types = true) ∨
    (∃ fault, (ofModule m).resolveMethod (.definition type) (({ name } : MethodQuery).withTypes types) t = .error fault t) ∧
      m.provides type name types = false := by
  have there : ((ofModule m).definitions.get? type).isNone = false := by
    rw [show (ofModule m).definitions = .ofModule m from rfl, Definitions.get?_ofModule]
    simpa using known
  have own := findOwnMethod?_withTypes m type name types
  unfold Module.provides
  rw [← List.isSome_find?]
  simp only [resolveMethod, there]
  cases found : (m.baseMethods type).find? (m.asks name types) with
  | some d =>
    rw [found] at own
    rw [own]
    exact .inl ⟨_, _, _, rfl, .own found, rfl⟩
  | none =>
    rw [found] at own
    rw [own]
    cases leaves : (Definitions.ofModule m).externalBase? type with
    | none =>
      rw [show (ofModule m).definitions.externalBase? type = none from leaves]
      exact .inr ⟨⟨_, rfl⟩, rfl⟩
    | some base =>
      have library := (ofModule m).findLibraryMethod?_snd base name types
      rw [show (ofModule m).definitions.externalBase? type = some base from leaves, Option.any_some, ← List.isSome_find?,
        show m.library.baseMethods base = (ofModule m).library.baseMethods base from rfl, ← library]
      simp only [Option.map_none, Bool.false_eq_true, if_false, resolveLibraryMethod]
      cases here : (ofModule m).findLibraryMethod? base (({ name } : MethodQuery).withTypes types) with
      | none => exact .inr ⟨⟨_, rfl⟩, rfl⟩
      | some method =>
        rw [here] at library
        obtain ⟨token, u, parent, imported, names⟩ := exists_importMethod method t
        exact .inl ⟨token, u, _, imported, .library found leaves library.symm names, rfl⟩

end Found

/-! ### Hooks of a type -/

section Hooks

variable {m : Module} {policy : Policy} {t u : ImportTable} {type : TypeDef} {kind : DecoratorKind} {token : Token} {w : Workspace}

theorem importing_bind_of_ok {α β : Type} {x : Importing α} {f : α → Importing β} {a : α} (done : x t = .ok a u) :
    (x >>= f) t = f a u := by
  simp only [bind, EStateM.bind, done]

theorem importing_bind_of_error {α β : Type} {x : Importing α} {f : α → Importing β} {fault : Fault} (failed : x t = .error fault u) :
    (x >>= f) t = .error fault u := by
  simp only [bind, EStateM.bind, failed]

/-- A type has all hooks, itself or from a base. -/
def Module.providesHooks (m : Module) (type : Token) : Bool :=
  [HookCall.onEntry, .onExit, .onException .null].all fun hook => m.provides type hook.name hook.types

theorem Module.providesHooks_iff : m.providesHooks token = true ↔ ∀ hook : HookCall, m.provides token hook.name hook.types = true := by
  unfold providesHooks
  simp only [List.all_cons, List.all_nil, Bool.and_true, Bool.and_eq_true]
  constructor
  · rintro ⟨entry, exit, failure⟩ hook
    cases hook
    · exact entry
    · exact exit
    · exact failure
  · exact fun all => ⟨all _, all _, all _⟩

/-- The hooks of a decorator are where they are looked for, in terms of some rows. -/
def DecoratorKind.Hooked (kind : DecoratorKind) (m : Module) (rows : ImportTable) : Prop :=
  ∀ hook : HookCall, ∃ this, m.Finds kind.attributeType hook.name hook.types rows (kind.hook hook) this

theorem DecoratorKind.Hooked.mono (hooked : kind.Hooked m t) (grows : t.Grows u) : kind.Hooked m u := fun hook => by
  obtain ⟨this, finds⟩ := hooked hook
  exact ⟨this, finds.mono grows⟩

/-- What the look-up of the hooks of a type comes to. -/
theorem Resolver.decoratorKind_cases (known : (m.typeDef? type.token).isSome) (t : ImportTable) :
    (∃ kind u, (ofModule m).decoratorKind (Definitions.entry m type) t = .ok kind u ∧ kind.attributeType = type.token ∧
      kind.name = type.fullName ∧ kind.Hooked m u ∧ m.providesHooks type.token = true) ∨
    (∃ fault u, (ofModule m).decoratorKind (Definitions.entry m type) t = .error fault u) ∧ m.providesHooks type.token = false := by
  have missing : ∀ hook : HookCall, m.provides type.token hook.name hook.types = false → m.providesHooks type.token = false :=
    fun hook none => by
      rw [Bool.eq_false_iff]
      intro all
      exact Bool.eq_false_iff.mp none (Module.providesHooks_iff.mp all hook)
  have look : ∀ (hook : HookCall) (t : ImportTable),
      (∃ token u this, (ofModule m).resolveMethod (.definition type.token) hook.query t = .ok token u ∧
        m.Finds type.token hook.name hook.types u token this ∧ m.provides type.token hook.name hook.types = true) ∨
      (∃ fault, (ofModule m).resolveMethod (.definition type.token) hook.query t = .error fault t) ∧
        m.provides type.token hook.name hook.types = false := fun hook => resolveMethod_cases known hook.name hook.types
  have entered : (ofModule m).decoratorKind (Definitions.entry m type) t =
    ((ofModule m).resolveMethod (.definition type.token) (HookCall.onEntry.query) >>= fun onEntry =>
      (ofModule m).resolveMethod (.definition type.token) (HookCall.onExit.query) >>= fun onExit =>
        (ofModule m).resolveMethod (.definition type.token) ((HookCall.onException .null).query) >>= fun onException =>
          pure { attributeType := type.token, name := type.fullName, onEntry, onExit, onException }) t := rfl
  rw [entered]
  rcases look .onEntry t with ⟨onEntry, t₁, this₁, entry, finds₁, provides₁⟩ | ⟨⟨fault, failed⟩, none⟩
  · rw [importing_bind_of_ok entry]
    have grows₁ := (extends_resolveMethod (ofModule m) _ _).ok entry
    rcases look .onExit t₁ with ⟨onExit, t₂, this₂, exit, finds₂, provides₂⟩ | ⟨⟨fault, failed⟩, none⟩
    · rw [importing_bind_of_ok exit]
      have grows₂ := (extends_resolveMethod (ofModule m) _ _).ok exit
      rcases look (.onException .null) t₂ with ⟨onException, t₃, this₃, failure, finds₃, provides₃⟩ | ⟨⟨fault, failed⟩, none⟩
      · rw [importing_bind_of_ok failure]
        have grows₃ := (extends_resolveMethod (ofModule m) _ _).ok failure
        refine .inl ⟨_, t₃, rfl, rfl, rfl, fun hook => ?_, Module.providesHooks_iff.mpr fun hook => ?_⟩
        · cases hook with
          | onEntry => exact ⟨_, finds₁.mono (grows₂.trans grows₃)⟩
          | onExit => exact ⟨_, finds₂.mono grows₃⟩
          | onException => exact ⟨_, finds₃⟩
        · cases hook with
          | onEntry => exact provides₁
          | onExit => exact provides₂
          | onException => exact provides₃
      · exact .inr ⟨⟨fault, t₂, importing_bind_of_error failed⟩, missing _ none⟩
    · exact .inr ⟨⟨fault, t₁, importing_bind_of_error failed⟩, missing _ none⟩
  · exact .inr ⟨⟨fault, t, importing_bind_of_error failed⟩, missing _ none⟩

/-- A type may be a decorator, as far as its bases go. -/
def Module.isCandidate (m : Module) (policy : Policy) (t : TypeDef) : Bool :=
  !t.flags.isAbstract && (Resolver.ofModule m).reachesMarker policy (Definitions.entry m t)

/-- A type is a decorator. -/
def Module.isDecorator (m : Module) (policy : Policy) (t : TypeDef) : Bool := m.isCandidate policy t && m.providesHooks t.token

/-- What the first of some types comes to: it is passed over, it is a decorator, or it lacks hooks and is warned of. -/
theorem kindsAmong_cases (policy : Policy) {t : TypeDef} (known : (m.typeDef? t.token).isSome) (rest : List DefinitionEntry) (w : Workspace) :
    (kindsAmong (.ofModule m) policy (Definitions.entry m t :: rest) w = kindsAmong (.ofModule m) policy rest w ∧
      m.isCandidate policy t = false) ∨
    (∃ kind u, kindsAmong (.ofModule m) policy (Definitions.entry m t :: rest) w =
        (kind :: (kindsAmong (.ofModule m) policy rest { w with imports := u }).1,
          (kindsAmong (.ofModule m) policy rest { w with imports := u }).2) ∧
      kind.attributeType = t.token ∧ kind.name = t.fullName ∧ kind.Hooked m u ∧
        m.isCandidate policy t = true ∧ m.providesHooks t.token = true) ∨
    ∃ u d, kindsAmong (.ofModule m) policy (Definitions.entry m t :: rest) w =
        kindsAmong (.ofModule m) policy rest (Weaving.report d { w with imports := u }).2 ∧
      d.severity = .warning ∧ d.token = some t.token ∧ m.isCandidate policy t = true ∧ m.providesHooks t.token = false := by
  have passed : ((Definitions.entry m t).isAbstract || !(Resolver.ofModule m).reachesMarker policy (Definitions.entry m t)) =
      !m.isCandidate policy t := by
    simp [Module.isCandidate, Definitions.entry]
  rw [kindsAmong, passed]
  cases candidate : m.isCandidate policy t with
  | false => exact .inl ⟨rfl, rfl⟩
  | true =>
    rw [if_neg (by simp), Weaving.bind_apply, Weaving.attempt_apply]
    rcases Resolver.decoratorKind_cases known w.imports with
      ⟨kind, u, made, type, name, hooked, provides⟩ | ⟨⟨fault, u, failed⟩, none⟩
    · rw [made]
      exact .inr (.inl ⟨kind, u, rfl, type, name, hooked, rfl, provides⟩)
    · rw [failed]
      exact .inr (.inr ⟨u, _, rfl, rfl, rfl, rfl, none⟩)

/-- The decorators among some types are those of them that are decorators, each with its hooks. -/
theorem kindsAmong_made {types : List TypeDef} (known : ∀ t ∈ types, (m.typeDef? t.token).isSome) (w : Workspace) :
    List.Forall₂ (fun (t : TypeDef) kind => kind.attributeType = t.token ∧ kind.name = t.fullName ∧
        kind.Hooked m (kindsAmong (.ofModule m) policy (types.map (Definitions.entry m)) w).2.imports)
      (types.filter (m.isDecorator policy)) (kindsAmong (.ofModule m) policy (types.map (Definitions.entry m)) w).1 := by
  induction types generalizing w with
  | nil => exact .nil
  | cons t rest ih =>
    have later := ih fun u member => known u (List.mem_cons_of_mem _ member)
    rw [List.map_cons]
    rcases kindsAmong_cases policy (known t List.mem_cons_self) (rest.map (Definitions.entry m)) w with
      ⟨same, none⟩ | ⟨kind, u, made, type, name, hooked, candidate, provides⟩ | ⟨u, d, same, -, -, -, none⟩
    · rw [same, List.filter_cons_of_neg (by simp [Module.isDecorator, none])]
      exact later w
    · rw [made, List.filter_cons_of_pos (by simp [Module.isDecorator, candidate, provides])]
      have grows := (composed_kindsAmong (.ofModule m) policy (rest.map (Definitions.entry m))).grows { w with imports := u }
      exact .cons ⟨type, name, hooked.mono grows⟩ (later { w with imports := u })
    · rw [same, List.filter_cons_of_neg (by simp [Module.isDecorator, none])]
      exact later _

/-- The decorators of a module have their hooks where these are looked for. -/
theorem Module.hooked_of_decorator (member : kind ∈ m.decorators policy) :
    kind.Hooked m (decoratorKinds (.ofModule m) policy (m.workspace policy)).2.imports := by
  have known : ∀ t ∈ m.types, (m.typeDef? t.token).isSome := fun t listed =>
    List.find?_isSome.mpr ⟨t, listed, by simp⟩
  unfold Module.decorators at member
  unfold decoratorKinds at member ⊢
  split at member
  · cases member
  · rename_i available
    rw [if_neg available]
    obtain ⟨t, -, -, -, hooked⟩ := exists_paired_left (kindsAmong_made known (m.workspace policy)) kind member
    exact hooked

end Hooks

/-! ### Calls of hooks -/

section Calls

variable {m m' : Module} {policy : Policy} {woven : List Token} {type token : Token} {name : String} {types : List String} {this : Bool}
  {kind : DecoratorKind}

/-- A method that is found has the name and as many parameters as are asked for, also when the module has been woven. -/
theorem Module.Finds.callShape (finds : m.Finds type name types m'.imports token this) (distinct : m.Distinct)
    (methods : ∀ e ∈ m.methods, e.2.token.table = Token.methodDef) (revised : m.Revised woven m')
    (room : m'.imports.memberRefs.size ≤ ImportTable.maxRows) : m'.callShape token = .ok ⟨name, types.length, this⟩ := by
  cases finds with
  | @own d first =>
    obtain ⟨u, above, listed⟩ := List.mem_flatMap.mp (List.mem_of_find?_eq_some first)
    have inside : u ∈ m.types := forall_mem_chain (P := (· ∈ m.types)) (fun _ _ _ => mem_types_of_ownBase?) _ _
      (fun _ found => List.mem_of_find?_eq_some found) u above
    obtain ⟨u', inside', type⟩ := exists_paired_right revised.types u inside
    obtain ⟨d', listed', method⟩ := exists_paired_right type.methods d listed
    have same : d'.token = d.token ∧ d'.name = d.name ∧ d'.parameters = d.parameters ∧ d'.hasThis = d.hasThis := by
      rw [method.frame]
      exact ⟨rfl, rfl, rfl, rfl⟩
    obtain ⟨token, named, parameters, object⟩ := same
    have table : d'.token.table = Token.methodDef := token ▸ methods (u, d) (List.mem_flatMap.mpr ⟨u, inside, List.mem_map_of_mem listed⟩)
    have shaped := callShape_of_method? table ((distinct.revised revised).method? inside' listed')
    obtain ⟨asked, typed⟩ : d.name = name ∧ d.parameters.map (fun p => m.sigName? p.sig) = types.map some := by
      simpa [asks] using List.find?_some first
    have count := congrArg List.length typed
    rw [List.length_map, List.length_map] at count
    rw [← token, shaped, named, parameters, object, asked, count]
  | library none leaves first names =>
    rename_i base d parent
    obtain ⟨asked, typed⟩ : d.name = name ∧ d.parameters.map (·.fullName) = types := by
      simpa [LibraryMethod.asks] using List.find?_some first
    have count := congrArg List.length typed
    rw [List.length_map] at count
    unfold callShape
    rw [names.table, if_neg (by decide), if_pos rfl, names.getMemberRef? room, Option.map_some, asked, count]

/-- Every decorator of a module has its hooks as methods of their names with just the types of parameters that they are to have,
    the first such along its bases. A call of one in woven code, which has pushed an object and all that the hook is told,
    takes just these values off the stack if the hook is called on objects; otherwise the object stays there. -/
theorem hooks_of_decorators (distinct : m.Distinct) (methods : ∀ e ∈ m.methods, e.2.token.table = Token.methodDef)
    (member : kind ∈ m.decorators policy) (revised : m.Revised woven m')
    (grows : (decoratorKinds (.ofModule m) policy (m.workspace policy)).2.imports.Grows m'.imports)
    (room : m'.imports.memberRefs.size ≤ ImportTable.maxRows) (hook : HookCall) :
    (∀ w : Weave, (w.passage hook).depth (w.passage hook).loads.length = hook.types.length) ∧
    ∃ this, m.Finds kind.attributeType hook.name hook.types m'.imports (kind.hook hook) this ∧
      m'.callShape (kind.hook hook) = .ok ⟨hook.name, hook.types.length, this⟩ ∧
      ∀ (f : Frame) (s : Machine) (a : HeapRef) (told rest : List Value), told.length = hook.types.length →
        f.stack = (.ref a :: told).reverse ++ rest →
          (this = true → step m' f ⟨.callvirt, .method (kind.hook hook)⟩ s = .ok (rest, .call (kind.hook hook) (.ref a :: told) true) s) ∧
          (this = false → ∀ b others, told = .ref b :: others →
            step m' f ⟨.callvirt, .method (kind.hook hook)⟩ s = .ok (.ref a :: rest, .call (kind.hook hook) told true) s) := by
  refine ⟨fun w => (w.depth_passage hook).trans hook.length_types.symm, ?_⟩
  obtain ⟨this, finds⟩ := (Module.hooked_of_decorator member).mono grows hook
  have shaped := finds.callShape distinct methods revised room
  refine ⟨this, finds, shaped, fun f s a told rest count pushed => ⟨?_, ?_⟩⟩
  · rintro rfl
    exact step_call (.ref a :: told) rest (.refl _) rfl rfl shaped (congrArg Nat.succ count) pushed
      fun _ : true = true => ⟨a, told, rfl⟩
  · rintro rfl b others rfl
    refine step_call (.ref b :: others) (.ref a :: rest) (.refl _) rfl rfl shaped count ?_ fun _ : true = true => ⟨b, others, rfl⟩
    rw [pushed]
    simp

end Calls

namespace Sample

set_option maxRecDepth 100000 in
/-- The hooks of the decorator take what they are told. -/
theorem logger_hooked :
    ∃ this, module.callShape kind.onEntry = .ok ⟨"OnEntry", 2, this⟩ ∧
      module.Finds kind.attributeType "OnEntry" ["System.Reflection.MethodBase", "System.Object[]"] module.imports kind.onEntry this := by
  have member : kind ∈ module.decorators {} := by decide +kernel
  have rows : (decoratorKinds (.ofModule module) {} (module.workspace {})).2.imports = module.imports := by decide +kernel
  have distinct : module.Distinct :=
    ⟨show (module.types.map (·.token)).Nodup by decide +kernel,
      show (module.types.flatMap fun t => t.methods.map (·.token)).Nodup by decide +kernel⟩
  have methods : ∀ e ∈ module.methods, e.2.token.table = Token.methodDef := by decide +kernel
  obtain ⟨-, this, finds, shaped, -⟩ := hooks_of_decorators distinct methods member (Module.Revised.refl [] module)
    (rows ▸ ImportTable.Grows.refl _) (by decide) .onEntry
  exact ⟨this, shaped, finds⟩

/-- The decorator with a first hook that is called on no object. -/
def fixed : TypeDecl :=
  { logger with methods := logger.methods.map fun d => if d.name = "OnEntry" then { d with modifiers := { isStatic := true } } else d }

/-- The module of this decorator and of the type with the method. -/
def fixedModule : Module :=
  let start : Module := { name := "Sample", library := .standard, imports := rows }
  ((start.addType fixed).1.addType { name := ⟨"Sample", "Host"⟩, methods := [echo.toMethod] }).1

/-- The woven module under execution, with hooks that return at once. -/
def fixedProgram : Program where
  module := (weaveModule fixedModule {}).1
  hostMethods := [kind.onEntry, kind.onExit, kind.onException].map fun token => (token, fun _ => pure (.returned .void))

/-- The numbers of arguments that calls of a hook have in a call of a method that returns. -/
def told (p : Program) (hook method : Token) (arguments : List Value) : Option (List Nat) :=
  match p.invoke method arguments {} with
  | .ok (.returned _) s => some ((s.hostCalls.toList.filter (·.method == hook)).map (·.arguments.length))
  | _ => none

set_option maxRecDepth 100000 in
/-- The static method is a hook of the decorator, whose woven code pushes three values for it, of which the call takes two. -/
theorem fixed_becomes_hook :
    fixedModule.decorators {} = [kind] ∧
      ((fixedModule.method? kind.onEntry).map fun e => (e.2.modifiers.isStatic, e.2.hasThis)) = some (true, false) ∧
      (weaveModule fixedModule {}).2.woven = [echo.token] ∧
      told fixedProgram kind.onEntry echo.token [.int32 7] = some [2] ∧ told fixedProgram kind.onExit echo.token [.int32 7] = some [4] := by
  decide +kernel

end Sample

end AspectWeaving

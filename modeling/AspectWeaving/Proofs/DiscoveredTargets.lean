import AspectWeaving.Proofs.DecoratorHooks

/-!
What is discovered. A type is a decorator if it is not abstract, reaches the marker and has all hooks, itself or from a base
(`Module.Distinct.decorates_iff`). The targets are the attributes of the types of decorators on methods with bodies, in order:
types, then methods, then attributes. There is a warning for each type that lacks nothing but hooks, and then one for each such
attribute on a method without a body (`discover_exact`). A marker that is neither in the module nor in the library has no
decorators, also where a type has it for its base (`Sample.vendor_undiscovered`).
-/
namespace AspectWeaving

/-! ### Warnings -/

/-- The tokens of the warnings of a workspace. -/
def Workspace.warned (w : Workspace) : List (Option Token) := (w.diagnostics.ofSeverity .warning).map (·.token)

section Warnings

variable {w : Workspace} {d : Diagnostic}

theorem Diagnostics.warnings_push {ds : Diagnostics} (severity : d.severity = .warning) :
    (ds.push d).ofSeverity .warning = ds.ofSeverity .warning ++ [d] := by
  simp [push, ofSeverity, severity]

theorem Workspace.warned_report (severity : d.severity = .warning) : (Weaving.report d w).2.warned = w.warned ++ [d.token] := by
  have pushed : (Weaving.report d w).2.diagnostics = w.diagnostics.push d := rfl
  unfold warned
  rw [pushed, Diagnostics.warnings_push severity, List.map_append]
  rfl

/-- Information is no warning. -/
theorem Workspace.warned_info (category : Category) (message : String) : (Weaving.info category message w).2.warned = w.warned := by
  have pushed : (Weaving.info category message w).2.diagnostics = w.diagnostics.push { severity := .info, category, message } := rfl
  unfold warned Diagnostics.ofSeverity
  rw [pushed, Diagnostics.push]
  split <;> simp

end Warnings

/-! ### Decorators -/

/-- A type reaches the marker of a policy: it is another type that has the marker for a base, if the module defines that, and
    else the library has the base at which it leaves the module, and that is the marker or derives from it there. -/
def Module.ReachesMarker (m : Module) (policy : Policy) (t : TypeDef) : Prop :=
  match (Resolver.ofModule m).markerDefinition? policy with
  | some marker => t.token ≠ marker ∧ ∃ u, m.Reaches t u ∧ u.token = marker
  | none => ∃ u base b x, m.Reaches t u ∧ u.baseLocator = .external base ∧ m.library.get? base = some b ∧ m.library.Reaches b x ∧
      x.name = policy.marker

/-- A type or one of its bases has a hook. -/
def Module.HasHook (m : Module) (t : TypeDef) (hook : HookCall) : Prop :=
  (∃ u, m.Reaches t u ∧ ∃ d ∈ u.methods, m.asks hook.name hook.types d = true) ∨
    ∃ u base b x, m.Reaches t u ∧ u.baseLocator = .external base ∧ m.library.get? base = some b ∧ m.library.Reaches b x ∧
      ∃ d ∈ x.methods, d.asks hook.name hook.types = true

section Decorators

variable {m : Module} {policy : Policy} {t : TypeDef}

theorem Module.providesHooks_iff_hasHook (found : m.typeDef? t.token = some t) :
    m.providesHooks t.token = true ↔ ∀ hook, m.HasHook t hook := by
  rw [providesHooks_iff]
  refine forall_congr' fun hook => ?_
  unfold provides HasHook baseMethods Library.baseMethods
  simp only [Bool.or_eq_true, List.any_flatMap, List.any_eq_true, Option.any_eq_true, mem_bases_iff found,
    Definitions.externalBase?_ofModule found, Library.mem_baseChain_iff]
  refine or_congr Iff.rfl ?_
  constructor
  · rintro ⟨base, ⟨u, reached, leaves⟩, x, ⟨b, there, above⟩, own⟩
    exact ⟨u, base, b, x, reached, leaves, there, above, own⟩
  · rintro ⟨u, base, b, x, reached, leaves, there, above, own⟩
    exact ⟨base, ⟨u, reached, leaves⟩, x, ⟨b, there, above⟩, own⟩

theorem Module.reachesMarker_iff (found : m.typeDef? t.token = some t) :
    (Resolver.ofModule m).reachesMarker policy (Definitions.entry m t) = true ↔ m.ReachesMarker policy t := by
  unfold Resolver.reachesMarker ReachesMarker
  cases (Resolver.ofModule m).markerDefinition? policy with
  | some marker =>
    simp only [Bool.and_eq_true, bne_iff_ne, Definitions.entry, Resolver.ofModule, Definitions.derivesFrom_ofModule found]
  | none =>
    simp only [Option.any_eq_true, Definitions.entry, Resolver.ofModule, Definitions.externalBase?_ofModule found, Library.derivesFrom_iff]
    constructor
    · rintro ⟨base, ⟨u, reached, leaves⟩, b, x, there, above, named⟩
      exact ⟨u, base, b, x, reached, leaves, there, above, named⟩
    · rintro ⟨u, base, b, x, reached, leaves, there, above, named⟩
      exact ⟨base, ⟨u, reached, leaves⟩, b, x, there, above, named⟩

theorem Module.isCandidate_iff (found : m.typeDef? t.token = some t) :
    m.isCandidate policy t = true ↔ t.flags.isAbstract = false ∧ m.ReachesMarker policy t := by
  unfold isCandidate
  rw [Bool.and_eq_true, Bool.not_eq_true', reachesMarker_iff found]

/-- A type of the library that another one derives from is there. -/
theorem Library.contains_of_derivesFrom {l : Library} {name ancestor : TypeName} (derives : l.derivesFrom name ancestor = true) :
    l.contains ancestor = true := by
  obtain ⟨b, x, there, reached, rfl⟩ := derivesFrom_iff.mp derives
  have listed : x ∈ l.types := by
    rcases reached.cases_tail with rfl | ⟨y, -, base⟩
    · exact List.mem_of_find?_eq_some there
    · obtain ⟨name, -, found⟩ := Option.bind_eq_some_iff.mp base
      exact List.mem_of_find?_eq_some found
  unfold contains get?
  exact List.find?_isSome.mpr ⟨x, listed, by simp⟩

end Decorators

/-! ### Kinds -/

section Kinds

variable {m : Module} {policy : Policy} {w : Workspace} {kinds : List DecoratorKind} {type : Token}

/-- A type lacks nothing but hooks for a decorator. -/
def Module.isUnusable (m : Module) (policy : Policy) (t : TypeDef) : Bool := m.isCandidate policy t && !m.providesHooks t.token

/-- Attributes of a type decorate. -/
def Module.decorates (m : Module) (policy : Policy) (type : Token) : Bool :=
  (m.types.filter (m.isDecorator policy)).any (·.token == type)

/-- No type reaches a marker that is neither defined nor in the library. -/
theorem Module.isCandidate_of_missing (undefined : (Resolver.ofModule m).markerDefinition? policy = none)
    (missing : m.library.contains policy.marker = false) (t : TypeDef) : m.isCandidate policy t = false := by
  have unreached : (Resolver.ofModule m).reachesMarker policy (Definitions.entry m t) = false := by
    unfold Resolver.reachesMarker
    rw [undefined]
    rw [Bool.eq_false_iff, ne_eq, Option.any_eq_true]
    rintro ⟨base, -, derives⟩
    exact Bool.eq_false_iff.mp missing (Library.contains_of_derivesFrom derives)
  unfold isCandidate
  rw [unreached, Bool.and_false]

theorem warned_kindsAmong {types : List TypeDef} (known : ∀ t ∈ types, (m.typeDef? t.token).isSome) (w : Workspace) :
    (kindsAmong (.ofModule m) policy (types.map (Definitions.entry m)) w).2.warned =
      w.warned ++ (types.filter (m.isUnusable policy)).map (some ·.token) := by
  induction types generalizing w with
  | nil => exact (List.append_nil _).symm
  | cons t rest ih =>
    have later := ih fun u member => known u (List.mem_cons_of_mem _ member)
    rw [List.map_cons]
    rcases kindsAmong_cases policy (known t List.mem_cons_self) (rest.map (Definitions.entry m)) w with
      ⟨same, none⟩ | ⟨kind, u, made, -, -, -, -, provides⟩ | ⟨u, d, same, severity, token, candidate, none⟩
    · rw [same, List.filter_cons_of_neg (by simp [Module.isUnusable, none])]
      exact later w
    · rw [made, List.filter_cons_of_neg (by simp [Module.isUnusable, provides])]
      exact later { w with imports := u }
    · rw [same, List.filter_cons_of_pos (by simp [Module.isUnusable, candidate, none])]
      refine (later (Weaving.report d { w with imports := u }).2).trans ?_
      rw [Workspace.warned_report severity, List.append_assoc, token]
      rfl

/-- The decorators of a module are the types that are decorators, each with its hooks, and the types without hooks are warned of. -/
theorem decoratorKinds_made (m : Module) (policy : Policy) (w : Workspace) :
    List.Forall₂ (fun (t : TypeDef) kind => kind.attributeType = t.token ∧ kind.name = t.fullName ∧
        kind.Hooked m (decoratorKinds (.ofModule m) policy w).2.imports)
      (m.types.filter (m.isDecorator policy)) (decoratorKinds (.ofModule m) policy w).1 ∧
    (decoratorKinds (.ofModule m) policy w).2.warned = w.warned ++ (m.types.filter (m.isUnusable policy)).map (some ·.token) := by
  have known : ∀ t ∈ m.types, (m.typeDef? t.token).isSome := fun t listed => List.find?_isSome.mpr ⟨t, listed, by simp⟩
  unfold decoratorKinds
  split
  · rename_i unavailable
    simp only [Bool.and_eq_true, Option.isNone_iff_eq_none, Bool.not_eq_true'] at unavailable
    have bare := Module.isCandidate_of_missing unavailable.1 unavailable.2
    have none : m.types.filter (m.isDecorator policy) = [] := by simp [Module.isDecorator, bare]
    have unwarned : m.types.filter (m.isUnusable policy) = [] := by simp [Module.isUnusable, bare]
    rw [none, unwarned]
    exact ⟨.nil, (Workspace.warned_info ..).trans (List.append_nil _).symm⟩
  · exact ⟨kindsAmong_made known w, warned_kindsAmong known w⟩

/-- The decorator of an attribute is found if the type of the attribute is that of a decorator. -/
theorem isSome_find?_decorators (m : Module) (policy : Policy) (w : Workspace) (type : Token) :
    ((decoratorKinds (.ofModule m) policy w).1.find? (·.attributeType == type)).isSome = m.decorates policy type := by
  have same := (decoratorKinds_made m policy w).1.imp fun _ _ made => made.1
  unfold Module.decorates
  rw [List.isSome_find?]
  generalize m.types.filter (m.isDecorator policy) = decorators, (decoratorKinds (.ofModule m) policy w).1 = kinds at same
  induction same with
  | nil => rfl
  | cons token _ ih => rw [List.any_cons, List.any_cons, ih, token]

end Kinds

/-! ### Targets -/

section Targets

variable {m : Module} {policy : Policy} {kinds : List DecoratorKind} {w : Workspace}

theorem map_targetsOf (kinds : List DecoratorKind) (t : TypeDef) (d : MethodDef) :
    (targetsOf kinds t d).map (fun x => (x.declaringType, x.method, x.decoration.attr)) =
      ((d.attributes.map (t, d, ·)).filter fun e => e.2.1.body.isSome && (kinds.find? (·.attributeType == e.2.2.type)).isSome).map
        fun e => (e.1.token, e.2.1.token, e.2.2) := by
  unfold targetsOf MethodDef.decorations
  rw [List.filter_map, List.map_map]
  simp only [Function.comp_def]
  cases d.body with
  | none => simp
  | some b =>
    simp only [Option.isSome_some, Bool.true_and, Option.isNone_some, Bool.false_eq_true, if_false]
    induction d.attributes with
    | nil => rfl
    | cons a rest ih => cases found : kinds.find? (·.attributeType == a.type) <;> simp [found] <;> simpa using ih

/-- One attribute adds no imports, and a warning if it is that of a decorator and there is no body. -/
theorem targetOf?_snd (kinds : List DecoratorKind) (e : TypeDef × MethodDef × Attribute) (w : Workspace) :
    (targetOf? kinds e.1 e.2.1 e.2.2 w).2.imports = w.imports ∧
    (targetOf? kinds e.1 e.2.1 e.2.2 w).2.warned = w.warned ++
      if e.2.1.body.isNone && (kinds.find? (·.attributeType == e.2.2.type)).isSome then [some e.2.1.token] else [] := by
  unfold targetOf?
  cases kinds.find? (·.attributeType == e.2.2.type) with
  | none =>
    simp only [Option.isSome_none, Bool.and_false, Bool.false_eq_true, if_false, List.append_nil]
    exact ⟨rfl, rfl⟩
  | some kind =>
    cases e.2.1.body with
    | none => exact ⟨rfl, Workspace.warned_report rfl⟩
    | some b => exact ⟨rfl, (List.append_nil _).symm⟩

theorem mapM_targetOf?_snd (kinds : List DecoratorKind) (l : List (TypeDef × MethodDef × Attribute)) (w : Workspace) :
    (l.mapM (fun e => targetOf? kinds e.1 e.2.1 e.2.2) w).2.imports = w.imports ∧
    (l.mapM (fun e => targetOf? kinds e.1 e.2.1 e.2.2) w).2.warned = w.warned ++
      (l.filter fun e => e.2.1.body.isNone && (kinds.find? (·.attributeType == e.2.2.type)).isSome).map (some ·.2.1.token) := by
  induction l generalizing w with
  | nil => exact ⟨rfl, (List.append_nil _).symm⟩
  | cons e rest ih =>
    obtain ⟨imports, warned⟩ := targetOf?_snd kinds e w
    obtain ⟨imports', warned'⟩ := ih (targetOf? kinds e.1 e.2.1 e.2.2 w).2
    rw [List.mapM_cons, Weaving.bind_apply, Weaving.bind_apply]
    refine ⟨imports'.trans imports, warned'.trans ?_⟩
    rw [warned, List.append_assoc, List.filter_cons]
    split <;> rfl

/-- Attributes are looked through for targets with no more imports, and with warnings of those on methods without bodies. -/
theorem discover_snd (m : Module) (policy : Policy) (w : Workspace) :
    (discover m (.ofModule m) policy w).2.imports = (decoratorKinds (.ofModule m) policy w).2.imports ∧
    (discover m (.ofModule m) policy w).2.warned = (decoratorKinds (.ofModule m) policy w).2.warned ++
      (m.attributes.filter fun e => e.2.1.body.isNone && m.decorates policy e.2.2.type).map (some ·.2.1.token) := by
  simp only [← isSome_find?_decorators m policy w]
  cases came : decoratorKinds (.ofModule m) policy w with
  | mk kinds behind =>
    unfold discover
    rw [Weaving.bind_apply, came]
    cases kinds with
    | nil => exact ⟨rfl, by simp; rfl⟩
    | cons kind kinds =>
      obtain ⟨imports, warned⟩ := mapM_targetOf?_snd (kind :: kinds) m.attributes behind
      exact ⟨imports, (Workspace.warned_info ..).trans warned⟩

/-- Every target has a decorator of the type of its attribute. -/
theorem kind_of_mem_targetsOf {t : TypeDef} {d : MethodDef} {x : WeaveTarget} (member : x ∈ targetsOf kinds t d) :
    x.decoration.kind ∈ kinds ∧ x.decoration.kind.attributeType = x.decoration.attr.type := by
  unfold targetsOf MethodDef.decorations at member
  split at member
  · cases member
  · obtain ⟨e, decorates, rfl⟩ := List.mem_map.mp member
    obtain ⟨a, -, decorates⟩ := List.mem_filterMap.mp decorates
    obtain ⟨kind, first, made⟩ := Option.map_eq_some_iff.mp decorates
    subst made
    exact ⟨List.mem_of_find?_eq_some first, by simpa using List.find?_some first⟩

/-- The types of decorators are those that are not abstract, reach the marker and have all hooks. -/
theorem Module.Distinct.decorates_iff (distinct : m.Distinct) {type : Token} : m.decorates policy type = true ↔
    ∃ t ∈ m.types, t.token = type ∧ t.flags.isAbstract = false ∧ m.ReachesMarker policy t ∧ ∀ hook, m.HasHook t hook := by
  unfold decorates
  simp only [List.any_eq_true, List.mem_filter, beq_iff_eq]
  constructor
  · rintro ⟨t, ⟨listed, decorator⟩, token⟩
    have found := distinct.typeDef? listed
    obtain ⟨candidate, provides⟩ := Bool.and_eq_true_iff.mp decorator
    obtain ⟨concrete, reaches⟩ := (isCandidate_iff found).mp candidate
    exact ⟨t, listed, token, concrete, reaches, (providesHooks_iff_hasHook found).mp provides⟩
  · rintro ⟨t, listed, token, concrete, reaches, hooks⟩
    have found := distinct.typeDef? listed
    exact ⟨t, ⟨listed, Bool.and_eq_true_iff.mpr
      ⟨(isCandidate_iff found).mpr ⟨concrete, reaches⟩, (providesHooks_iff_hasHook found).mpr hooks⟩⟩, token⟩

/-- The types that are warned of are those that are not abstract and reach the marker, but lack a hook. -/
theorem Module.Distinct.isUnusable_iff (distinct : m.Distinct) {t : TypeDef} (listed : t ∈ m.types) : m.isUnusable policy t = true ↔
    t.flags.isAbstract = false ∧ m.ReachesMarker policy t ∧ ¬ ∀ hook, m.HasHook t hook := by
  have found := distinct.typeDef? listed
  unfold isUnusable
  rw [Bool.and_eq_true, Bool.not_eq_true', ← Bool.not_eq_true, isCandidate_iff found, providesHooks_iff_hasHook found, and_assoc]

/-- There is one target for each attribute of the type of a decorator on a method with a body, in order: types, then methods, then
    attributes. There is one warning for each type that lacks nothing but hooks, and then one for each attribute of the type of a
    decorator on a method without a body. -/
theorem discover_exact (distinct : m.Distinct) (policy : Policy) :
    let found := discover m (.ofModule m) policy (m.workspace policy)
    found.1.map (fun x => (x.declaringType, x.method, x.decoration.attr)) =
      (m.attributes.filter fun e => e.2.1.body.isSome && m.decorates policy e.2.2.type).map (fun e => (e.1.token, e.2.1.token, e.2.2)) ∧
    (∀ x ∈ found.1, x.decoration.kind.attributeType = x.decoration.attr.type ∧ x.decoration.kind.Hooked m found.2.imports) ∧
    found.2.warned = (m.types.filter (m.isUnusable policy)).map (some ·.token) ++
      (m.attributes.filter fun e => e.2.1.body.isNone && m.decorates policy e.2.2.type).map (some ·.2.1.token) ∧
    (∀ type, m.decorates policy type = true ↔
      ∃ t ∈ m.types, t.token = type ∧ t.flags.isAbstract = false ∧ m.ReachesMarker policy t ∧ ∀ hook, m.HasHook t hook) ∧
    ∀ t ∈ m.types, (m.isUnusable policy t = true ↔
      t.flags.isAbstract = false ∧ m.ReachesMarker policy t ∧ ¬ ∀ hook, m.HasHook t hook) := by
  obtain ⟨imports, warned⟩ := discover_snd m policy (m.workspace policy)
  obtain ⟨made, unusable⟩ := decoratorKinds_made m policy (m.workspace policy)
  refine ⟨?_, fun x member => ?_, ?_, fun type => distinct.decorates_iff, fun t listed => distinct.isUnusable_iff listed⟩
  · rw [discover_fst, List.map_flatMap, m.attributes_eq, List.filter_flatMap, List.map_flatMap]
    refine List.flatMap_congr fun e _ => (map_targetsOf _ e.1 e.2).trans ?_
    simp only [isSome_find?_decorators]
  · rw [discover_fst] at member
    obtain ⟨e, -, member⟩ := List.mem_flatMap.mp member
    obtain ⟨known, type⟩ := kind_of_mem_targetsOf member
    obtain ⟨t, -, -, -, hooked⟩ := exists_paired_left made _ known
    exact ⟨type, imports ▸ hooked⟩
  · rw [warned, unusable]
    rfl

end Targets

namespace Sample

set_option maxRecDepth 100000 in
/-- The attribute of the method makes one target, and there is nothing to warn of. -/
theorem echo_discovered :
    (module.targets {}).map (fun x => (x.declaringType, x.method, x.decoration.attr.type)) =
        [(.ofParts Token.typeDef 2, echo.token, .ofParts Token.typeDef 1)] ∧
      (discover module (.ofModule module) {} (module.workspace {})).2.warned = [] ∧
      ∃ t ∈ module.types, t.token = .ofParts Token.typeDef 1 ∧ t.flags.isAbstract = false ∧ module.ReachesMarker {} t ∧
        ∀ hook, module.HasHook t hook := by
  have distinct : module.Distinct :=
    ⟨show (module.types.map (·.token)).Nodup by decide +kernel,
      show (module.types.flatMap fun t => t.methods.map (·.token)).Nodup by decide +kernel⟩
  obtain ⟨targets, -, warned, decorates, -⟩ := discover_exact distinct {}
  have usable : module.types.filter (module.isUnusable {}) = [] := by decide +kernel
  have bodies : (module.attributes.filter fun e => e.2.1.body.isNone && module.decorates {} e.2.2.type) = [] := by decide +kernel
  refine ⟨?_, ?_, (decorates _).mp (by decide +kernel)⟩
  · have types := congrArg (List.map fun e => (e.1, e.2.1, e.2.2.type)) targets
    rw [List.map_map, List.map_map] at types
    exact types.trans (by decide +kernel)
  · rw [warned, usable, bodies]
    rfl

/-- A marker that is in no library. -/
def vendorMarker : TypeName := ⟨"Vendor", "Marker"⟩

/-- The module of the decorator, which derives from this marker, and of the type with the method. -/
def vendorModule : Module :=
  let start : Module := { name := "Sample", library := .standard, imports := rows }
  ((start.addType { logger with base := some (.external vendorMarker) }).1.addType
    { name := ⟨"Sample", "Host"⟩, methods := [echo.toMethod] }).1

set_option maxRecDepth 100000 in
/-- The base of a type with all hooks is the marker, and its attribute is on a method with a body; but nothing is discovered. -/
theorem vendor_undiscovered :
    (∃ t ∈ vendorModule.types, t.token = .ofParts Token.typeDef 1 ∧ t.flags.isAbstract = false ∧
      (Resolver.ofModule vendorModule).markerDefinition? { marker := vendorMarker } = none ∧
      (Definitions.ofModule vendorModule).externalBase? t.token = some vendorMarker ∧ vendorModule.providesHooks t.token = true) ∧
    (∃ e ∈ vendorModule.attributes, e.2.1.body.isSome ∧ e.2.2.type = .ofParts Token.typeDef 1) ∧
    vendorModule.targets { marker := vendorMarker } = [] := by
  decide +kernel

end Sample

end AspectWeaving

import AspectWeaving.Proofs.Receivers
import AspectWeaving.Proofs.WovenModules

/-!
The attributes of layers. A layer of a woven method looks attributes up by the type of its decorator and takes the
first one. So it calls its hooks on fresh objects of the first attribute of the method that is of that type or of one
that derives from it (`layers_act_on_first`), which is not always the attribute that the layer was woven for
(`Sample.traced_twice`).
-/
namespace AspectWeaving

/-! ### Where the attributes are looked up -/

/-- The methods of the library that find attributes are called as woven code does: the one that finds them on an object,
    the others on none. -/
structure Resolver.Reflective (r : Resolver) : Prop where
  getMethod : ∀ found, r.findLibraryMethod? WellKnown.methodBase getMethodQuery = some found → found.2.hasThis = false
  getType : ∀ found, r.findLibraryMethod? WellKnown.type getTypeQuery = some found → found.2.hasThis = false
  getAttributes : ∀ found, r.findLibraryMethod? WellKnown.methodBase getAttributesQuery = some found → found.2.hasThis = true

theorem Resolver.reflective_of_standard {m : Module} (standard : m.library = .standard) : (Resolver.ofModule m).Reflective := by
  have known : ∀ {host q b}, ((Resolver.mk .standard {}).findLibraryMethod? host q).map (·.2.hasThis) = some b →
      ∀ found, (Resolver.ofModule m).findLibraryMethod? host q = some found → found.2.hasThis = b := by
    intro host q b decided found here
    have same : (Resolver.mk .standard {}).findLibraryMethod? host q = (Resolver.ofModule m).findLibraryMethod? host q := by
      simp only [Resolver.findLibraryMethod?, Resolver.ofModule, standard]
    rw [same, here] at decided
    exact Option.some.inj decided
  exact ⟨known (by decide +kernel), known (by decide +kernel), known (by decide +kernel)⟩

section Sites

variable {p : Program} {r : Resolver} {rows : ImportTable} {host : TypeName} {q : MethodQuery} {token method : Token}
  {kind : DecoratorKind} {w : Weave} {new : Body} {own : Attribute}

/-- A method of the library that is imported under a name is called there. -/
theorem Resolver.Imports.answers {count : Nat} {this : Bool} (imported : r.Imports host q rows token)
    (grows : rows.Grows p.module.imports) (room : p.module.imports.memberRefs.size ≤ ImportTable.maxRows)
    (reflects : p.Reflects) (named : q.name ∈ ["GetMethodFromHandle", "GetTypeFromHandle", "GetCustomAttributes"])
    (asked : q.count = some count) (object : ∀ found, r.findLibraryMethod? host q = some found → found.2.hasThis = this) :
    p.Answers token ⟨q.name, count, this⟩ := by
  obtain ⟨row, found, there, here, name, parameters, receiver⟩ := (imported.mono grows).row room
  refine ⟨imported.table, ⟨row, there, ?_⟩, ?_⟩
  · rw [name, parameters count asked, receiver, object found here]
  · cases stands : p.hostMethod? token with
    | none => rfl
    | some host =>
      have same : host.1 = token := by simpa using List.find?_some stands
      have other := reflects host (List.mem_of_find?_eq_some stands) row (same ▸ there)
      exact absurd (name ▸ named) other

/-- The code of a layer finds its attribute in a program whose library and host methods are as it takes them to be. -/
theorem Weave.Wraps.site (wraps : w.Wraps r method kind rows new) (grows : rows.Grows p.module.imports)
    (room : p.module.imports.memberRefs.size ≤ ImportTable.maxRows) (library : r.Reflective) (reflects : p.Reflects)
    (spares : p.Spares) (distinct : p.module.Distinct)
    (first : ∃ rest, attributesOf p.module method (some kind.attributeType) = own :: rest) : w.Site p kind new own where
  layer := wraps.layer
  calls := wraps.calls
  fetches := wraps.fetches
  getMethod := wraps.finds.getMethodFromHandle.answers grows room reflects (by simp [getMethodQuery, MethodQuery.withTypes])
    rfl library.getMethod
  getType := wraps.finds.getTypeFromHandle.answers grows room reflects (by simp [getTypeQuery, MethodQuery.withTypes])
    rfl library.getType
  getAttributes := wraps.finds.getCustomAttributes.answers grows room reflects
    (by simp [getAttributesQuery, MethodQuery.withTypes]) rfl library.getAttributes
  spares := spares
  distinct := distinct
  first := by rwa [wraps.method, wraps.attributeType]

end Sites

/-! ### The attribute that is found -/

section Found

variable {m m' : Module} {policy : Policy} {kind : DecoratorKind} {woven : List Token} {e : Decoration} {d : MethodDef}

theorem attributeIs_self {type : Token} (known : (m.typeDef? type).isSome) : attributeIs m type type = true := by
  obtain ⟨t, found⟩ := Option.isSome_iff_exists.mp known
  have own : t.token = type := by simpa using List.find?_some (show m.types.find? (·.token == type) = some t from found)
  unfold attributeIs derivesWithin Module.definitionChain chain
  rw [found, List.any_cons, own, beq_self_eq_true]
  rfl

/-- Every decorator of a module is a type of it. -/
theorem Module.type_of_decorator (member : kind ∈ m.decorators policy) : kind.attributeType ∈ m.types.map (·.token) := by
  have among : ∃ entry ∈ (Resolver.ofModule m).definitions.entries, entry.token = kind.attributeType := by
    unfold Module.decorators decoratorKinds at member
    split at member
    · cases member
    · exact kindsAmong_types _ _ kind member
  obtain ⟨entry, listed, same⟩ := among
  obtain ⟨t, type, rfl⟩ := List.mem_map.mp listed
  exact List.mem_map.mpr ⟨t, type, same⟩

theorem Module.Revised.typeDef?_isSome (revised : m.Revised woven m') {type : Token} (known : type ∈ m.types.map (·.token)) :
    (m'.typeDef? type).isSome := by
  have tokens := congrArg (List.map Prod.fst) revised.tokens
  simp only [List.map_map, Function.comp_def] at tokens
  obtain ⟨t, member, same⟩ := List.mem_map.mp (tokens ▸ known)
  exact List.find?_isSome.mpr ⟨t, member, beq_iff_eq.mpr same⟩

theorem MethodDef.of_mem_decorations {kinds : List DecoratorKind} (member : e ∈ d.decorations kinds) :
    e.kind ∈ kinds ∧ e.attr ∈ d.attributes ∧ e.kind.attributeType = e.attr.type := by
  obtain ⟨a, listed, chosen⟩ := List.mem_filterMap.mp member
  obtain ⟨kind, found, rfl⟩ := Option.map_eq_some_iff.mp chosen
  exact ⟨List.mem_of_find?_eq_some found, listed, by simpa using List.find?_some found⟩

end Found

/-- Each layer of a woven method calls its hooks on fresh objects of the first attribute of the method that is of the
    type of the decorator or derives from it. -/
theorem layers_act_on_first {m : Module} {policy : Policy} {s : Schedule} {method : Token} (distinct : m.Distinct)
    (library : (Resolver.ofModule m).Reflective) (woven : method ∈ (weaveModule m policy s).2.woven)
    (room : (weaveModule m policy s).1.imports.memberRefs.size ≤ ImportTable.maxRows)
    (valid : ∀ t d b, m.method? method = some (t, d) → d.body = some b → b.validate = .ok ()) :
    ∃ (t : TypeDef) (d : MethodDef) (new : Body) (layers : List (Decoration × Weave)), m.method? method = some (t, d) ∧
      ((weaveModule m policy s).1.method? method).map (·.2) = some { d with body := some new } ∧
      layers.map (·.1) = d.decorations (m.decorators policy) ∧
      ∀ l ∈ layers, l.2.CallsHooks l.1.kind new ∧
        ∃ own, d.attributes.find? (fun a => attributeIs (weaveModule m policy s).1 a.type l.1.attr.type) = some own ∧
          ∀ p : Program, p.module = (weaveModule m policy s).1 → p.Spares → p.Reflects →
            l.1.kind.ActsOnObjects p.module → l.2.ActsOn p new own := by
  obtain ⟨t, d, body, layers, before, rows, new, found, bodied, parts, layered, grows, stands⟩ :=
    weaveModule_woven distinct woven
  obtain ⟨-, -, -, -, revised, -⟩ := weaveModule_isolated m policy s
  have token : d.token = method := (Module.token_of_method? found).2
  refine ⟨t, d, new, layers, found, stands, parts, fun l member => ?_⟩
  have wraps := layered.wraps (Body.validate_eq_ok_iff.mp (valid t d body found bodied))
    (grows.size_memberRefs.trans room) l member
  obtain ⟨known, listed, type⟩ := MethodDef.of_mem_decorations (parts ▸ List.mem_map_of_mem member)
  have self : attributeIs (weaveModule m policy s).1 l.1.attr.type l.1.attr.type = true :=
    attributeIs_self (revised.typeDef?_isSome (type ▸ Module.type_of_decorator known))
  obtain ⟨own, first⟩ : ∃ own, d.attributes.find? (fun a => attributeIs (weaveModule m policy s).1 a.type l.1.attr.type) = some own :=
    Option.isSome_iff_exists.mp (List.find?_isSome.mpr ⟨_, listed, self⟩)
  refine ⟨wraps.calls, own, first, fun p same spares reflects objects => ?_⟩
  have looked : ∃ rest, attributesOf p.module d.token (some l.1.kind.attributeType) = own :: rest := by
    obtain ⟨⟨t', d'⟩, there, rfl⟩ := Option.map_eq_some_iff.mp stands
    unfold attributesOf
    rw [same, token, there, type]
    rw [← List.head?_filter] at first
    exact List.head?_eq_some_iff.mp first
  rw [← same] at grows room
  exact (wraps.site grows room library reflects spares (same ▸ distinct.revised revised) looked).actsOn objects

/-- By this lemma the module under execution is seen to be a woven one without any weaving. -/
theorem Program.module_mk {m : Module} {hosts : List (Token × HostMethod)} {limits : Limits} :
    Program.module ⟨m, hosts, limits⟩ = m := rfl

/-! ### A method with two decorators, one of which derives from the other -/

namespace Sample

/-- A decorator that inherits its hooks. -/
def tracer : TypeDecl where
  name := ⟨"Sample", "TraceAttribute"⟩
  base := some (.definition (.ofParts Token.typeDef 1))

/-- A method on which both decorators stand. -/
def tracedEcho : MethodDef :=
  { echo with attributes := [{ type := .ofParts Token.typeDef 2 }, { type := .ofParts Token.typeDef 1 }] }

/-- The module of both decorators and of the type with the method. -/
def traced : Module :=
  let start : Module := { name := "Sample", library := .standard, imports := rows }
  ((((start.addType logger).1.addType tracer).1).addType { name := ⟨"Sample", "Host"⟩, methods := [tracedEcho.toMethod] }).1

/-- The woven module under execution, with hooks that return at once. -/
def tracedProgram : Program where
  module := (weaveModule traced {}).1
  hostMethods := [kind.onEntry, kind.onExit, kind.onException].map fun token => (token, fun _ => pure (.returned .void))

theorem module_tracedProgram : tracedProgram.module = (weaveModule traced {}).1 := by
  rw [tracedProgram, Program.module_mk]

/-- The method is woven with both decorators, of which either has the hooks of the first. -/
theorem traced_woven :
    ((traced.types.map (·.token)).Nodup ∧ (traced.types.flatMap fun t => t.methods.map (·.token)).Nodup) ∧
      (tracedEcho.body.get rfl).validate.isOk = true ∧
      .ofParts Token.methodDef 4 ∈ (weaveModule traced {}).2.woven ∧
      (weaveModule traced {}).1.imports.memberRefs.size ≤ ImportTable.maxRows ∧
      (tracedEcho.decorations (traced.decorators {})).map (·.kind.attributeType) =
        [.ofParts Token.typeDef 2, .ofParts Token.typeDef 1] ∧
      (∀ type ∈ tracedEcho.attributes.map (·.type),
        attributeIs (weaveModule traced {}).1 (.ofParts Token.typeDef 2) type = true) ∧
      ∀ k ∈ traced.decorators {}, ∀ e ∈ [(k.onEntry, 2), (k.onExit, 3), (k.onException, 3)],
        ((weaveModule traced {}).1.callShape e.1).toOption.map (fun shape => (shape.parameters, shape.hasThis)) = some (e.2, true) := by
  decide +kernel

theorem traced_objects {own : DecoratorKind} (member : own ∈ traced.decorators {}) : own.ActsOnObjects tracedProgram.module := by
  rw [module_tracedProgram]
  obtain ⟨-, -, -, -, -, -, shapes⟩ := traced_woven
  exact DecoratorKind.actsOnObjects_of_shapes (shapes own member)

theorem traced_spares : tracedProgram.Spares := by
  intro host member
  obtain ⟨token, -, rfl⟩ := List.mem_map.mp member
  constructor <;> intro arguments heap outcome heap' done <;> cases done
  exact .refl _

theorem traced_reflects : tracedProgram.Reflects := by
  intro host member row there
  obtain ⟨token, own, rfl⟩ := List.mem_map.mp member
  have table : ∀ token ∈ [kind.onEntry, kind.onExit, kind.onException], token.table ≠ Token.memberRef := by decide
  simp [ImportTable.getMemberRef?, rowOf?, table token own] at there

/-- Both layers of the method call their hooks on objects of the attribute that comes first. -/
theorem traced_on_first :
    ∃ (new : Body) (layers : List (Decoration × Weave)),
      layers.map (·.1.kind.attributeType) = [.ofParts Token.typeDef 2, .ofParts Token.typeDef 1] ∧
        ∀ l ∈ layers, l.2.CallsHooks l.1.kind new ∧ l.2.ActsOn tracedProgram new { type := .ofParts Token.typeDef 2 } := by
  obtain ⟨⟨apart, distinct⟩, valid, woven, room, types, derives, -⟩ := traced_woven
  have known : traced.method? (.ofParts Token.methodDef 4) = some (_, tracedEcho) := rfl
  obtain ⟨t, d, new, layers, found, -, parts, acts⟩ := layers_act_on_first (m := traced) ⟨apart, distinct⟩ (Resolver.reflective_of_standard rfl)
    woven room (by
      intro t d b found bodied
      cases known.symm.trans found
      cases bodied
      exact isOk_eq_true_iff.mp valid)
  cases known.symm.trans found
  refine ⟨new, layers, ?_, fun l member => ?_⟩
  · rw [← parts, List.map_map] at types
    exact types
  · obtain ⟨calls, own, first, acts⟩ := acts l member
    obtain ⟨decorator, listed, -⟩ := MethodDef.of_mem_decorations (parts ▸ List.mem_map_of_mem member)
    -- The first attribute is of the type of either layer.
    obtain rfl : { type := .ofParts Token.typeDef 2 } = own := by
      have type := derives _ (List.mem_map_of_mem listed)
      simpa [tracedEcho, type] using first
    exact ⟨calls, acts tracedProgram module_tracedProgram traced_spares traced_reflects (traced_objects decorator)⟩

/-- The type of the module that the object of a value has. -/
def typeOf? (h : Heap) (v : Value) : Option Token :=
  match v.ref?.bind h.get? with
  | some (.instance type) => some type
  | _ => none

/-- The types of the objects that a hook is called on in a call of a method that returns. -/
def receivers (p : Program) (hook method : Token) (arguments : List Value) : Option (List (Option Token)) :=
  match p.invoke method arguments {} with
  | .ok (.returned _) s =>
    some <| (s.hostCalls.toList.filter (·.method == hook)).map fun c => c.arguments.head?.bind (typeOf? s.heap)
  | _ => none

set_option maxRecDepth 100000 in
/-- The hooks of both layers are called on objects of the decorator that derives from the other one. -/
theorem traced_twice :
    (weaveModule traced {}).2.woven = [.ofParts Token.methodDef 4] ∧
      (traced.decorationsOf {} (.ofParts Token.methodDef 4)).map (·.kind.attributeType) =
        [.ofParts Token.typeDef 2, .ofParts Token.typeDef 1] ∧
      receivers tracedProgram kind.onEntry (.ofParts Token.methodDef 4) [.int32 7] =
        some [some (.ofParts Token.typeDef 2), some (.ofParts Token.typeDef 2)] := by
  decide +kernel

end Sample

end AspectWeaving

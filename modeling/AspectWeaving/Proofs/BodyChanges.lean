import AspectWeaving.Calls
import AspectWeaving.Proofs.Pairs

/-!
Modules that differ in bodies. Names, bases, shapes and attributes are found without a look at a body, so two modules
that differ in the bodies of their methods alone (`Module.Alters`) name types, dispatch calls and check casts in the
same way; what they differ in is the body that a call enters (`Module.Alters.method?`).
-/
namespace AspectWeaving

/-! ### Methods, types and modules -/

variable {B : MethodDef → Body → Body → Prop}

/-- A method and one that differs in its body at most, and if so in a way of the method. -/
structure MethodDef.Alters (B : MethodDef → Body → Body → Prop) (d d' : MethodDef) : Prop where
  body : Option.Rel (B d) d.body d'.body
  rest : d' = { d with body := d'.body }

/-- Types whose methods differ in bodies. -/
structure TypeDef.Alters (B : MethodDef → Body → Body → Prop) (t t' : TypeDef) : Prop where
  methods : List.Forall₂ (MethodDef.Alters B) t.methods t'.methods
  rest : t' = { t with methods := t'.methods }

/-- Modules whose methods differ in bodies. -/
structure Module.Alters (B : MethodDef → Body → Body → Prop) (m m' : Module) : Prop where
  types : List.Forall₂ (TypeDef.Alters B) m.types m'.types
  rest : m' = { m with types := m'.types }

namespace MethodDef.Alters

variable {d d' : MethodDef}

theorem token (alters : d.Alters B d') : d'.token = d.token := (congrArg MethodDef.token alters.rest :)

theorem name (alters : d.Alters B d') : d'.name = d.name := (congrArg (fun e : MethodDef => e.name) alters.rest :)

theorem signature (alters : d.Alters B d') : d'.signature = d.signature :=
  (congrArg (fun e : MethodDef => e.signature) alters.rest :)

theorem parameters (alters : d.Alters B d') : d'.parameters = d.parameters :=
  congrArg Signature.parameters alters.signature

theorem hasThis (alters : d.Alters B d') : d'.hasThis = d.hasThis := congrArg Signature.hasThis alters.signature

theorem attributes (alters : d.Alters B d') : d'.attributes = d.attributes :=
  (congrArg (fun e : MethodDef => e.attributes) alters.rest :)

theorem isConstructor (alters : d.Alters B d') : d'.isConstructor = d.isConstructor :=
  (congrArg (fun e : MethodDef => e.isConstructor) alters.rest :)

end MethodDef.Alters

namespace TypeDef.Alters

variable {t t' : TypeDef}

theorem token (alters : t.Alters B t') : t'.token = t.token := (congrArg TypeDef.token alters.rest :)

theorem base (alters : t.Alters B t') : t'.base = t.base := (congrArg TypeDef.base alters.rest :)

theorem fullName (alters : t.Alters B t') : t'.fullName = t.fullName := (congrArg TypeDef.fullName alters.rest :)

theorem baseLocator (alters : t.Alters B t') : t'.baseLocator = t.baseLocator := (congrArg TypeDef.baseLocator alters.rest :)

theorem method? (alters : t.Alters B t') (token : Token) :
    Option.Rel (MethodDef.Alters B) (t.method? token) (t'.method? token) :=
  rel_find? (fun _ _ method => by rw [method.token]) alters.methods

end TypeDef.Alters

namespace Module.Alters

variable {m m' : Module}

theorem library (alters : m.Alters B m') : m'.library = m.library := (congrArg Module.library alters.rest :)

theorem imports (alters : m.Alters B m') : m'.imports = m.imports := (congrArg Module.imports alters.rest :)

theorem typeDef? (alters : m.Alters B m') (token : Token) :
    Option.Rel (TypeDef.Alters B) (m.typeDef? token) (m'.typeDef? token) :=
  rel_find? (fun _ _ type => by rw [type.token]) alters.types

/-- The constructor of a type that takes a number of arguments. -/
theorem constructor_rel (alters : m.Alters B m') (type : Token) (count : Nat) :
    Option.Rel (MethodDef.Alters B)
      ((((m.typeDef? type).map (·.methods)).getD []).find? fun d => d.isConstructor && d.parameters.length == count)
      ((((m'.typeDef? type).map (·.methods)).getD []).find? fun d => d.isConstructor && d.parameters.length == count) := by
  have types := alters.typeDef? type
  generalize m.typeDef? type = x, m'.typeDef? type = y at types
  cases types with
  | none => exact .none
  | some type => exact rel_find? (fun _ _ method => by rw [method.isConstructor, method.parameters]) type.methods

theorem method? (alters : m.Alters B m') (token : Token) :
    Option.Rel (fun x y => x.1.Alters B y.1 ∧ x.2.Alters B y.2) (m.method? token) (m'.method? token) := by
  refine rel_findSome? (fun t t' type => ?_) alters.types
  have found := type.method? token
  generalize t.method? token = x, t'.method? token = y at found
  cases found with
  | some method => exact .some ⟨type, method⟩
  | none => exact .none

theorem typeFullName?_eq (alters : m.Alters B m') (token : Token) : m'.typeFullName? token = m.typeFullName? token :=
  (map_eq_of_rel (fun _ _ type => type.fullName.symm) (alters.typeDef? token)).symm

theorem tokenName?_eq (alters : m.Alters B m') (token : Token) : m'.tokenName? token = m.tokenName? token := by
  have within : ∀ depth, m'.tokenNameWithin depth = m.tokenNameWithin depth := by
    intro depth
    induction depth with
    | zero => rfl
    | succ depth ih =>
      funext token
      simp only [tokenNameWithin, alters.typeFullName?_eq, alters.imports, ih]
  unfold tokenName?
  rw [alters.imports, within]

theorem naming_eq (alters : m.Alters B m') (token : Token) : m'.naming token = m.naming token := by
  unfold naming isEndless
  rw [alters.imports, alters.tokenName?_eq]

theorem callShape_eq (alters : m.Alters B m') (token : Token) : m'.callShape token = m.callShape token := by
  have shapes := map_eq_of_rel (f := fun x => CallShape.mk x.2.name x.2.parameters.length x.2.hasThis)
    (g := fun x => CallShape.mk x.2.name x.2.parameters.length x.2.hasThis)
    (fun _ _ found => by rw [found.2.name, found.2.parameters, found.2.hasThis]) (alters.method? token)
  unfold callShape
  simp only [alters.imports]
  rw [← shapes]

theorem definitionChain (alters : m.Alters B m') (token : Token) :
    List.Forall₂ (TypeDef.Alters B) (m.definitionChain token) (m'.definitionChain token) := by
  unfold Module.definitionChain
  rw [alters.types.length_eq]
  refine forall₂_chain (fun t t' type => ?_) (alters.typeDef? token) _
  unfold ownBase?
  rw [type.base]
  split
  · exact alters.typeDef? _
  · exact .none

theorem outerBase?_eq (alters : m.Alters B m') (token : Token) : m'.outerBase? token = m.outerBase? token := by
  have last := rel_getLast? (alters.definitionChain token)
  unfold outerBase?
  generalize (m.definitionChain token).getLast? = x, (m'.definitionChain token).getLast? = y at last
  cases last with
  | some type => exact congrArg TypeLocator.external? type.baseLocator
  | none => rfl

theorem dispatch_eq (alters : m.Alters B m') (h : Heap) (target : Token) (this? : Option Value) :
    dispatch m' h target this? = dispatch m h target this? := by
  have answers : ∀ (type : Token) (name : String) (count : Nat),
      (((m'.definitionChain type).flatMap (·.methods)).find? (·.answers name count)).map (·.token) =
        (((m.definitionChain type).flatMap (·.methods)).find? (·.answers name count)).map (·.token) := by
    intro type name count
    have methods : List.Forall₂ (MethodDef.Alters B) ((m.definitionChain type).flatMap (·.methods))
        ((m'.definitionChain type).flatMap (·.methods)) :=
      List.rel_flatMap (alters.definitionChain type) fun _ _ type => type.methods
    refine (map_eq_of_rel (fun _ _ method => method.token.symm) (rel_find? (fun d d' method => ?_) methods)).symm
    unfold MethodDef.answers
    rw [method.name, method.parameters, method.hasThis]
  unfold dispatch
  simp only [alters.callShape_eq, answers]

theorem typeNames_eq (alters : m.Alters B m') (o : HeapObject) : o.typeNames m' = o.typeNames m := by
  cases o with
  | «instance» type =>
    have names := map_eq_of_forall₂ (fun _ _ type => type.fullName.symm) (alters.definitionChain type)
    simp only [HeapObject.typeNames, Module.typeNames, alters.outerBase?_eq, alters.library, names]
  | exception typeName message => simp only [HeapObject.typeNames, alters.library]
  | _ => rfl

theorem isInstance_eq (alters : m.Alters B m') (h : Heap) (r : HeapRef) (type : Token) :
    isInstance m' h r type = isInstance m h r type := by
  simp only [isInstance, alters.naming_eq, alters.typeNames_eq]

theorem checkCast_eq (alters : m.Alters B m') (h : Heap) (r : HeapRef) (type : Token) :
    checkCast m' h r type = checkCast m h r type := by
  simp only [checkCast, alters.isInstance_eq, alters.tokenName?_eq, alters.typeNames_eq]

theorem derivesWithin_eq (alters : m.Alters B m') (attr type : Token) : derivesWithin m' attr type = derivesWithin m attr type := by
  have tokens := map_eq_of_forall₂ (fun _ _ type => type.token.symm) (alters.definitionChain attr)
  have listed : ∀ l : List TypeDef, l.any (·.token == type) = (l.map (·.token)).any (· == type) := fun l => by
    rw [List.any_map]
    rfl
  unfold derivesWithin
  rw [listed, listed, tokens]

theorem attributeIs_eq (alters : m.Alters B m') (attr : Token) : attributeIs m' attr = attributeIs m attr := by
  funext type
  simp only [attributeIs, alters.derivesWithin_eq, alters.outerBase?_eq, alters.tokenName?_eq, alters.library]

theorem attributesOf_eq (alters : m.Alters B m') (method : Token) (type : Option Token) :
    attributesOf m' method type = attributesOf m method type := by
  have found := alters.method? method
  unfold attributesOf
  generalize m.method? method = x, m'.method? method = y at found
  cases found with
  | some both => simp only [both.2.attributes, alters.attributeIs_eq]
  | none => rfl

theorem selectAttributes_eq (alters : m.Alters B m') (method : Token) (type : Option Token) :
    selectAttributes m' method type = selectAttributes m method type := by
  simp only [selectAttributes, alters.attributesOf_eq, alters.derivesWithin_eq, alters.naming_eq]

theorem memberName_eq (alters : m.Alters B m') (o : HeapObject) : memberName m' o = memberName m o := by
  cases o <;> simp only [memberName, alters.callShape_eq, alters.naming_eq]

end Module.Alters

end AspectWeaving

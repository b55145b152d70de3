import AspectWeaving.Proofs.TransparentWeaves

/-!
Virtual calls. A virtual call on an object of a type of the module enters the first instance method along the bases of the
type that has the name of the called method and as many parameters (`callvirt_enters_nearest`). Neither the types of the
parameters nor the modifiers count: a method of the same number of other parameters takes the call as well, and so does one
below that hides a method that is not virtual (`Sample.pick_overloaded`).
-/
namespace AspectWeaving

open Running (compute fail note)

/-! ### First items -/

section Lists

variable {α β γ : Type} [BEq γ] [LawfulBEq γ] {P : α → Bool} {l : List α} {a : α}

/-- An item is the first of its sort if there is no other one before it. -/
theorem find?_eq_some_iff_before (key : α → γ) (own : P a = true) (member : a ∈ l) (unique : ∀ b ∈ l, key b = key a → b = a) :
    l.find? P = some a ↔ ∀ b ∈ l.takeWhile (key · != key a), P b = false := by
  induction l with
  | nil => cases member
  | cons b l ih =>
    by_cases same : key b = key a
    · obtain rfl := unique b List.mem_cons_self same
      simp [own]
    · have later : a ∈ l := (List.mem_cons.mp member).resolve_left fun other => same (other ▸ rfl)
      have rest := ih later fun c listed => unique c (List.mem_cons_of_mem _ listed)
      cases first : P b with
      | true =>
        have other : b ≠ a := fun equal => same (equal ▸ rfl)
        simp [first, same, other]
      | false => simpa [first, same] using rest

/-- What holds of the items before one of them, in the groups before its own and before it in that. -/
theorem forall_takeWhile_flatMap (key : α → γ) (name : β → γ) {groups : List β} {items : β → List α} {g : β}
    (member : g ∈ groups) (listed : a ∈ items g) (unique : ∀ h ∈ groups, name h = name g → h = g)
    (owner : ∀ h ∈ groups, ∀ b ∈ items h, key b = key a → h = g) :
    (∀ b ∈ (groups.flatMap items).takeWhile (key · != key a), P b = false) ↔
      (∀ h ∈ groups.takeWhile (name · != name g), ∀ b ∈ items h, P b = false) ∧
        ∀ b ∈ (items g).takeWhile (key · != key a), P b = false := by
  induction groups with
  | nil => cases member
  | cons h groups ih =>
    rw [List.flatMap_cons]
    by_cases same : name h = name g
    · obtain rfl := unique h List.mem_cons_self same
      have stops : ((items h).takeWhile (key · != key a)).length ≠ (items h).length := fun whole => by
        have all := List.takeWhile_eq_self_iff.mp ((List.takeWhile_prefix _).eq_of_length whole) a listed
        simp at all
      rw [List.takeWhile_append, if_neg stops]
      simp
    · have later : g ∈ groups := (List.mem_cons.mp member).resolve_left fun other => same (other ▸ rfl)
      have passes : ∀ b ∈ items h, (key b != key a) = true := fun b own => by
        simpa using fun equal => same (owner h List.mem_cons_self b own equal ▸ rfl)
      have rest := ih later (fun k own => unique k (List.mem_cons_of_mem _ own)) fun k own => owner k (List.mem_cons_of_mem _ own)
      rw [List.takeWhile_append_of_pos passes, List.takeWhile_cons_of_pos (by simpa using same)]
      simp only [List.forall_mem_append, List.forall_mem_cons, rest, and_assoc]

end Lists

/-! ### Methods along the bases of a type -/

/-- The methods of a type and of its bases, those of the type first. -/
def Module.chainMethods (m : Module) (type : Token) : List MethodDef := (m.definitionChain type).flatMap (·.methods)

/-- The types of the parameters of a method. -/
def MethodDef.parameterTypes (d : MethodDef) : List TypeSig := d.parameters.map (·.sig)

/-- An instance method has the name and the parameter types of a method. -/
def MethodDef.redeclares (e d : MethodDef) : Bool := e.hasThis && e.name == d.name && e.parameterTypes == d.parameterTypes

/-- An instance method has the name of a method and as many parameters. -/
def MethodDef.resembles (e d : MethodDef) : Bool := e.answers d.name d.parameters.length

/-- The first instance method along the bases of a type that has the name and the parameter types of a method. -/
def Module.redeclaring? (m : Module) (type : Token) (d : MethodDef) : Option MethodDef := (m.chainMethods type).find? (·.redeclares d)

/-- The first instance method along the bases of a type that has the name of a method and as many parameters, or else the
    method itself. -/
def Module.nearest (m : Module) (type : Token) (d : MethodDef) : MethodDef := ((m.chainMethods type).find? (·.resembles d)).getD d

section Nearest

variable {m : Module} {type : Token} {t : TypeDef} {d e : MethodDef}

theorem MethodDef.resembles_iff : e.resembles d = true ↔ e.hasThis = true ∧ e.name = d.name ∧ e.parameters.length = d.parameters.length := by
  simp [resembles, answers, and_assoc]

theorem MethodDef.redeclares_iff : e.redeclares d = true ↔ e.resembles d = true ∧ e.parameterTypes = d.parameterTypes := by
  rw [resembles_iff]
  simp only [redeclares, Bool.and_eq_true, beq_iff_eq]
  constructor
  · rintro ⟨⟨this, name⟩, types⟩
    have lengths := congrArg List.length types
    simp only [parameterTypes, List.length_map] at lengths
    exact ⟨⟨this, name, lengths⟩, types⟩
  · rintro ⟨⟨this, name, -⟩, types⟩
    exact ⟨⟨this, name⟩, types⟩

theorem MethodDef.argumentCount_of_resembles (resembles : e.resembles d = true) (this : d.hasThis = true) :
    e.signature.argumentCount = d.signature.argumentCount := by
  obtain ⟨own, -, parameters⟩ := resembles_iff.mp resembles
  have count : ∀ c : MethodDef, c.signature.argumentCount = c.parameters.length + c.hasThis.toNat := fun _ => rfl
  rw [count, count, own, this, parameters]

theorem Module.mem_chainMethods : e ∈ m.chainMethods type ↔ ∃ u ∈ m.definitionChain type, e ∈ u.methods := List.mem_flatMap

/-- The method that takes a call is the method itself or one along the bases that resembles it. -/
theorem Module.nearest_cases (m : Module) (type : Token) (d : MethodDef) :
    m.nearest type d = d ∨ m.nearest type d ∈ m.chainMethods type ∧ (m.nearest type d).resembles d = true := by
  unfold nearest
  cases first : (m.chainMethods type).find? (·.resembles d) with
  | none => exact .inl rfl
  | some e => exact .inr ⟨List.mem_of_find?_eq_some first, by simpa using List.find?_some first⟩

/-- An instance method along the bases resembles itself, so some method there takes a call of it. -/
theorem Module.find?_resembles (declares : t ∈ m.definitionChain type) (listed : d ∈ t.methods) (this : d.hasThis = true) :
    (m.chainMethods type).find? (·.resembles d) = some (m.nearest type d) := by
  have found : ((m.chainMethods type).find? (·.resembles d)).isSome :=
    List.find?_isSome.mpr ⟨d, mem_chainMethods.mpr ⟨t, declares, listed⟩, MethodDef.resembles_iff.mpr ⟨this, rfl, rfl⟩⟩
  obtain ⟨e, first⟩ := Option.isSome_iff_exists.mp found
  simp only [nearest, first, Option.getD_some]

/-- The method that takes a call is the one that redeclares the called method exactly if it has its parameter types. -/
theorem Module.redeclaring?_eq_nearest_iff (declares : t ∈ m.definitionChain type) (listed : d ∈ t.methods) (this : d.hasThis = true) :
    m.redeclaring? type d = some (m.nearest type d) ↔ (m.nearest type d).parameterTypes = d.parameterTypes := by
  have first := m.find?_resembles declares listed this
  constructor
  · intro redeclaring
    have redeclares : (m.nearest type d).redeclares d = true := by simpa using List.find?_some redeclaring
    exact (MethodDef.redeclares_iff.mp redeclares).2
  · intro types
    obtain ⟨resembles, before, after, shape, none⟩ := List.find?_eq_some_iff_append.mp first
    refine List.find?_eq_some_iff_append.mpr ⟨MethodDef.redeclares_iff.mpr ⟨resembles, types⟩, before, after, shape, fun e member => ?_⟩
    have apart := none e member
    simp only [Bool.not_eq_true', Bool.eq_false_iff, ne_eq] at apart ⊢
    exact fun redeclares => apart (MethodDef.redeclares_iff.mp redeclares).1

/-- A method along the bases takes its calls itself exactly if no type below its own declares a method that resembles it, nor
    its own type one before it. -/
theorem Module.nearest_eq_self_iff (distinct : m.Distinct) (declares : t ∈ m.definitionChain type) (listed : d ∈ t.methods)
    (this : d.hasThis = true) :
    m.nearest type d = d ↔
      (∀ u ∈ (m.definitionChain type).takeWhile (·.token != t.token), ∀ e ∈ u.methods, e.resembles d = false) ∧
        ∀ e ∈ t.methods.takeWhile (·.token != d.token), e.resembles d = false := by
  have inside := m.mem_types_of_definitionChain type
  have owner : ∀ u ∈ m.definitionChain type, ∀ e ∈ u.methods, e.token = d.token → u = t ∧ e = d := fun u member e own same => by
    have both := (distinct.method? (inside u member) own).symm.trans (same ▸ distinct.method? (inside t declares) listed)
    simpa using both
  have first := m.find?_resembles declares listed this
  have before := find?_eq_some_iff_before (P := (·.resembles d)) MethodDef.token (MethodDef.resembles_iff.mpr ⟨this, rfl, rfl⟩)
    (mem_chainMethods.mpr ⟨t, declares, listed⟩) fun e member same => by
      obtain ⟨u, above, own⟩ := mem_chainMethods.mp member
      exact (owner u above e own same).2
  rw [first, Option.some.injEq] at before
  rw [before]
  exact forall_takeWhile_flatMap MethodDef.token TypeDef.token declares listed
    (fun u member same => Option.some.inj ((distinct.typeDef? (inside u member)).symm.trans (same ▸ distinct.typeDef? (inside t declares))))
    fun u member e own same => (owner u member e own same).1

end Nearest

/-! ### The step of a virtual call -/

section Calls

variable {p : Program} {f : Frame} {s : Machine} {t : TypeDef} {d : MethodDef} {type : Token} {r : HeapRef}
  {arguments rest : List Value}

theorem Module.callShape_of_method? {m : Module} (table : d.token.table = Token.methodDef) (known : m.method? d.token = some (t, d)) :
    m.callShape d.token = .ok ⟨d.name, d.parameters.length, d.hasThis⟩ := by
  unfold callShape
  rw [if_pos table, known]
  rfl

/-- A virtual call on an object of a type is a call of the nearest method. -/
theorem call_virtual (free : p.hostMethods = []) (methods : ∀ e ∈ p.module.methods, e.2.token.table = Token.methodDef)
    (known : p.module.method? d.token = some (t, d)) (object : s.heap.get? r = some (.instance type)) (depth : Nat) :
    call p depth d.token (.ref r :: arguments) true s =
      callDefinition p depth (p.module.nearest type d).token (.ref r :: arguments) s := by
  obtain ⟨own, -⟩ := Module.token_of_method? known
  have shaped := Module.callShape_of_method? (methods _ own) known
  have table : (p.module.nearest type d).token.table = Token.methodDef := by
    rcases p.module.nearest_cases type d with same | ⟨member, -⟩
    · rw [same]
      exact methods _ own
    · obtain ⟨u, above, listed⟩ := Module.mem_chainMethods.mp member
      exact methods (u, _) (List.mem_flatMap.mpr ⟨u, p.module.mem_types_of_definitionChain type u above, List.mem_map_of_mem listed⟩)
  have goes : dispatch p.module s.heap d.token (some (.ref r)) = .ok (p.module.nearest type d).token := by
    have token : (((p.module.chainMethods type).find? (·.resembles d)).map (·.token)).getD d.token = (p.module.nearest type d).token :=
      Option.getD_map ..
    unfold dispatch
    simp only [Heap.get, object, shaped]
    exact congrArg Except.ok token
  have unhosted : ∀ token, p.hostMethod? token = none := fun token => by
    unfold Program.hostMethod?
    rw [free]
    rfl
  have resolved : compute (dispatch p.module s.heap d.token (some (.ref r))) s = .ok (p.module.nearest type d).token s := by
    rw [goes]
    rfl
  unfold call
  refine (Running.bind_of_ok resolved).trans ?_
  simp only [unhosted, Option.orElse_eq_orElse, Option.orElse_none, table, if_pos]

/-- A virtual call of a method that a type or one of its bases declares, on an object of the type: entered is the body of the
    nearest method. It is the first that has the name and the parameter types of the called method exactly if it has these
    types, and the called method itself exactly if neither a type below the one that declares it, nor that one before it, has
    an instance method of the same name with as many parameters. -/
theorem callvirt_enters_nearest (distinct : p.module.Distinct) (free : p.hostMethods = [])
    (methods : ∀ e ∈ p.module.methods, e.2.token.table = Token.methodDef)
    (known : p.module.method? d.token = some (t, d)) (declares : t ∈ p.module.definitionChain type)
    (found : f.activation.body.code.get? f.place = some ⟨.callvirt, .method d.token⟩)
    (pushed : f.stack = (.ref r :: arguments).reverse ++ rest) (fits : (Value.ref r :: arguments).length = d.signature.argumentCount)
    (object : s.heap.get? r = some (.instance type)) (cs : List Frame) :
    (∀ body first, (p.module.nearest type d).body = some body → body.code.first? = some first →
      (p.module.nearest type d).signature.argumentCount = d.signature.argumentCount → cs.length + 1 < p.limits.callDepth →
        p.after f cs s =
          .ok (.running (.start (.ofMethod (p.module.nearest type d) body (.ref r :: arguments)) [] first) ({ f with stack := rest } :: cs))
            (s.counted.noting (.entered (p.module.nearest type d).token))) ∧
    ((p.module.nearest type d).body = none →
      p.after f cs s = .error (.execution (.methodNotFound (p.module.nearest type d).token)) s.counted) ∧
    (d.hasThis = true →
      (p.module.nearest type d).signature.argumentCount = d.signature.argumentCount ∧
      (p.module.redeclaring? type d = some (p.module.nearest type d) ↔ (p.module.nearest type d).parameterTypes = d.parameterTypes) ∧
      (p.module.nearest type d = d ↔
        (∀ u ∈ (p.module.definitionChain type).takeWhile (·.token != t.token), ∀ e ∈ u.methods, e.resembles d = false) ∧
          ∀ e ∈ t.methods.takeWhile (·.token != d.token), e.resembles d = false)) := by
  obtain ⟨own, -⟩ := Module.token_of_method? known
  obtain ⟨u, among, same⟩ := List.mem_flatMap.mp own
  obtain ⟨listed, rfl⟩ : d ∈ t.methods ∧ u = t := by
    obtain ⟨e, listed, both⟩ := List.mem_map.mp same
    cases both
    exact ⟨listed, rfl⟩
  have inside := p.module.mem_types_of_definitionChain type
  have stands : ∃ u, p.module.method? (p.module.nearest type d).token = some (u, p.module.nearest type d) := by
    rcases p.module.nearest_cases type d with same | ⟨member, -⟩
    · rw [same]
      exact ⟨u, known⟩
    · obtain ⟨v, above, own⟩ := Module.mem_chainMethods.mp member
      exact ⟨v, distinct.method? (inside v above) own⟩
  obtain ⟨v, stands⟩ := stands
  have unhosted : p.hostMethod? (p.module.nearest type d).token = none := by
    unfold Program.hostMethod?
    rw [free]
    rfl
  have stepped : step p.module f ⟨.callvirt, .method d.token⟩ s.counted = .ok (rest, .call d.token (.ref r :: arguments) true) s.counted :=
    step_call (.ref r :: arguments) rest (.refl _) rfl rfl (Module.callShape_of_method? (methods _ own) known) fits pushed
      fun _ : true = true => ⟨r, arguments, rfl⟩
  have after : p.after f cs s = settleAttempt p.module ({ f with stack := rest } :: cs)
      (callDefinition p (cs.length + 1) (p.module.nearest type d).token (.ref r :: arguments)) s.counted := by
    rw [Program.after_call cs found stepped, settleAttempt_eq, settleAttempt_eq, call_virtual (s := s.counted) free methods known object]
  unfold callDefinition at after
  simp only [unhosted, stands] at after
  refine ⟨fun body first bodied starts counts deep => ?_, fun none => ?_, fun this => ⟨?_, ?_, ?_⟩⟩
  · have entered : enterBody p (cs.length + 1) (p.module.nearest type d) body (.ref r :: arguments) s.counted = .ok _ _ :=
      enterBody_eq_ok_iff.mpr ⟨fits.trans counts.symm, deep, rfl, first, starts, rfl⟩
    rw [after, settleAttempt_eq, bodied]
    dsimp only
    rw [entered]
    rfl
  · rw [after, settleAttempt_eq, none]
    rfl
  · rcases p.module.nearest_cases type d with same | ⟨-, resembles⟩
    · rw [same]
    · exact MethodDef.argumentCount_of_resembles resembles this
  · exact Module.redeclaring?_eq_nearest_iff declares listed this
  · exact Module.nearest_eq_self_iff distinct declares listed this

end Calls

namespace Sample

/-- A method that returns a number. -/
def telling (name : String) (parameters : List Parameter) (value : Opcode) : Method where
  name
  parameters
  result := .int32
  body := some { code := .ofList [⟨value, .none⟩, ⟨.ret, .none⟩] }

/-- A constructor that does nothing. -/
def making : Method := { name := constructorName, body := some { code := .ofList [⟨.ret, .none⟩] } }

/-- A type with two methods of one name, which take an object or a number. -/
def chooser : TypeDecl where
  name := ⟨"Sample", "Chooser"⟩
  methods := [making, telling "Pick" [⟨"value", .object⟩] .ldcI4_1, telling "Pick" [⟨"value", .int32⟩] .ldcI4_2, telling "Who" [] .ldcI4_1]

/-- A type that hides a method of its base. -/
def hider : TypeDecl where
  name := ⟨"Sample", "Hider"⟩
  base := some (.definition (.ofParts Token.typeDef 1))
  methods := [making, telling "Who" [] .ldcI4_2]

/-- The body that calls the method that takes a number. -/
def askPick : Body :=
  { code := .ofList
      [⟨.newobj, .method (.ofParts Token.methodDef 1)⟩, ⟨.ldcI4_7, .none⟩, ⟨.callvirt, .method (.ofParts Token.methodDef 3)⟩, ⟨.ret, .none⟩] }

/-- The body that calls the hidden method. -/
def askWho : Body :=
  { code := .ofList [⟨.newobj, .method (.ofParts Token.methodDef 5)⟩, ⟨.callvirt, .method (.ofParts Token.methodDef 4)⟩, ⟨.ret, .none⟩] }

/-- A static method with a body. -/
def questioning (name : String) (body : Body) : Method where
  name
  modifiers := { isStatic := true }
  result := .int32
  body := some body

/-- The module of both types and of the methods that call theirs. -/
def choosers : Module :=
  let start : Module := { name := "Sample", library := .standard }
  (((start.addType chooser).1.addType hider).1.addType
    { name := ⟨"Sample", "Host"⟩, methods := [questioning "AskPick" askPick, questioning "AskWho" askWho] }).1

/-- The method of a token of the module. -/
def chooserMethod (row : Nat) : MethodDef := ((choosers.method? (.ofParts Token.methodDef row)).map (·.2)).getD default

/-- The frame of the first call, which has made an object and pushed it and a number. -/
def askingFrame : Frame := { Frame.start (.ofMethod (chooserMethod 7) askPick []) [] ⟨2⟩ with stack := [.int32 7, .ref ⟨1⟩] }

/-- The heap with the object. -/
def chooserHeap : Heap := ({} : Heap).push (.instance (.ofParts Token.typeDef 1))

theorem choosers_distinct : choosers.Distinct :=
  ⟨show (choosers.types.map (·.token)).Nodup by decide +kernel,
    show (choosers.types.flatMap fun t => t.methods.map (·.token)).Nodup by decide +kernel⟩

set_option maxRecDepth 100000 in
/-- The call of the method that takes a number enters the one that takes an object, which does not redeclare it. -/
theorem pick_enters_other :
    (∃ body first t, (chooserMethod 2).body = some body ∧
      Program.after { module := choosers } askingFrame [] { heap := chooserHeap } =
        .ok (.running (.start (.ofMethod (chooserMethod 2) body [.ref ⟨1⟩, .int32 7]) [] first) [{ askingFrame with stack := [] }]) t) ∧
      choosers.redeclaring? (.ofParts Token.typeDef 1) (chooserMethod 3) ≠ some (chooserMethod 2) := by
  have nearest : choosers.nearest (.ofParts Token.typeDef 1) (chooserMethod 3) = chooserMethod 2 := rfl
  have methods : ∀ e ∈ choosers.methods, e.2.token.table = Token.methodDef := by decide +kernel
  obtain ⟨enters, -, resembles⟩ := callvirt_enters_nearest (p := { module := choosers }) (d := chooserMethod 3) (f := askingFrame)
    (s := { heap := chooserHeap }) (r := ⟨1⟩) choosers_distinct rfl methods rfl (List.mem_singleton.mpr rfl) rfl
    (show askingFrame.stack = [.ref ⟨1⟩, .int32 7].reverse ++ [] from rfl) rfl rfl []
  dsimp only at enters resembles
  rw [nearest] at enters resembles
  obtain ⟨counts, redeclares, -⟩ := resembles rfl
  refine ⟨⟨_, _, _, rfl, enters _ _ rfl rfl counts (by decide)⟩, fun same => ?_⟩
  have types := congrArg List.head? (redeclares.mp same)
  cases types

set_option maxRecDepth 100000 in
/-- A call of the method that takes a number returns what the one that takes an object does; and a call of a method that is not
    virtual, on an object of a type that hides it, returns what the hiding one does. -/
theorem pick_overloaded :
    askPick.validate.isOk ∧ askWho.validate.isOk ∧
      (choosers.redeclaring? (.ofParts Token.typeDef 1) (chooserMethod 3)).map (·.token) = some (chooserMethod 3).token ∧
      ((chooserMethod 3).body.get rfl).code.instructions.map (·.opcode) = #[.ldcI4_2, .ret] ∧
      returned? { module := choosers } (chooserMethod 7).token [] = some 1 ∧
      (chooserMethod 4).modifiers.isVirtual = false ∧
      ((chooserMethod 4).body.get rfl).code.instructions.map (·.opcode) = #[.ldcI4_1, .ret] ∧
      returned? { module := choosers } (chooserMethod 8).token [] = some 2 := by
  decide +kernel

end Sample

end AspectWeaving

import AspectWeaving.Proofs.HookCalls
import Mathlib.Data.List.Forall2

/-!
What a plan knows. Planning a weave looks up tokens and imports rows where they are missing; a table only
grows meanwhile (`ImportTable.Grows`), so a token that names a row names it for ever
(`ImportTable.NamesType`, `ImportTable.NamesMember`). `WeavePlan.PlannedFor` says what the plan of a method
is made of, and `planWeave_plannedFor` that a plan that is found is made so.
-/
namespace AspectWeaving

/-! ### Rows -/

section Rows

variable {α : Type} [DecidableEq α] {rows : Array α} {row x : α} {i : Nat}

theorem getElem?_intern (here : rows[i]? = some x) (row : α) : (intern rows row).1[i]? = some x := by
  unfold intern
  split
  · exact here
  · have inside := (Array.getElem?_eq_some_iff.mp here).1
    rw [Array.getElem?_push_lt inside, ← Array.getElem?_eq_getElem inside]
    exact here

theorem getElem?_intern_self (rows : Array α) (row : α) : (intern rows row).1[(intern rows row).2]? = some row := by
  unfold intern
  split
  · rename_i index found
    have listed : rows.idxOf? row = rows.toList.idxOf? row := by
      cases rows
      exact List.idxOf?_toArray ..
    rw [listed, List.idxOf?_eq_some_iff] at found
    obtain ⟨inside, here, -⟩ := found
    rw [← Array.getElem?_toList, List.getElem?_eq_getElem inside, here]
  · simp

end Rows

namespace ImportTable

variable {t u v : ImportTable} {token : Token} {name : TypeName} {member : MemberRef}

/-- A later table has the rows of an earlier one. -/
structure Grows (t u : ImportTable) : Prop where
  typeRefs : ∀ {i : Nat} {x}, t.typeRefs[i]? = some x → u.typeRefs[i]? = some x
  memberRefs : ∀ {i : Nat} {x}, t.memberRefs[i]? = some x → u.memberRefs[i]? = some x
  typeSpecs : ∀ {i : Nat} {x}, t.typeSpecs[i]? = some x → u.typeSpecs[i]? = some x

theorem Grows.refl (t : ImportTable) : t.Grows t := ⟨id, id, id⟩

theorem Grows.trans (first : t.Grows u) (second : u.Grows v) : t.Grows v :=
  ⟨second.typeRefs ∘ first.typeRefs, second.memberRefs ∘ first.memberRefs, second.typeSpecs ∘ first.typeSpecs⟩

theorem Grows.size_memberRefs (grows : t.Grows u) : t.memberRefs.size ≤ u.memberRefs.size := by
  by_contra fewer
  have last := grows.memberRefs (Array.getElem?_eq_getElem (i := u.memberRefs.size) (by omega))
  exact absurd (Array.getElem?_eq_some_iff.mp last).1 (Nat.lt_irrefl _)

/-- A token is that of a row of an imported type. -/
def NamesType (t : ImportTable) (token : Token) (name : TypeName) : Prop :=
  ∃ i : Nat, t.typeRefs[i]? = some name ∧ token = .ofParts Token.typeRef (i + 1)

/-- A token is that of a row of an imported method. -/
def NamesMember (t : ImportTable) (token : Token) (member : MemberRef) : Prop :=
  ∃ i : Nat, t.memberRefs[i]? = some member ∧ token = .ofParts Token.memberRef (i + 1)

/-- The number of rows of a table that a token can tell apart: it has 24 bits for them. -/
def maxRows : Nat := 0xFFFFFF

theorem NamesType.mono (names : t.NamesType token name) (grows : t.Grows u) : u.NamesType token name := by
  obtain ⟨i, here, same⟩ := names
  exact ⟨i, grows.typeRefs here, same⟩

theorem NamesMember.mono (names : t.NamesMember token member) (grows : t.Grows u) : u.NamesMember token member := by
  obtain ⟨i, here, same⟩ := names
  exact ⟨i, grows.memberRefs here, same⟩

private theorem rowOf?_ofParts {α : Type} {rows : Array α} {x : α} {i table : Nat} (room : rows.size ≤ maxRows)
    (here : rows[i]? = some x) (known : table < 0x100) : rowOf? rows table (.ofParts table (i + 1)) = some x := by
  have inside := (Array.getElem?_eq_some_iff.mp here).1
  have row : (Token.ofParts table (i + 1)).row = i + 1 := by
    unfold maxRows at room
    rw [Token.row_ofParts]
    omega
  have own : (Token.ofParts table (i + 1)).table = table := by
    rw [Token.table_ofParts]
    omega
  unfold rowOf?
  rw [row, own, if_pos ⟨rfl, Nat.succ_pos i⟩, Nat.add_sub_cancel]
  exact here

theorem NamesType.getTypeRef? (names : t.NamesType token name) (room : t.typeRefs.size ≤ maxRows) :
    t.getTypeRef? token = some name := by
  obtain ⟨i, here, rfl⟩ := names
  exact rowOf?_ofParts room here (by decide)

theorem NamesMember.getMemberRef? (names : t.NamesMember token member) (room : t.memberRefs.size ≤ maxRows) :
    t.getMemberRef? token = some member := by
  obtain ⟨i, here, rfl⟩ := names
  exact rowOf?_ofParts room here (by decide)

theorem NamesType.table (names : t.NamesType token name) : token.table = Token.typeRef := by
  obtain ⟨i, -, rfl⟩ := names
  exact Token.table_ofParts ..

theorem NamesMember.table (names : t.NamesMember token member) : token.table = Token.memberRef := by
  obtain ⟨i, -, rfl⟩ := names
  exact Token.table_ofParts ..

theorem grows_typeRef (t : ImportTable) (name : TypeName) : t.Grows (t.typeRef name).1 :=
  ⟨fun here => getElem?_intern here name, id, id⟩

theorem grows_memberRef (t : ImportTable) (member : MemberRef) : t.Grows (t.memberRef member).1 :=
  ⟨id, fun here => getElem?_intern here member, id⟩

theorem grows_typeSpec (t : ImportTable) (sig : TypeSig) : t.Grows (t.typeSpec sig).1 :=
  ⟨id, id, fun here => getElem?_intern here sig⟩

end ImportTable

/-! ### Look-ups -/

section Lookups

variable {t u : ImportTable} {r : Resolver} {token : Token} {name host : TypeName}
  {q : MethodQuery}

open ImportTable (Grows)

/-- A token is that of the method of a library type that is asked for. -/
def Resolver.Imports (r : Resolver) (host : TypeName) (q : MethodQuery) (u : ImportTable) (token : Token) : Prop :=
  ∃ found parent, r.findLibraryMethod? host q = some found ∧
    u.NamesMember token
      { parent, name := found.2.name, parameters := found.2.parameters, hasThis := found.2.hasThis }

theorem Resolver.Imports.mono (imported : r.Imports host q t token) (grows : t.Grows u) :
    r.Imports host q u token := by
  obtain ⟨found, parent, here, names⟩ := imported
  exact ⟨found, parent, here, names.mono grows⟩

/-- A method of the library that is found is one that is asked for. -/
theorem Resolver.accepts_of_findLibraryMethod? {found : LibraryType × LibraryMethod}
    (here : r.findLibraryMethod? host q = some found) : q.acceptsLibrary found.2 = true := by
  obtain ⟨type, -, finds⟩ := List.exists_of_findSome?_eq_some here
  obtain ⟨method, listed, rfl⟩ := Option.map_eq_some_iff.mp finds
  exact List.find?_some listed

theorem MethodQuery.name_of_acceptsLibrary {method : LibraryMethod} (accepted : q.acceptsLibrary method = true) :
    method.name = q.name := by
  simp only [acceptsLibrary, accepts, Bool.and_eq_true, beq_iff_eq] at accepted
  exact accepted.1.1

theorem MethodQuery.count_of_acceptsLibrary {method : LibraryMethod} {n : Nat} (accepted : q.acceptsLibrary method = true)
    (asked : q.count = some n) : method.parameters.length = n := by
  simp only [acceptsLibrary, accepts, asked, Option.all_some, Bool.and_eq_true, beq_iff_eq, List.length_map] at accepted
  exact accepted.1.2.symm

theorem Resolver.Imports.table (imported : r.Imports host q u token) : token.table = Token.memberRef := by
  obtain ⟨found, parent, -, names⟩ := imported
  exact names.table

/-- The row of a method of the library that is asked for. -/
theorem Resolver.Imports.row (imported : r.Imports host q u token) (room : u.memberRefs.size ≤ ImportTable.maxRows) :
    ∃ row found, u.getMemberRef? token = some row ∧ r.findLibraryMethod? host q = some found ∧ row.name = q.name ∧
      (∀ n, q.count = some n → row.parameters.length = n) ∧ row.hasThis = found.2.hasThis := by
  obtain ⟨found, parent, here, names⟩ := imported
  have accepted := r.accepts_of_findLibraryMethod? here
  exact ⟨_, found, names.getMemberRef? room, here, MethodQuery.name_of_acceptsLibrary accepted,
    fun n => MethodQuery.count_of_acceptsLibrary accepted, rfl⟩

theorem importing_bind {α β : Type} {x : Importing α} {f : α → Importing β} {b : β}
    (done : (x >>= f) t = .ok b u) : ∃ a v, x t = .ok a v ∧ f a v = .ok b u := by
  simp only [bind, EStateM.bind] at done
  split at done
  · exact ⟨_, _, by assumption, done⟩
  · cases done

private theorem importing_ite {α β : Type} {c : Prop} [Decidable c] {x y : Importing α} {f : α → Importing β}
    {b : β} (done : (if c then x >>= f else y >>= f) t = .ok b u) :
    ∃ a v, (if c then x else y) t = .ok a v ∧ f a v = .ok b u := by
  by_cases holds : c
  · rw [if_pos holds] at done
    rw [if_pos holds]
    exact importing_bind done
  · rw [if_neg holds] at done
    rw [if_neg holds]
    exact importing_bind done

theorem Resolver.resolveType_external (done : r.resolveType (.external name) t = .ok token u) :
    t.Grows u ∧ u.NamesType token name := by
  simp only [resolveType] at done
  split at done
  · cases done
    exact ⟨t.grows_typeRef name, _, getElem?_intern_self .., rfl⟩
  · cases done

theorem Resolver.resolveType_definition {type : Token} (done : r.resolveType (.definition type) t = .ok token u) :
    t = u ∧ token = type := by
  simp only [resolveType] at done
  split at done
  · cases done
    exact ⟨rfl, rfl⟩
  · cases done

theorem Resolver.resolveMethod_external (done : r.resolveMethod (.external host) q t = .ok token u) :
    t.Grows u ∧ r.Imports host q u token := by
  simp only [resolveMethod] at done
  split at done
  · unfold resolveLibraryMethod at done
    cases here : r.findLibraryMethod? host q with
    | none =>
      simp only [here] at done
      cases done
    | some found =>
      simp only [here] at done
      obtain ⟨parent, v, first, second⟩ := importing_bind done
      cases first
      cases second
      exact ⟨(t.grows_typeRef _).trans (ImportTable.grows_memberRef _ _), found, _, here, _,
        getElem?_intern_self .., rfl⟩
  · cases done

theorem Resolver.grows_importType {sig : TypeSig} (done : r.importType sig t = .ok token u) : t.Grows u := by
  have builtin : ∀ name, r.resolveType (.external name) t = .ok token u → t.Grows u :=
    fun _ found => (resolveType_external found).1
  cases sig with
  | classType | valueType =>
    cases done
    exact .refl t
  | array | byRef =>
    cases done
    exact t.grows_typeSpec _
  | _ => exact builtin _ done

end Lookups

/-! ### Plans -/

/-- A parameter is loaded from its argument: a value is boxed, and nothing is fetched unless by reference. -/
structure ParameterLoad.Loads (s : Signature) (l : ParameterLoad) (p : Parameter × Nat) : Prop where
  argument : l.argument.toNat = s.argumentIndex p.2
  fetch : l.Fetches
  direct : p.1.sig.byRefElement? = none → l.deref = none ∧ l.boxType.isSome = p.1.sig.isValueType

/-- A plan is made for a method and a decorator; the table has the rows it names. -/
structure WeavePlan.PlannedFor (plan : WeavePlan) (r : Resolver) (d : MethodDef) (b : Body) (kind : DecoratorKind)
    (u : ImportTable) : Prop where
  anchor : d.isConstructor = false → b.code.first? = some plan.anchor
  onEntry : plan.onEntry = kind.onEntry
  onExit : plan.onExit = kind.onExit
  onException : plan.onException = kind.onException
  attributeType : plan.attributeType = kind.attributeType
  result : plan.result = d.result
  resultBox : plan.resultBox.isSome = d.result.isValueType
  storesResult : plan.storesResult = (b.code.entries.any (·.2.opcode == .ret) && !d.result.isVoid)
  parameters : List.Forall₂ (ParameterLoad.Loads d.signature) plan.parameters d.parameters.zipIdx
  exception : u.NamesType plan.exception WellKnown.exception
  getMethodFromHandle : r.Imports WellKnown.methodBase
    (({ name := "GetMethodFromHandle" } : MethodQuery).withTypes
      [WellKnown.methodHandle.fullName, WellKnown.typeHandle.fullName]) u plan.getMethodFromHandle
  getCustomAttributes : r.Imports WellKnown.methodBase
    (({ name := "GetCustomAttributes" } : MethodQuery).withTypes
      [WellKnown.type.fullName, WellKnown.boolean.fullName]) u plan.getCustomAttributes
  getTypeFromHandle : r.Imports WellKnown.type
    (({ name := "GetTypeFromHandle" } : MethodQuery).withTypes [WellKnown.typeHandle.fullName]) u
    plan.getTypeFromHandle

namespace WeavePlan.PlannedFor

variable {plan : WeavePlan} {r : Resolver} {d : MethodDef} {b : Body} {kind : DecoratorKind} {u : ImportTable}

theorem fetches (planned : plan.PlannedFor r d b kind u) : ∀ l ∈ plan.parameters, l.Fetches := by
  intro l member
  obtain ⟨n, here⟩ := List.mem_iff_getElem?.mp member
  have paired := planned.parameters
  rw [List.forall₂_iff_get] at paired
  obtain ⟨bound, rfl⟩ := List.getElem?_eq_some_iff.mp here
  exact (paired.2 n bound (paired.1 ▸ bound)).fetch

theorem fetchesStraight (planned : plan.PlannedFor r d b kind u) : plan.FetchesStraight := by
  intro l member i fetched
  rcases planned.fetches l member i fetched with rfl | ⟨type, rfl⟩ <;> trivial

end WeavePlan.PlannedFor

section Planning

variable {t u : ImportTable} {r : Resolver} {faults : ShapeFault → Fault} {s : Signature}

private theorem planParameter_loads {index : Nat} {p : Parameter} {l : ParameterLoad}
    (done : planParameter r faults s index p.sig t = .ok l u) : t.Grows u ∧ l.Loads s (p, index) := by
  simp only [planParameter] at done
  split at done
  · rename_i room
    have argument : (UInt16.ofNat (s.argumentIndex index)).toNat = s.argumentIndex index := by
      rw [UInt16.toNat_ofNat']
      exact Nat.mod_eq_of_lt room
    cases element : p.sig.byRefElement? with
    | some referred =>
      have direct : p.sig.byRefElement? ≠ none := by
        rw [element]
        exact Option.some_ne_none referred
      simp only [element] at done
      split at done
      · obtain ⟨type, v, imported, last⟩ := importing_bind done
        cases last
        exact ⟨r.grows_importType imported, argument, fun i fetched => .inr ⟨_, (Option.some.inj fetched).symm⟩,
          fun other => (direct other).elim⟩
      · cases done
        exact ⟨.refl t, argument, fun i fetched => .inl (Option.some.inj fetched).symm,
          fun other => (direct other).elim⟩
    | none =>
      simp only [element] at done
      split at done
      · rename_i valued
        obtain ⟨type, v, imported, last⟩ := importing_bind done
        cases last
        exact ⟨r.grows_importType imported, argument,
          fun _ fetched => absurd fetched (Option.not_mem_none _), fun _ => ⟨rfl, valued.symm⟩⟩
      · rename_i other
        cases done
        exact ⟨.refl t, argument,
          fun _ fetched => absurd fetched (Option.not_mem_none _), fun _ => ⟨rfl, by simpa using other⟩⟩
  · cases done

private theorem mapM_planParameter {ps : List (Parameter × Nat)} {ls : List ParameterLoad}
    (done : ps.mapM (fun e => planParameter r faults s e.2 e.1.sig) t = .ok ls u) :
    t.Grows u ∧ List.Forall₂ (ParameterLoad.Loads s) ls ps := by
  induction ps generalizing t u ls with
  | nil =>
    cases done
    exact ⟨.refl t, .nil⟩
  | cons p ps ih =>
    rw [List.mapM_cons] at done
    obtain ⟨l, v, first, rest⟩ := importing_bind done
    obtain ⟨others, v', second, last⟩ := importing_bind rest
    cases last
    obtain ⟨grows, loads⟩ := planParameter_loads first
    obtain ⟨onward, more⟩ := ih second
    exact ⟨grows.trans onward, .cons loads more⟩

private theorem findAnchor_first {b : Body} {anchor : Handle} (found : findAnchor r t b false = .ok anchor) :
    b.code.first? = some anchor := by
  unfold findAnchor at found
  split at found
  · cases found
  · cases found
    assumption

/-- A plan that is found is made for its method and decorator. -/
theorem planWeave_plannedFor {fullName : String} {d : MethodDef} {b : Body} {kind : DecoratorKind} {plan : WeavePlan}
    (done : planWeave r fullName d b kind t = .ok plan u) :
    findAnchor r t b d.isConstructor = .ok plan.anchor ∧ t.Grows u ∧ plan.PlannedFor r d b kind u := by
  unfold planWeave at done
  obtain ⟨table, t₀, got, done⟩ := importing_bind done
  cases got
  cases anchored : findAnchor r t b d.isConstructor with
  | error cause =>
    simp only [Lookups.rows_self, anchored] at done
    cases done
  | ok anchor =>
    simp only [Lookups.rows_self, anchored] at done
    obtain ⟨_, t₀, same, done⟩ := importing_bind done
    cases same
    obtain ⟨getMethod, t₁, first, done⟩ := importing_bind done
    obtain ⟨getAttributes, t₂, second, done⟩ := importing_bind done
    obtain ⟨getType, t₃, third, done⟩ := importing_bind done
    obtain ⟨attributeType, t₄, fourth, done⟩ := importing_bind done
    obtain ⟨parameters, t₅, fifth, done⟩ := importing_bind done
    obtain ⟨resultBox, t₆, sixth, done⟩ := importing_ite done
    obtain ⟨methodBase, t₇, seventh, done⟩ := importing_bind done
    obtain ⟨exception, t₈, eighth, done⟩ := importing_bind done
    obtain ⟨object, t₉, ninth, done⟩ := importing_bind done
    cases done
    obtain ⟨grows₁, methods⟩ := r.resolveMethod_external first
    obtain ⟨grows₂, attributes⟩ := r.resolveMethod_external second
    obtain ⟨grows₃, types⟩ := r.resolveMethod_external third
    obtain ⟨rfl, rfl⟩ := r.resolveType_definition fourth
    obtain ⟨grows₅, loads⟩ := mapM_planParameter fifth
    obtain ⟨grows₆, boxes⟩ : t₅.Grows t₆ ∧ resultBox.isSome = d.result.isValueType := by
      split at sixth
      · rename_i valued
        obtain ⟨type, v, imported, last⟩ := importing_bind sixth
        cases last
        exact ⟨r.grows_importType imported, valued.symm⟩
      · rename_i other
        cases sixth
        exact ⟨.refl t₅, by simpa using other⟩
    obtain ⟨grows₇, -⟩ := r.resolveType_external seventh
    obtain ⟨grows₈, exceptions⟩ := r.resolveType_external eighth
    obtain ⟨grows₉, -⟩ := r.resolveType_external ninth
    have late := grows₇.trans (grows₈.trans grows₉)
    have middle := grows₅.trans (grows₆.trans late)
    exact ⟨rfl, grows₁.trans (grows₂.trans (grows₃.trans middle)),
      { anchor := fun other => findAnchor_first (by rw [← other]; exact anchored)
        onEntry := rfl
        onExit := rfl
        onException := rfl
        attributeType := rfl
        result := rfl
        resultBox := boxes
        storesResult := rfl
        parameters := loads
        exception := exceptions.mono grows₉
        getMethodFromHandle := methods.mono (grows₂.trans (grows₃.trans middle))
        getCustomAttributes := attributes.mono (grows₃.trans middle)
        getTypeFromHandle := types.mono middle }⟩

end Planning

end AspectWeaving

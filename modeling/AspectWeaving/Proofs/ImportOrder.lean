import AspectWeaving.Proofs.ImportGrowth
import AspectWeaving.Proofs.Renaming

/-!
Imports from different tables. What a weave imports does not depend on the rows that are there already, but the
tokens do. A plan looks up the methods of reflection first, which are rows of their own only once
(`replays_reflectionMethods`), and then imports types only: from any two tables the same ones, with the tokens in
which the tables differ renamed (`agrees_planWith`). So plans that are made at two stages of a module
(`Resolver.Reaches`) are alike, and so are the tables they leave behind (`planWeave_agrees`).
-/
namespace AspectWeaving

/-! ### Rows -/

section Rows

variable {α : Type} [DecidableEq α] {rows later : Array α} {row x : α} {i : Nat}

theorem idxOf?_eq_some_iff : rows.idxOf? x = some i ↔ rows[i]? = some x ∧ ∀ j < i, rows[j]? ≠ some x := by
  have listed : rows.idxOf? x = rows.toList.idxOf? x := by
    cases rows
    exact List.idxOf?_toArray ..
  rw [listed, List.idxOf?_eq_some_iff]
  constructor
  · rintro ⟨inside, here, first⟩
    refine ⟨by rw [← Array.getElem?_toList, List.getElem?_eq_getElem inside, here], fun j before same => ?_⟩
    rw [← Array.getElem?_toList, List.getElem?_eq_some_iff] at same
    exact first j before same.2
  · rintro ⟨here, first⟩
    rw [← Array.getElem?_toList, List.getElem?_eq_some_iff] at here
    refine ⟨here.1, here.2, fun j before same => first j before ?_⟩
    rw [← Array.getElem?_toList, List.getElem?_eq_getElem (Nat.lt_trans before here.1), same]

theorem idxOf?_intern_self (rows : Array α) (row : α) : (intern rows row).1.idxOf? row = some (intern rows row).2 := by
  unfold intern
  split
  · assumption
  · rename_i missing
    refine idxOf?_eq_some_iff.mpr ⟨by simp, fun j before same => ?_⟩
    rw [Array.getElem?_push_lt before] at same
    have none := Array.idxOf?_eq_none_iff.mp missing
    exact none (Array.mem_of_getElem (Option.some.inj same))

/-- The first of some equal rows stays the first while rows are added. -/
theorem idxOf?_mono (found : rows.idxOf? x = some i) (grows : ∀ {j : Nat} {y}, rows[j]? = some y → later[j]? = some y) :
    later.idxOf? x = some i := by
  rw [idxOf?_eq_some_iff] at found ⊢
  refine ⟨grows found.1, fun j before same => ?_⟩
  have inside := (Array.getElem?_eq_some_iff.mp found.1).1
  have early : j < rows.size := by omega
  have here := Array.getElem?_eq_getElem early
  have there := grows here
  rw [same] at there
  exact found.2 j before (here.trans there.symm)

/-- A row that is there stays where it is while rows are added, and adds nothing. -/
theorem intern_again (grows : ∀ {j : Nat} {y}, (intern rows row).1[j]? = some y → later[j]? = some y) :
    intern later row = (later, (intern rows row).2) := by
  have again := idxOf?_mono (idxOf?_intern_self rows row) grows
  conv => lhs; unfold intern
  rw [again]

theorem mem_intern : x ∈ (intern rows row).1 ↔ x ∈ rows ∨ x = row := by
  unfold intern
  split
  · rename_i index found
    refine ⟨.inl, fun either => either.elim id ?_⟩
    rintro rfl
    exact Array.mem_of_getElem? (idxOf?_eq_some_iff.mp found).1
  · exact Array.mem_push

end Rows

namespace ImportTable

variable {t u v : ImportTable} {token a b : Token} {name : TypeName} {names more : List TypeName} {owned : Token → Prop}

/-- The table with some imported types. -/
def withTypes (t : ImportTable) (names : List TypeName) : ImportTable := names.foldl (fun t name => (t.typeRef name).1) t

theorem withTypes_append : t.withTypes (names ++ more) = (t.withTypes names).withTypes more := List.foldl_append ..

theorem grows_withTypes (t : ImportTable) (names : List TypeName) : t.Grows (t.withTypes names) := by
  induction names generalizing t with
  | nil => exact .refl t
  | cons name names ih => exact (t.grows_typeRef name).trans (ih _)

theorem memberRefs_withTypes (t : ImportTable) (names : List TypeName) : (t.withTypes names).memberRefs = t.memberRefs := by
  induction names generalizing t with
  | nil => rfl
  | cons name names ih => exact ih _

theorem typeSpecs_withTypes (t : ImportTable) (names : List TypeName) : (t.withTypes names).typeSpecs = t.typeSpecs := by
  induction names generalizing t with
  | nil => rfl
  | cons name names ih => exact ih _

theorem mem_withTypes : name ∈ (t.withTypes names).typeRefs ↔ name ∈ t.typeRefs ∨ name ∈ names := by
  induction names generalizing t with
  | nil => simp [withTypes]
  | cons first names ih =>
    have imported : name ∈ (t.typeRef first).1.typeRefs ↔ name ∈ t.typeRefs ∨ name = first := mem_intern
    show name ∈ ((t.typeRef first).1.withTypes names).typeRefs ↔ _
    rw [ih, imported, List.mem_cons, or_assoc]

/-- A token is the one that asking for a type gives. -/
def Interns (t : ImportTable) (token : Token) (name : TypeName) : Prop :=
  ∃ i, t.typeRefs.idxOf? name = some i ∧ token = .ofParts Token.typeRef (i + 1)

theorem interns_typeRef (t : ImportTable) (name : TypeName) : (t.typeRef name).1.Interns (t.typeRef name).2 name :=
  ⟨_, idxOf?_intern_self .., rfl⟩

theorem Interns.mono (interns : t.Interns token name) (grows : t.Grows u) : u.Interns token name := by
  obtain ⟨i, found, same⟩ := interns
  exact ⟨i, idxOf?_mono found grows.typeRefs, same⟩

/-- Asking for a type that is there gives its token and adds nothing. -/
theorem Interns.typeRef (interns : t.Interns token name) : t.typeRef name = (t, token) := by
  obtain ⟨i, found, rfl⟩ := interns
  unfold ImportTable.typeRef intern
  rw [found]

/-- Two tokens stand for the same type in two tables, or they are the same and not imported. -/
def Same (owned : Token → Prop) (t u : ImportTable) (a b : Token) : Prop :=
  (∃ name, t.Interns a name ∧ u.Interns b name) ∨ (a = b ∧ owned a)

theorem Same.mono {t' u' : ImportTable} (same : Same owned t u a b) (first : t.Grows t') (second : u.Grows u') :
    Same owned t' u' a b := by
  rcases same with ⟨name, left, right⟩ | own
  · exact .inl ⟨name, left.mono first, right.mono second⟩
  · exact .inr own

theorem Same.withTypes (same : Same owned t u a b) (names : List TypeName) : Same owned (t.withTypes names) (u.withTypes names) a b :=
  same.mono (t.grows_withTypes names) (u.grows_withTypes names)

theorem Same.own (own : owned a) : Same owned t u a a := .inr ⟨rfl, own⟩

/-- A table is another one with types, and with methods that are no constructors of types that are there. -/
structure Linked (t u : ImportTable) : Prop where
  grows : t.Grows u
  types : ∃ names, u.typeRefs = (t.withTypes names).typeRefs
  specs : u.typeSpecs = t.typeSpecs
  members : ∀ {i : Nat} {row}, t.memberRefs.size ≤ i → u.memberRefs[i]? = some row →
    row.name ≠ constructorName ∧ ∃ name, u.Interns row.parent name

theorem linked_withTypes (t : ImportTable) (names : List TypeName) : t.Linked (t.withTypes names) where
  grows := t.grows_withTypes names
  types := ⟨names, rfl⟩
  specs := t.typeSpecs_withTypes names
  members behind here := by
    rw [memberRefs_withTypes] at here
    exact absurd (Array.getElem?_eq_some_iff.mp here).1 (Nat.not_lt.mpr behind)

theorem Linked.refl (t : ImportTable) : t.Linked t := t.linked_withTypes []

theorem typeRefs_withTypes (same : t.typeRefs = u.typeRefs) : (t.withTypes names).typeRefs = (u.withTypes names).typeRefs := by
  induction names generalizing t u with
  | nil => exact same
  | cons name names ih => exact ih (congrArg (fun rows => (intern rows name).1) same)

theorem Linked.trans (first : t.Linked u) (second : u.Linked v) : t.Linked v where
  grows := first.grows.trans second.grows
  types := by
    obtain ⟨names, here⟩ := first.types
    obtain ⟨more, there⟩ := second.types
    exact ⟨names ++ more, by rw [there, withTypes_append, typeRefs_withTypes here]⟩
  specs := second.specs.trans first.specs
  members {i row} behind here := by
    by_cases between : i < u.memberRefs.size
    · have known := Array.getElem?_eq_getElem between
      cases here.symm.trans (second.grows.memberRefs known)
      obtain ⟨plain, name, parent⟩ := first.members behind known
      exact ⟨plain, name, parent.mono second.grows⟩
    · exact second.members (Nat.not_lt.mp between) here

end ImportTable

/-! ### The methods of reflection -/

/-- The table an import leaves behind. -/
def Importing.table {α : Type} (x : Importing α) (t : ImportTable) : ImportTable :=
  match x t with
  | .ok _ u | .error _ u => u

/-- An import that has been made gives the same again, and adds nothing. -/
structure Importing.Replays {α : Type} (x : Importing α) : Prop where
  ok : ∀ {t a u v}, x t = .ok a u → u.Grows v → x v = .ok a v
  error : ∀ {t fault u v}, x t = .error fault u → u.Grows v → x v = .error fault v
  linked : ∀ t : ImportTable, t.Linked (x.table t)

namespace Importing.Replays

open ImportTable (Linked)

variable {α β : Type} {x : Importing α} {f : α → Importing β}

theorem pure (a : α) : Replays (pure a : Importing α) where
  ok done _ := by cases done; rfl
  error done := by cases done
  linked := .refl

theorem throw (fault : Fault) : Replays (throw fault : Importing α) where
  ok done := by cases done
  error done _ := by cases done; rfl
  linked := .refl

theorem bind_apply (x : Importing α) (f : α → Importing β) (t : ImportTable) :
    (x >>= f) t = match x t with
      | .ok a u => f a u
      | .error fault u => .error fault u := by
  show EStateM.bind x f t = _
  unfold EStateM.bind
  cases x t <;> rfl

theorem bind (first : Replays x) (second : ∀ a, Replays (f a)) : Replays (x >>= f) := by
  have grows : ∀ {t a u}, f a t = u → t.Grows ((f a).table t) := fun _ => ((second _).linked _).grows
  refine ⟨fun {t b w v} done onward => ?_, fun {t fault w v} failed onward => ?_, fun t => ?_⟩
  · rw [bind_apply] at done ⊢
    cases came : x t with
    | error cause u => rw [came] at done; cases done
    | ok a u =>
      rw [came] at done
      have between := grows done
      unfold Importing.table at between
      simp only at done
      rw [done] at between
      rw [first.ok came (between.trans onward)]
      exact (second a).ok done onward
  · rw [bind_apply] at failed ⊢
    cases came : x t with
    | error cause u =>
      rw [came] at failed
      cases failed
      rw [first.error came onward]
    | ok a u =>
      rw [came] at failed
      have between := grows failed
      unfold Importing.table at between
      simp only at failed
      rw [failed] at between
      rw [first.ok came (between.trans onward)]
      exact (second a).error failed onward
  · have start := first.linked t
    unfold Importing.table at start ⊢
    rw [bind_apply]
    cases came : x t with
    | error cause u => rwa [came] at start
    | ok a u =>
      rw [came] at start
      exact start.trans ((second a).linked u)

end Importing.Replays

section Reflection

open Importing (Replays)

variable {r : Resolver} {t u v base : ImportTable} {q : MethodQuery}

theorem importing_apply {α : Type} (step : ImportTable → ImportTable × α) (t : ImportTable) :
    importing step t = .ok (step t).2 (step t).1 := rfl

theorem replays_typeRef (name : TypeName) : Replays (importing (·.typeRef name)) where
  ok {t a u v} done grows := by
    rw [importing_apply] at done ⊢
    obtain ⟨rfl, rfl⟩ := EStateM.Result.ok.inj done
    rw [((t.interns_typeRef name).mono grows).typeRef]
  error done := by cases done
  linked t := t.linked_withTypes [name]

theorem importing_memberRef_again {row : MemberRef} {a : Token} (done : importing (·.memberRef row) t = .ok a u) (grows : u.Grows v) :
    importing (·.memberRef row) v = .ok a v := by
  rw [importing_apply] at done ⊢
  obtain ⟨rfl, rfl⟩ := EStateM.Result.ok.inj done
  unfold ImportTable.memberRef
  rw [intern_again grows.memberRefs]

theorem importing_typeSpec_again {sig : TypeSig} {a : Token} (done : importing (·.typeSpec sig) t = .ok a u) (grows : u.Grows v) :
    importing (·.typeSpec sig) v = .ok a v := by
  rw [importing_apply] at done ⊢
  obtain ⟨rfl, rfl⟩ := EStateM.Result.ok.inj done
  unfold ImportTable.typeSpec
  rw [intern_again grows.typeSpecs]

/-- A method that is imported is imported again with its token. -/
theorem importMethod_again {found : LibraryType × LibraryMethod} {a : Token} (done : Resolver.importMethod found t = .ok a u)
    (grows : u.Grows v) : Resolver.importMethod found v = .ok a v := by
  obtain ⟨parent, w, first, second⟩ := importing_bind done
  have onward : w.Grows u := (Importing.Extends.importing fun t => t.grows_memberRef _).ok second
  unfold Resolver.importMethod
  rw [Importing.Replays.bind_apply, (replays_typeRef _).ok first (onward.trans grows)]
  exact importing_memberRef_again second grows

private theorem linked_memberRef {row : MemberRef} {name : TypeName} (plain : row.name ≠ constructorName)
    (parent : t.Interns row.parent name) : t.Linked (t.memberRef row).1 where
  grows := t.grows_memberRef row
  types := ⟨[], rfl⟩
  specs := rfl
  members {i x} behind here := by
    have added : (intern t.memberRefs row).1[i]? = some x := here
    unfold intern at added
    split at added
    · exact absurd (Array.getElem?_eq_some_iff.mp added).1 (Nat.not_lt.mpr behind)
    · have inside := (Array.getElem?_eq_some_iff.mp added).1
      rw [Array.size_push] at inside
      obtain rfl : i = t.memberRefs.size := by omega
      rw [Array.getElem?_push_size] at added
      cases added
      exact ⟨plain, name, parent.mono (t.grows_memberRef row)⟩

/-- A method of the library that is no constructor is imported as a row of its own, which is there from then on. -/
private theorem replays_importMethod {found : LibraryType × LibraryMethod} (plain : found.2.name ≠ constructorName) :
    Replays (Resolver.importMethod found) where
  ok := importMethod_again
  error done := by cases done
  linked t := (t.linked_withTypes [found.1.name]).trans (linked_memberRef plain (t.interns_typeRef found.1.name))

private theorem replays_resolveMethod (r : Resolver) (host : TypeName) (plain : q.name ≠ constructorName) :
    Replays (r.resolveMethod (.external host) q) := by
  simp only [Resolver.resolveMethod]
  split
  · unfold Resolver.resolveLibraryMethod
    cases here : r.findLibraryMethod? host q with
    | none => exact .throw _
    | some found =>
      refine replays_importMethod fun same => plain ?_
      rw [← same, MethodQuery.name_of_acceptsLibrary (r.accepts_of_findLibraryMethod? here)]
  · exact .throw _

/-- The methods of reflection that woven code calls. -/
def reflectionMethods (r : Resolver) : Importing (Token × Token × Token) := do
  let getMethodFromHandle ← r.resolveMethod (.external WellKnown.methodBase)
    (({ name := "GetMethodFromHandle" } : MethodQuery).withTypes
      [WellKnown.methodHandle.fullName, WellKnown.typeHandle.fullName])
  let getCustomAttributes ← r.resolveMethod (.external WellKnown.methodBase)
    (({ name := "GetCustomAttributes" } : MethodQuery).withTypes
      [WellKnown.type.fullName, WellKnown.boolean.fullName])
  let getTypeFromHandle ← r.resolveMethod (.external WellKnown.type)
    (({ name := "GetTypeFromHandle" } : MethodQuery).withTypes [WellKnown.typeHandle.fullName])
  return (getMethodFromHandle, getCustomAttributes, getTypeFromHandle)

theorem replays_reflectionMethods (r : Resolver) : Replays (reflectionMethods r) := by
  refine (replays_resolveMethod r _ (by decide)).bind fun getMethodFromHandle => ?_
  refine (replays_resolveMethod r _ (by decide)).bind fun getCustomAttributes => ?_
  exact (replays_resolveMethod r _ (by decide)).bind fun getTypeFromHandle => .pure _

/-- What is planned once the methods of reflection are known. -/
def planWith (r : Resolver) (faults : ShapeFault → Fault) (d : MethodDef) (b : Body) (kind : DecoratorKind)
    (anchor : Handle) (methods : Token × Token × Token) : Importing WeavePlan := do
  let attributeType ← r.resolveType (.definition kind.attributeType)
  let parameters ← d.parameters.zipIdx.mapM fun (p, index) => planParameter r faults d.signature index p.sig
  let resultBox ← if d.result.isValueType then some <$> r.importType d.result else pure none
  let methodBase ← r.resolveType (.external WellKnown.methodBase)
  let exception ← r.resolveType (.external WellKnown.exception)
  let object ← r.resolveType (.external WellKnown.object)
  return {
    anchor, methodBase, exception, object, attributeType, parameters, resultBox
    getMethodFromHandle := methods.1
    getCustomAttributes := methods.2.1
    getTypeFromHandle := methods.2.2
    onEntry := kind.onEntry
    onExit := kind.onExit
    onException := kind.onException
    result := d.result
    storesResult := b.code.entries.any (·.2.opcode == .ret) && !d.result.isVoid }

theorem planWeave_eq (r : Resolver) (fullName : String) (d : MethodDef) (b : Body) (kind : DecoratorKind) (t : ImportTable) :
    planWeave r fullName d b kind t =
      match findAnchor r t b d.isConstructor with
      | .error cause => .error (.invalidShape fullName cause) t
      | .ok anchor =>
        match reflectionMethods r t with
        | .error fault u => .error fault u
        | .ok methods u => planWith r (.invalidShape fullName) d b kind anchor methods u := by
  have parted : planWeave r fullName d b kind = get >>= fun rows => match findAnchor r rows b d.isConstructor with
      | .error cause => throw (.invalidShape fullName cause)
      | .ok anchor => reflectionMethods r >>= planWith r (.invalidShape fullName) d b kind anchor := by
    unfold planWeave reflectionMethods planWith
    simp only [bind_assoc, pure_bind, Lookups.rows_self]
    refine bind_congr fun rows => ?_
    cases findAnchor r rows b d.isConstructor <;> rfl
  have started : planWeave r fullName d b kind t = (match findAnchor r t b d.isConstructor with
      | .error cause => throw (.invalidShape fullName cause)
      | .ok anchor => reflectionMethods r >>= planWith r (.invalidShape fullName) d b kind anchor : Importing WeavePlan) t := by
    rw [parted]
    rfl
  rw [started]
  cases findAnchor r t b d.isConstructor with
  | error cause => rfl
  | ok anchor =>
    dsimp only
    rw [Importing.Replays.bind_apply]
    cases reflectionMethods r t <;> rfl

end Reflection

/-! ### Types -/

/-- Two imports go the same way from two tables: both import the same types and give results that go together, or
    both fail with the same fault. -/
def Importing.Agrees {α : Type} (R : ImportTable → ImportTable → α → α → Prop) (t u : ImportTable) (x y : Importing α) : Prop :=
  ∃ names,
    (∃ a b, x t = .ok a (t.withTypes names) ∧ y u = .ok b (u.withTypes names) ∧
        R (t.withTypes names) (u.withTypes names) a b) ∨
      ∃ fault, x t = .error fault (t.withTypes names) ∧ y u = .error fault (u.withTypes names)

namespace Importing.Agrees

open ImportTable (Same)

variable {α β : Type} {R : ImportTable → ImportTable → α → α → Prop} {S : ImportTable → ImportTable → β → β → Prop}
  {t u : ImportTable} {x y : Importing α} {owned : Token → Prop}

theorem pure {a b : α} (both : R t u a b) : Agrees R t u (pure a) (pure b) := ⟨[], .inl ⟨a, b, rfl, rfl, both⟩⟩

theorem throw (fault : Fault) : Agrees R t u (throw fault) (throw fault) := ⟨[], .inr ⟨fault, rfl, rfl⟩⟩

theorem bind {f g : α → Importing β} (first : Agrees R t u x y)
    (second : ∀ names a b, R (t.withTypes names) (u.withTypes names) a b →
      Agrees S (t.withTypes names) (u.withTypes names) (f a) (g b)) : Agrees S t u (x >>= f) (y >>= g) := by
  obtain ⟨names, ⟨a, b, left, right, both⟩ | ⟨fault, left, right⟩⟩ := first
  · obtain ⟨more, rest⟩ := second names a b both
    refine ⟨names ++ more, ?_⟩
    rw [Replays.bind_apply, Replays.bind_apply, left, right, ImportTable.withTypes_append, ImportTable.withTypes_append]
    exact rest
  · refine ⟨names, .inr ⟨fault, ?_⟩⟩
    rw [Replays.bind_apply, Replays.bind_apply, left, right]
    exact ⟨rfl, rfl⟩

theorem typeRef (name : TypeName) : Agrees (Same owned) t u (importing (·.typeRef name)) (importing (·.typeRef name)) :=
  ⟨[name], .inl ⟨_, _, rfl, rfl, .inl ⟨name, t.interns_typeRef name, u.interns_typeRef name⟩⟩⟩

theorem mapM {γ : Type} {f : γ → Importing α} {l : List γ}
    (mono : ∀ {t u : ImportTable} names {a b}, R t u a b → R (t.withTypes names) (u.withTypes names) a b)
    (each : ∀ c ∈ l, ∀ t u, Agrees R t u (f c) (f c)) :
    Agrees (fun t u => List.Forall₂ (R t u)) t u (l.mapM f) (l.mapM f) := by
  induction l generalizing t u with
  | nil => exact .pure .nil
  | cons c l ih =>
    rw [List.forall_mem_cons] at each
    rw [List.mapM_cons]
    refine (each.1 t u).bind fun names a b here => (ih each.2).bind fun more as bs rest => .pure ?_
    exact .cons (mono more here) rest

end Importing.Agrees

section Types

open Importing (Agrees)
open ImportTable (Same)

variable {r : Resolver} {owned : Token → Prop} {t u : ImportTable} {faults : ShapeFault → Fault} {d : MethodDef} {b b' : Body}
  {kind : DecoratorKind}

theorem agrees_resolveType_external (name : TypeName) :
    Agrees (Same owned) t u (r.resolveType (.external name)) (r.resolveType (.external name)) := by
  simp only [Resolver.resolveType]
  split
  · exact .typeRef name
  · exact .throw _

theorem agrees_resolveType_definition (types : ∀ token, (r.definitions.get? token).isSome → owned token) (token : Token) :
    Agrees (Same owned) t u (r.resolveType (.definition token)) (r.resolveType (.definition token)) := by
  simp only [Resolver.resolveType]
  split
  · rename_i known
    exact .pure (.own (types token known))
  · exact .throw _

/-- The type of a value is a type of its own or a built-in one. -/
theorem agrees_importType {sig : TypeSig} (valued : sig.isValueType) (own : ∀ token ∈ sig.tokens, owned token) :
    Agrees (Same owned) t u (r.importType sig) (r.importType sig) := by
  have builtin : ∀ name, Agrees (Same owned) t u (r.resolveType (.external name)) (r.resolveType (.external name)) :=
    fun name => agrees_resolveType_external name
  cases sig with
  | valueType token => exact .pure (.own (own token List.mem_cons_self))
  | void | string | object | classType | array | byRef => cases valued
  | _ => exact builtin _

theorem agrees_planParameter {s : Signature} {index : Nat} {sig : TypeSig} (own : ∀ token ∈ sig.tokens, owned token) :
    Agrees (fun t u => ParameterLoad.Like (Same owned t u)) t u (planParameter r faults s index sig)
      (planParameter r faults s index sig) := by
  have referred : ∀ element, sig.byRefElement? = some element → ∀ token ∈ element.tokens, owned token := by
    intro element here
    cases sig <;> cases here
    exact own
  unfold planParameter
  dsimp only
  split
  · cases here : sig.byRefElement? with
    | some element =>
      dsimp only
      split
      · rename_i valued
        exact (agrees_importType valued (referred element here)).bind fun names a b same =>
          .pure ⟨rfl, .some (.type rfl same), .some same⟩
      · exact .pure ⟨rfl, .some (.same (by simp [Instruction.type?])), .none⟩
    | none =>
      dsimp only
      split
      · rename_i valued
        exact (agrees_importType valued own).bind fun names a b same => .pure ⟨rfl, .none, .some same⟩
      · exact .pure ⟨rfl, .none, .none⟩
  · exact .throw _

/-- From two tables, plans are made that are alike, or none for the same fault. -/
theorem agrees_planWith (types : ∀ token, (r.definitions.get? token).isSome → owned token)
    (own : ∀ token ∈ d.signature.types, owned token) (body : b.Like (Same owned t u) b') (anchor : Handle)
    (methods : Token × Token × Token) :
    Agrees (fun t u => WeavePlan.Like (Same owned t u)) t u (planWith r faults d b kind anchor methods)
      (planWith r faults d b' kind anchor methods) := by
  have parameters : ∀ p ∈ d.parameters.zipIdx, ∀ token ∈ p.1.sig.tokens, owned token := by
    intro p listed token named
    refine own token ?_
    rw [Signature.types, List.mem_append, List.mem_flatMap]
    exact .inl ⟨p.1, List.fst_mem_of_mem_zipIdx listed, named⟩
  have result : ∀ token ∈ d.result.tokens, owned token := fun token named => own token (List.mem_append_right _ named)
  unfold planWith
  rw [Code.Like.any_ret body.code.entries]
  refine (agrees_resolveType_definition types kind.attributeType).bind fun first attributeType attributeType' same => ?_
  refine (Agrees.mapM (fun names _ _ like => like.mono fun _ _ same => same.withTypes names)
    fun p listed t u => agrees_planParameter (parameters p listed)).bind fun second loads loads' alike => ?_
  have external : ∀ {t u} name, Agrees (Same owned) t u (r.resolveType (.external name)) (r.resolveType (.external name)) :=
    agrees_resolveType_external
  let Boxes (t u : ImportTable) (box box' : Option Token) : Prop := Option.Rel (Same owned t u) box box'
  split
  case' isTrue valued =>
    refine Agrees.bind (R := Boxes) ((agrees_importType valued result).bind fun _ _ _ same => .pure (.some same))
      fun third box box' boxes => ?_
  case' isFalse => refine Agrees.bind (R := Boxes) (.pure .none) fun third box box' boxes => ?_
  all_goals
    refine (external WellKnown.methodBase).bind fun fourth methodBase methodBase' base => ?_
    refine (external WellKnown.exception).bind fun fifth exception exception' error => ?_
    refine (external WellKnown.object).bind fun sixth object object' root => .pure ?_
    exact
      { anchor := rfl
        methodBase := (base.withTypes fifth).withTypes sixth
        exception := error.withTypes sixth
        object := root
        attributeType := ((((same.withTypes second).withTypes third).withTypes fourth).withTypes fifth).withTypes sixth
        getMethodFromHandle := rfl
        getTypeFromHandle := rfl
        getCustomAttributes := rfl
        onEntry := rfl
        onExit := rfl
        onException := rfl
        parameters := alike.imp fun _ _ like => like.mono fun _ _ same =>
          (((same.withTypes third).withTypes fourth).withTypes fifth).withTypes sixth
        result := rfl
        resultNames := fun type named => .own (result type named)
        resultBox := rel_mono (fun _ _ same => ((same.withTypes fourth).withTypes fifth).withTypes sixth) boxes
        storesResult := rfl }

end Types

/-! ### Anchors -/

section Anchors

open ImportTable (Linked)

variable {r : Resolver} {base t u : ImportTable} {ρ : Token → Token → Prop} {b b' : Body}

/-- Rows that are linked later are of no constructors. -/
theorem isConstructor_of_linked (linked : base.Linked t) (token : Token) :
    (r.methodName? t token == some constructorName) = (r.methodName? base token == some constructorName) := by
  unfold Resolver.methodName?
  split
  · rfl
  · split
    · unfold ImportTable.getMemberRef? rowOf?
      split
      · by_cases before : token.row - 1 < base.memberRefs.size
        · rw [Array.getElem?_eq_getElem before, linked.grows.memberRefs (Array.getElem?_eq_getElem before)]
        · have missing : base.memberRefs[token.row - 1]? = none := Array.getElem?_eq_none (Nat.not_lt.mp before)
          cases here : t.memberRefs[token.row - 1]? with
          | none => rw [missing]
          | some row =>
            have plain := (linked.members (Nat.not_lt.mp before) here).1
            simpa [missing] using plain
      · rfl
    · rfl

theorem callsConstructor_of_linked (first : base.Linked t) (second : base.Linked u) {i j : Instruction} (like : i.Like ρ j) :
    callsConstructor r t i = callsConstructor r u j := by
  have tables : ∀ token, (r.methodName? t token == some constructorName) = (r.methodName? u token == some constructorName) :=
    fun token => (isConstructor_of_linked first token).trans (isConstructor_of_linked second token).symm
  unfold callsConstructor
  cases like with
  | same own => simp only [tables]
  | @type o a b takes renamed => cases o <;> rfl

/-- Bodies that are alike have the same anchor, whichever methods were linked meanwhile. -/
theorem findAnchor_of_linked (first : base.Linked t) (second : base.Linked u) (like : b.Like ρ b') (isConstructor : Bool) :
    findAnchor r t b isConstructor = findAnchor r u b' isConstructor := by
  have same : ∀ e e' : Handle × Instruction, e.1 = e'.1 ∧ e.2.Like ρ e'.2 →
      (!callsConstructor r t e.2) = !callsConstructor r u e'.2 :=
    fun e e' alike => congrArg (!·) (callsConstructor_of_linked first second alike.2)
  have before := forall₂_takeWhile same like.code.entries
  have behind := forall₂_dropWhile same like.code.entries
  unfold findAnchor anchorBehindChainedCall Code.first?
  dsimp only
  rw [like.code.order, Code.Like.any_ret before]
  split
  · rfl
  · split
    · generalize b.code.entries.dropWhile _ = es at behind ⊢
      generalize b'.code.entries.dropWhile _ = es' at behind ⊢
      cases behind with
      | nil => rfl
      | cons _ behind =>
        cases behind with
        | nil => rfl
        | @cons e e' _ _ alike _ =>
          obtain ⟨anchor, i⟩ := e
          obtain ⟨anchor', j⟩ := e'
          obtain rfl : anchor = anchor' := alike.1
          rfl
    · rfl

end Anchors

/-! ### Plans -/

section Plans

open Importing (Agrees Replays)
open ImportTable (Same Linked)

variable {r : Resolver} {base t u v : ImportTable} {owned : Token → Prop} {d : MethodDef} {b b' : Body}

/-- The table after some types were imported, before which the methods of reflection were; none leaves it as it is. -/
def Resolver.advance (r : Resolver) : Option (List TypeName) → ImportTable → ImportTable
  | none, t => t
  | some names, t => ((reflectionMethods r).table t).withTypes names

/-- A table is reached from another one by imports of types behind the methods of reflection. -/
def Resolver.Reaches (r : Resolver) (base t : ImportTable) : Prop := ∃ step, t = r.advance step base

theorem linked_advance (r : Resolver) (step : Option (List TypeName)) (t : ImportTable) : t.Linked (r.advance step t) := by
  cases step with
  | none => exact .refl t
  | some names => exact ((replays_reflectionMethods r).linked t).trans (ImportTable.linked_withTypes _ names)

theorem Importing.Replays.table {α : Type} {x : Importing α} (replays : Replays x) (grows : (x.table t).Grows v) : x.table v = v := by
  unfold Importing.table at grows ⊢
  cases came : x t with
  | ok a u =>
    rw [came] at grows
    rw [replays.ok came grows]
  | error fault u =>
    rw [came] at grows
    rw [replays.error came grows]

/-- Two steps are one step. -/
theorem exists_advance (r : Resolver) (first second : Option (List TypeName)) :
    ∃ both, ∀ t, r.advance second (r.advance first t) = r.advance both t := by
  cases first with
  | none => exact ⟨second, fun t => rfl⟩
  | some names =>
    cases second with
    | none => exact ⟨some names, fun t => rfl⟩
    | some more =>
      refine ⟨some (names ++ more), fun t => ?_⟩
      show ((reflectionMethods r).table (((reflectionMethods r).table t).withTypes names)).withTypes more = _
      rw [(replays_reflectionMethods r).table (ImportTable.grows_withTypes _ names), ← ImportTable.withTypes_append]
      rfl

theorem Resolver.Reaches.advance (reached : r.Reaches base t) (step : Option (List TypeName)) : r.Reaches base (r.advance step t) := by
  obtain ⟨before, rfl⟩ := reached
  obtain ⟨both, same⟩ := exists_advance r before step
  exact ⟨both, same base⟩

theorem Resolver.Reaches.linked (reached : r.Reaches base t) : base.Linked t := by
  obtain ⟨step, rfl⟩ := reached
  exact linked_advance r step base

/-- Wherever one is, the methods of reflection have the same tokens, or are missing for the same fault. -/
theorem reflectionMethods_of_reaches (first : r.Reaches base t) (second : r.Reaches base u) :
    (∃ methods, reflectionMethods r t = .ok methods ((reflectionMethods r).table t) ∧
        reflectionMethods r u = .ok methods ((reflectionMethods r).table u)) ∨
      ∃ fault, reflectionMethods r t = .error fault ((reflectionMethods r).table t) ∧
        reflectionMethods r u = .error fault ((reflectionMethods r).table u) := by
  have replays := replays_reflectionMethods r
  -- What comes of the look-ups from the first table comes of them from every table that is reached.
  have again : ∀ t, r.Reaches base t → t = base ∨ ((reflectionMethods r).table base).Grows t := by
    rintro t ⟨step, rfl⟩
    cases step with
    | none => exact .inl rfl
    | some names => exact .inr (ImportTable.grows_withTypes _ names)
  cases came : reflectionMethods r base with
  | ok methods w =>
    have ok : ∀ t, r.Reaches base t → reflectionMethods r t = .ok methods ((reflectionMethods r).table t) := by
      intro t reached
      rcases again t reached with rfl | grows
      · unfold Importing.table
        rw [came]
      · rw [replays.table grows]
        unfold Importing.table at grows
        rw [came] at grows
        exact replays.ok came grows
    exact .inl ⟨methods, ok t first, ok u second⟩
  | error fault w =>
    have error : ∀ t, r.Reaches base t → reflectionMethods r t = .error fault ((reflectionMethods r).table t) := by
      intro t reached
      rcases again t reached with rfl | grows
      · unfold Importing.table
        rw [came]
      · rw [replays.table grows]
        unfold Importing.table at grows
        rw [came] at grows
        exact replays.error came grows
    exact .inr ⟨fault, error t first, error u second⟩

/-- Plans that are made from two tables that are reached are alike, and leave tables behind that are reached in one
    step from both, or there is no plan in either for the same fault. -/
theorem planWeave_agrees (first : r.Reaches base t) (second : r.Reaches base u)
    (types : ∀ token, (r.definitions.get? token).isSome → owned token) (own : ∀ token ∈ d.signature.types, owned token)
    (body : b.Like (Same owned t u) b') (fullName : String) (kind : DecoratorKind) :
    ∃ step,
      (∃ p q, planWeave r fullName d b kind t = .ok p (r.advance step t) ∧
          planWeave r fullName d b' kind u = .ok q (r.advance step u) ∧
            p.Like (Same owned (r.advance step t) (r.advance step u)) q) ∨
        ∃ fault, planWeave r fullName d b kind t = .error fault (r.advance step t) ∧
          planWeave r fullName d b' kind u = .error fault (r.advance step u) := by
  rw [planWeave_eq, planWeave_eq, findAnchor_of_linked first.linked second.linked body]
  cases findAnchor r u b' d.isConstructor with
  | error cause => exact ⟨none, .inr ⟨_, rfl, rfl⟩⟩
  | ok anchor =>
    rcases reflectionMethods_of_reaches first second with ⟨methods, left, right⟩ | ⟨fault, left, right⟩
    · have linked := (replays_reflectionMethods r).linked
      obtain ⟨names, planned⟩ := agrees_planWith types own
        (body.mono fun _ _ same => same.mono (linked t).grows (linked u).grows) anchor methods
      refine ⟨some names, ?_⟩
      rw [left, right]
      exact planned
    · refine ⟨some [], .inr ⟨fault, ?_⟩⟩
      rw [left, right]
      exact ⟨rfl, rfl⟩

end Plans

end AspectWeaving

import AspectWeaving.Proofs.BaseChains
import AspectWeaving.Proofs.ImportOrder

/-!
The nearest matches. What is looked for along bases is what is found at the nearest of them, also where they run in a circle
(`findSome?_chain_iff`). So a method that is looked up is the first one of the nearest type that has one, in the module and
then in the library, and where there is none the lookup fails (`Resolver.resolveMethod_found`).
-/
namespace AspectWeaving

/-! ### The nearest of a chain -/

section Nearest

variable {α β : Type} {next : α → Option α} {find : α → Option β} {items : List α} {a b : α} {y : β}

/-- The nearest item along some links, the first one included, at which something is found, and what is found there. -/
def Nearest (next : α → Option α) (find : α → Option β) (a b : α) (y : β) : Prop :=
  Relation.ReflTransGen (fun x x' => next x = some x' ∧ find x = none) a b ∧ find b = some y

theorem Nearest.reached (nearest : Nearest next find a b y) : Relation.ReflTransGen (fun x x' => next x = some x') a b :=
  Relation.ReflTransGen.mono (fun _ _ => And.left) _ _ nearest.1

/-- The links up to an item at which something is found. -/
private def nextMissing (next : α → Option α) (find : α → Option β) (x : α) : Option α := if (find x).isSome then none else next x

private theorem nextMissing_eq_some : nextMissing next find a = some b ↔ next a = some b ∧ find a = none := by
  unfold nextMissing
  cases find a <;> simp

private theorem findSome?_chain_missing (limit : Nat) (start : Option α) :
    (chain next limit start).findSome? find = (chain (nextMissing next find) limit start).findSome? find := by
  induction limit generalizing start with
  | zero => rfl
  | succ limit ih =>
    cases start with
    | none => rfl
    | some x =>
      simp only [chain, List.findSome?_cons]
      cases found : find x with
      | some z => rfl
      | none => rw [show nextMissing next find x = next x by simp [nextMissing, found]]; exact ih _

/-- What is found along a chain of as many items as there are is what is found at the nearest of them. -/
theorem findSome?_chain_iff (own : a ∈ items) (leads : ∀ x x', next x = some x' → x' ∈ items) :
    (chain next items.length (some a)).findSome? find = some y ↔ ∃ b, Nearest next find a b y := by
  have links : (fun x x' => nextMissing next find x = some x') = fun x x' => next x = some x' ∧ find x = none := by
    funext x x'
    exact propext nextMissing_eq_some
  have within : ∀ x x', nextMissing next find x = some x' → x' ∈ items := fun x x' link => leads x x' (nextMissing_eq_some.mp link).1
  have stops : ∀ {b z}, find b = some z → nextMissing next find b = none := fun found => by simp [nextMissing, found]
  rw [findSome?_chain_missing]
  unfold Nearest
  rw [← links]
  constructor
  · intro found
    obtain ⟨b, member, here⟩ := List.exists_of_findSome?_eq_some found
    exact ⟨b, (mem_chain_iff own within (Nat.le_refl _)).mp member, here⟩
  · rintro ⟨b, reached, here⟩
    have there : ((chain (nextMissing next find) items.length (some a)).findSome? find).isSome :=
      List.findSome?_isSome_iff.mpr ⟨b, (mem_chain_iff own within (Nat.le_refl _)).mpr reached, by rw [here]; rfl⟩
    obtain ⟨z, found⟩ := Option.isSome_iff_exists.mp there
    obtain ⟨c, member, other⟩ := List.exists_of_findSome?_eq_some found
    -- The links stop where something is found, so that both are the last item.
    have last := (getLast?_chain_iff own within (Nat.le_refl _) (stops here)).mpr reached
    rw [(getLast?_chain_iff own within (Nat.le_refl _) (stops other)).mpr ((mem_chain_iff own within (Nat.le_refl _)).mp member)] at last
    cases last
    rw [found, ← other, here]

/-- Something is found along a chain just if something is found anywhere on the way. -/
theorem findSome?_chain_isSome_iff (own : a ∈ items) (leads : ∀ x x', next x = some x' → x' ∈ items) :
    ((chain next items.length (some a)).findSome? find).isSome ↔
      ∃ b, Relation.ReflTransGen (fun x x' => next x = some x') a b ∧ (find b).isSome := by
  simp only [List.findSome?_isSome_iff, mem_chain_iff own leads (Nat.le_refl _)]

end Nearest

/-! ### What is looked for -/

section Offers

variable {q : MethodQuery} {name : TypeName} {y : LibraryType}

/-- A method that is found: one of the module, or one of the library with the type that declares it. -/
inductive FoundMethod
  | own (d : MethodDef)
  | library (type : LibraryType) (d : LibraryMethod)

/-- The first method of a library type that is asked for. -/
def MethodQuery.libraryMatch? (q : MethodQuery) (t : LibraryType) : Option LibraryMethod := t.methods.find? q.acceptsLibrary

/-- The nearest type to a library type with a method that is asked for, and its first such method. -/
def Library.HasNearest (l : Library) (q : MethodQuery) (name : TypeName) (y : LibraryType) (d : LibraryMethod) : Prop :=
  ∃ x, l.get? name = some x ∧ Nearest l.baseType? q.libraryMatch? x y d

/-- The first method that is asked for, of the nearest type that has one: in the module, or in the library from where the bases
    of a type leave the module. -/
inductive Module.HasNearest (m : Module) (l : Library) (q : MethodQuery) : TypeLocator → FoundMethod → Prop
  | own {type : Token} {t u : TypeDef} {d : MethodDef} (known : m.typeDef? type = some t)
      (nearest : Nearest m.ownBase? (m.ownMatch? q) t u d) : HasNearest m l q (.definition type) (.own d)
  | inherited {type : Token} {t u : TypeDef} {name : TypeName} {y : LibraryType} {d : LibraryMethod} (known : m.typeDef? type = some t)
      (missing : ∀ v, m.Reaches t v → m.ownMatch? q v = none) (reached : m.Reaches t u) (leaves : u.baseLocator = .external name)
      (nearest : l.HasNearest q name y d) : HasNearest m l q (.definition type) (.library y d)
  | library {name : TypeName} {y : LibraryType} {d : LibraryMethod} (nearest : l.HasNearest q name y d) :
      HasNearest m l q (.external name) (.library y d)

/-- A library type or one of its bases has a method that is asked for. -/
def Library.Offers (l : Library) (q : MethodQuery) (name : TypeName) : Prop :=
  ∃ x y, l.get? name = some x ∧ l.Reaches x y ∧ ∃ d ∈ y.methods, q.acceptsLibrary d = true

/-- A type or one of its bases, in the module or in the library, has a method that is asked for. -/
def Module.Offers (m : Module) (l : Library) (q : MethodQuery) : TypeLocator → Prop
  | .definition type => ∃ t u, m.typeDef? type = some t ∧ m.Reaches t u ∧
      ((∃ d ∈ u.methods, q.acceptsEntry (Definitions.methodEntry m d) = true) ∨ ∃ name, u.baseLocator = .external name ∧ l.Offers q name)
  | .external name => l.Offers q name

/-- A token is the one of a method that is found, and the rows are those that name it. -/
def FoundMethod.NamedBy (t u : ImportTable) (token : Token) : FoundMethod → Prop
  | .own d => token = d.token ∧ u = t
  | .library type d => ∃ parent, u.NamesType parent type.name ∧
      u.NamesMember token { parent, name := d.name, parameters := d.parameters, hasThis := d.hasThis }

theorem Library.hasNearest_iff {r : Resolver} {d : LibraryMethod} :
    r.findLibraryMethod? name q = some (y, d) ↔ r.library.HasNearest q name y d := by
  have links : ∀ {x b}, Nearest r.library.baseType? (fun z => (q.libraryMatch? z).map (z, ·)) x b (y, d) ↔
      b = y ∧ Nearest r.library.baseType? q.libraryMatch? x b d := by
    intro x b
    simp only [Nearest, Option.map_eq_none_iff, Option.map_eq_some_iff, Prod.mk.injEq]
    constructor
    · rintro ⟨reached, _, found, rfl, rfl⟩
      exact ⟨rfl, reached, found⟩
    · rintro ⟨rfl, reached, found⟩
      exact ⟨reached, d, found, rfl, rfl⟩
  unfold HasNearest Resolver.findLibraryMethod? baseChain
  cases known : r.library.get? name with
  | none => simp
  | some x =>
    rw [show (fun t : LibraryType => (t.methods.find? q.acceptsLibrary).map (t, ·)) = fun t => (q.libraryMatch? t).map (t, ·) from rfl,
      findSome?_chain_iff (List.mem_of_find?_eq_some known) fun _ _ => mem_types_of_baseType?]
    simp only [links, Option.some.injEq, exists_eq_left', exists_eq_left]

theorem Library.offers_iff {r : Resolver} : (r.findLibraryMethod? name q).isSome ↔ r.library.Offers q name := by
  unfold Offers Resolver.findLibraryMethod? baseChain
  cases known : r.library.get? name with
  | none => simp
  | some x =>
    rw [findSome?_chain_isSome_iff (List.mem_of_find?_eq_some known) fun _ _ => mem_types_of_baseType?]
    simp only [Option.isSome_map, List.find?_isSome, Option.some.injEq, exists_eq_left', exists_and_left]
    rfl

end Offers

/-! ### What a lookup gives -/

section Methods

variable {m : Module} {l : Library} {q : MethodQuery} {type : Token} {name : TypeName} {host : TypeLocator} {found : FoundMethod}

theorem Module.findSome?_bases_iff {t : TypeDef} {d : MethodDef} (known : m.typeDef? type = some t) :
    (m.bases type).findSome? (m.ownMatch? q) = some d ↔ ∃ u, Nearest m.ownBase? (m.ownMatch? q) t u d := by
  unfold bases
  rw [known]
  exact findSome?_chain_iff (List.mem_of_find?_eq_some known) fun _ _ => mem_types_of_ownBase?

theorem Module.findSome?_bases_eq_none_iff {t : TypeDef} (known : m.typeDef? type = some t) :
    (m.bases type).findSome? (m.ownMatch? q) = none ↔ ∀ v, m.Reaches t v → m.ownMatch? q v = none := by
  simp only [List.findSome?_eq_none_iff, mem_bases_iff known]

/-- A library method that is found is imported with the type that declares it. -/
theorem Resolver.resolveLibraryMethod_cases (r : Resolver) (origin : TypeLocator) (name : TypeName) (q : MethodQuery) (t : ImportTable) :
    (∃ y d token u, r.library.HasNearest q name y d ∧ r.resolveLibraryMethod origin name q t = .ok token u ∧
      (FoundMethod.library y d).NamedBy t u token) ∨
    ¬ r.library.Offers q name ∧ ∃ fault, r.resolveLibraryMethod origin name q t = .error fault t := by
  unfold resolveLibraryMethod
  rw [← Library.offers_iff]
  cases here : r.findLibraryMethod? name q with
  | none => exact .inr ⟨nofun, _, rfl⟩
  | some found =>
    refine .inl ⟨found.1, found.2, _, _, Library.hasNearest_iff.mp here, rfl, (t.typeRef found.1.name).2, ?_, ?_⟩
    · have typed : (t.typeRef found.1.name).1.NamesType (t.typeRef found.1.name).2 found.1.name := ⟨_, getElem?_intern_self .., rfl⟩
      exact typed.mono (ImportTable.grows_memberRef _ _)
    · exact ⟨_, getElem?_intern_self .., rfl⟩

/-- Of a type of the library, the nearest method is that of the library. -/
private theorem Resolver.resolveMethod_outside (l : Library) (m : Module) (name : TypeName) (q : MethodQuery) (t : ImportTable) :
    (∃ found token u, m.HasNearest l q (.external name) found ∧
      resolveMethod ⟨l, .ofModule m⟩ (.external name) q t = .ok token u ∧ found.NamedBy t u token) ∨
    ¬ m.Offers l q (.external name) ∧ ∃ fault, resolveMethod ⟨l, .ofModule m⟩ (.external name) q t = .error fault t := by
  have asks : ∀ there, l.contains name = there → resolveMethod ⟨l, .ofModule m⟩ (.external name) q = if there then
      resolveLibraryMethod ⟨l, .ofModule m⟩ (.external name) name q else throw (.typeNotFound name.fullName) := by
    rintro _ rfl
    rfl
  cases known : l.contains name with
  | false =>
    rw [asks false known]
    refine .inr ⟨?_, _, rfl⟩
    rintro ⟨x, -, here, -⟩
    rw [Library.contains, here] at known
    cases known
  | true =>
    rw [asks true known]
    rcases resolveLibraryMethod_cases ⟨l, .ofModule m⟩ (.external name) name q t with
      ⟨y, d, token, u, nearest, done, named⟩ | ⟨none, failed⟩
    · exact .inl ⟨_, token, u, .library nearest, done, named⟩
    · exact .inr ⟨none, failed⟩

/-- Of a type of the module that has no method of its own that is asked for, nor one from a base in the module, the nearest method is that
    of the library where the bases leave the module. -/
private theorem Resolver.resolveMethod_missing (l : Library) {s : TypeDef} (known : m.typeDef? type = some s)
    (missing : ∀ v, m.Reaches s v → m.ownMatch? q v = none) (t : ImportTable) :
    (∃ found token u, m.HasNearest l q (.definition type) found ∧
      resolveMethod ⟨l, .ofModule m⟩ (.definition type) q t = .ok token u ∧ found.NamedBy t u token) ∨
    ¬ m.Offers l q (.definition type) ∧ ∃ fault, resolveMethod ⟨l, .ofModule m⟩ (.definition type) q t = .error fault t := by
  have own := (Module.findSome?_bases_eq_none_iff known).mpr missing
  have nowhere : ∀ v, m.Reaches s v → ¬ ∃ d ∈ v.methods, q.acceptsEntry (Definitions.methodEntry m d) = true := by
    rintro v reached ⟨d, listed, asked⟩
    exact List.find?_eq_none.mp (missing v reached) d listed asked
  unfold resolveMethod
  dsimp only
  rw [Definitions.get?_ofModule, findOwnMethod?_eq, known, own]
  cases leaves : (Definitions.ofModule m).externalBase? type with
  | none =>
    refine .inr ⟨?_, _, rfl⟩
    rintro ⟨s', v, here, reached, listed | ⟨name, base, -⟩⟩ <;> cases known.symm.trans here
    · exact nowhere v reached listed
    · rw [(Definitions.externalBase?_ofModule known).mpr ⟨v, reached, base⟩] at leaves
      cases leaves
  | some name =>
    obtain ⟨v, reached, base⟩ := (Definitions.externalBase?_ofModule known).mp leaves
    rcases resolveLibraryMethod_cases ⟨l, .ofModule m⟩ (.definition type) name q t with
      ⟨y, d, token, u, nearest, done, named⟩ | ⟨none, failed⟩
    · exact .inl ⟨_, token, u, .inherited known missing reached base nearest, done, named⟩
    · refine .inr ⟨?_, failed⟩
      rintro ⟨s', w, here, above, listed | ⟨other, outside, offers⟩⟩ <;> cases known.symm.trans here
      · exact nowhere w above listed
      · have same := (Definitions.externalBase?_ofModule known).mpr ⟨w, above, outside⟩
        rw [leaves] at same
        cases same
        exact none offers

/-- What a lookup of a method comes to: the nearest one, or nothing where there is none. -/
theorem Resolver.resolveMethod_found (l : Library) (m : Module) (host : TypeLocator) (q : MethodQuery) (t : ImportTable) :
    (∃ found token u, m.HasNearest l q host found ∧ resolveMethod ⟨l, .ofModule m⟩ host q t = .ok token u ∧ found.NamedBy t u token) ∨
    ¬ m.Offers l q host ∧ ∃ fault, resolveMethod ⟨l, .ofModule m⟩ host q t = .error fault t := by
  cases host with
  | external name => exact resolveMethod_outside l m name q t
  | definition type =>
    cases known : m.typeDef? type with
    | none =>
      unfold resolveMethod
      dsimp only
      rw [Definitions.get?_ofModule, known]
      refine .inr ⟨?_, _, rfl⟩
      rintro ⟨s, -, here, -⟩
      cases known.symm.trans here
    | some s =>
      cases own : (m.bases type).findSome? (m.ownMatch? q) with
      | none => exact resolveMethod_missing l known ((Module.findSome?_bases_eq_none_iff known).mp own) t
      | some d =>
        unfold resolveMethod
        dsimp only
        rw [Definitions.get?_ofModule, findOwnMethod?_eq, known, own]
        obtain ⟨u, nearest⟩ := (Module.findSome?_bases_iff known).mp own
        exact .inl ⟨.own d, _, _, .own known nearest, rfl, rfl, rfl⟩

theorem Module.of_ownMatch? {t : TypeDef} {d : MethodDef} (found : m.ownMatch? q t = some d) :
    d ∈ t.methods ∧ q.acceptsEntry (Definitions.methodEntry m d) = true :=
  ⟨List.mem_of_find?_eq_some found, (List.find?_eq_some_iff_append.mp found).1⟩

theorem Library.HasNearest.offers {y : LibraryType} {d : LibraryMethod} (nearest : l.HasNearest q name y d) : l.Offers q name := by
  obtain ⟨x, here, nearest⟩ := nearest
  exact ⟨x, y, here, nearest.reached, d, List.mem_of_find?_eq_some nearest.2, List.find?_some nearest.2⟩

theorem Module.HasNearest.offers (nearest : m.HasNearest l q host found) : m.Offers l q host := by
  cases nearest with
  | own known nearest =>
    exact ⟨_, _, known, nearest.reached, .inl ⟨_, Module.of_ownMatch? nearest.2⟩⟩
  | inherited known missing reached leaves nearest => exact ⟨_, _, known, reached, .inr ⟨_, leaves, nearest.offers⟩⟩
  | library nearest => exact nearest.offers

end Methods

end AspectWeaving

import AspectWeaving.Proofs.TypeTrees

/-!
Tokens of definitions. An addition gives its type or method the next row, and puts it among the rows of the module; the row of its
owner grows, and all others stay (`ModuleTree.Makes`). So the definitions of a module that has been built by additions have the tokens
of the first rows, each once (`ModuleTree.Numbered`), no addition takes a token from its type or method (`ModuleTree.Grows`), and each
token leads to what was given it (`additions_number_definitions`).
-/
namespace AspectWeaving

/-! ### Additions -/

namespace Addition

/-- The type to which something is added. -/
def owner? : Addition → Option Token
  | .type _ => none
  | .nested outer _ => some outer
  | .method owner _ => some owner

/-- The token of the next row for a type or a method. -/
def token (taken : RowCounts) : Addition → Token
  | .type _ | .nested _ _ => .ofParts Token.typeDef (taken.types + 1)
  | .method _ _ => .ofParts Token.methodDef (taken.methods + 1)

/-- The new types. -/
def added (taken : RowCounts) : Addition → List TypeTree
  | .type decl | .nested _ decl => [(decl.number taken).1]
  | .method _ _ => []

/-- The token of the new type that stands inside no other one. -/
def top (taken : RowCounts) : Addition → List Token
  | .type _ => [.ofParts Token.typeDef (taken.types + 1)]
  | .nested _ _ | .method _ _ => []

/-- The rows that are taken afterwards. -/
def after (taken : RowCounts) : Addition → RowCounts
  | .type decl | .nested _ decl => (decl.number taken).2
  | .method _ _ => { taken with methods := taken.methods + 1 }

/-- The rows with what is new in the row of the owner. -/
def grow (taken : RowCounts) : Addition → List TypeRow → List TypeRow
  | .type _ => id
  | .nested outer _ => modifyFirst (·.token == outer) fun r => { r with nested := r.nested ++ [.ofParts Token.typeDef (taken.types + 1)] }
  | .method owner d =>
    modifyFirst (·.token == owner) fun r =>
      { r with methods := r.methods ++ [{ d with token := .ofParts Token.methodDef (taken.methods + 1) }] }

end Addition

/-- A row has been added to: it has more methods or types inside it. -/
structure TypeRow.Grown (r r' : TypeRow) : Prop where
  token : r'.token = r.token
  name : r'.name = r.name
  flags : r'.flags = r.flags
  base : r'.base = r.base
  methods : r.methods <+: r'.methods
  nested : r.nested <+: r'.nested

theorem TypeRow.Grown.refl (r : TypeRow) : r.Grown r := ⟨rfl, rfl, rfl, rfl, List.prefix_refl _, List.prefix_refl _⟩

theorem TypeRow.Grown.trans {r r' r'' : TypeRow} (first : r.Grown r') (second : r'.Grown r'') : r.Grown r'' :=
  ⟨second.token.trans first.token, second.name.trans first.name, second.flags.trans first.flags, second.base.trans first.base,
    first.methods.trans second.methods, first.nested.trans second.nested⟩

namespace ModuleTree

variable {m n k : ModuleTree} {a : Addition} {t : TypeTree} {d : MethodDef} {token : Token}

/-- The rows of all types. -/
def rows (m : ModuleTree) : List TypeRow := rowsOf m.trees

/-- The methods, with the types that declare them. -/
def methods (m : ModuleTree) : List (TypeTree × MethodDef) := m.all.flatMap fun t => t.methods.map (t, ·)

theorem tokens_rows (m : ModuleTree) : m.rows.map (·.token) = m.all.map (·.token) := by
  simp [rows, rowsOf, all, TypeTree.row]

theorem methodTokens_rows (m : ModuleTree) : methodTokens m.rows = m.methods.map (·.2.token) := by
  simp [rows, rowsOf, methods, all, methodTokens, List.flatMap_map, List.map_flatMap, TypeTree.row, Function.comp_def]

theorem isSome_typeDef?_iff : (m.typeDef? token).isSome ↔ ∃ r ∈ m.rows, r.token == token := by
  rw [typeDef?, findAmong?_eq, List.find?_isSome]
  simp [rows, rowsOf, TypeTree.row]

/-- What an addition does to a module. -/
structure Makes (m : ModuleTree) (a : Addition) (n : ModuleTree) : Prop where
  owner : ∀ owner ∈ a.owner?, ∃ r ∈ m.rows, r.token == owner
  rows : n.rows.Perm (a.grow m.taken m.rows ++ rowsOf (a.added m.taken))
  top : n.trees.map (·.token) = m.trees.map (·.token) ++ a.top m.taken
  taken : n.taken = a.after m.taken

theorem add_of_unknown {owner : Token} (asked : a.owner? = some owner) (missing : m.typeDef? owner = none) :
    m.add a = (m, .error (.typeNotFound owner.text)) := by
  cases a <;> cases asked
  · simp [add, addNested, missing]
  · simp [add, addMethod, missing]

/-- A type that is found can be changed. -/
theorem exists_changed (known : (m.typeDef? token).isSome) (f : TypeTree → TypeTree) :
    ∃ trees, changeAmong? token f m.trees = some trees := by
  refine Option.isSome_iff_exists.mp (isSome_changeAmong?_iff.mpr ?_)
  obtain ⟨t, found⟩ := Option.isSome_iff_exists.mp known
  rw [typeDef?, findAmong?_eq] at found
  exact List.mem_map.mpr ⟨t, List.mem_of_find?_eq_some found, by simpa using List.find?_some found⟩

/-- A type that is found gets a type inside it. -/
theorem addNested_of_known (decl : TypeDecl) (known : (m.typeDef? token).isSome) :
    ∃ trees, changeAmong? token (fun t => { t with nested := t.nested ++ [(decl.number m.taken).1] }) m.trees = some trees ∧
      m.addNested token decl = ({ m with trees, taken := (decl.number m.taken).2 }, .ok (.ofParts Token.typeDef (m.taken.types + 1))) := by
  obtain ⟨trees, changed⟩ := exists_changed known fun t => { t with nested := t.nested ++ [(decl.number m.taken).1] }
  obtain ⟨o, found⟩ := Option.isSome_iff_exists.mp known
  refine ⟨trees, changed, ?_⟩
  unfold changeAmong? at changed
  simp only [addNested, found, changeType?, changed, Option.map_some, Option.getD_some, TypeDecl.token_number]

/-- A type that is found gets a method. -/
theorem addMethod_of_known (method : Method) (known : (m.typeDef? token).isSome) :
    ∃ trees, changeAmong? token
        (fun t => { t with methods := t.methods ++ [{ method with token := .ofParts Token.methodDef (m.taken.methods + 1) }] })
        m.trees = some trees ∧
      m.addMethod token method = ({ m with trees, taken := { m.taken with methods := m.taken.methods + 1 } },
        .ok (.ofParts Token.methodDef (m.taken.methods + 1))) := by
  obtain ⟨trees, changed⟩ := exists_changed known fun t =>
    { t with methods := t.methods ++ [{ method with token := .ofParts Token.methodDef (m.taken.methods + 1) }] }
  obtain ⟨o, found⟩ := Option.isSome_iff_exists.mp known
  refine ⟨trees, changed, ?_⟩
  unfold changeAmong? at changed
  simp only [addMethod, found, changeType?, changed, Option.map_some, Option.getD_some]

/-- An addition to no type, or to a type that is there, is made. -/
theorem makes_add (known : ∀ owner ∈ a.owner?, (m.typeDef? owner).isSome) :
    m.Makes a (m.add a).1 ∧ (m.add a).2 = .ok (a.token m.taken) := by
  have owner : ∀ owner ∈ a.owner?, ∃ r ∈ m.rows, r.token == owner := fun owner asked => isSome_typeDef?_iff.mp (known owner asked)
  cases a with
  | type decl =>
    refine ⟨⟨owner, ?_, ?_, rfl⟩, ?_⟩
    · simp [add, addType, rows, rowsOf_append, Addition.grow, Addition.added]
    · simp [add, addType, Addition.top, TypeDecl.token_number]
    · simp [add, addType, Addition.token, TypeDecl.token_number]
  | nested outer decl =>
    obtain ⟨trees, changed, made⟩ := addNested_of_known decl (known outer rfl)
    obtain ⟨tokens, rows⟩ := rows_changeAmong? changed (fun r => { r with nested := r.nested ++ [.ofParts Token.typeDef (m.taken.types + 1)] })
      (rowsOf [(decl.number m.taken).1]) (fun _ => rfl)
      fun o => by simp [rowsOf_cons, rowsOf_append, TypeTree.row, TypeDecl.token_number]
    rw [add, made]
    exact ⟨⟨owner, rows, by simpa [Addition.top] using tokens, rfl⟩, rfl⟩
  | method owner' method =>
    obtain ⟨trees, changed, made⟩ := addMethod_of_known method (known owner' rfl)
    obtain ⟨tokens, rows⟩ := rows_changeAmong? changed
      (fun r => { r with methods := r.methods ++ [{ method with token := .ofParts Token.methodDef (m.taken.methods + 1) }] }) []
      (fun _ => rfl) fun o => by simp [rowsOf_cons, TypeTree.row]
    rw [add, made]
    exact ⟨⟨owner, rows, by simpa [Addition.top] using tokens, rfl⟩, rfl⟩

/-! ### Tokens of all definitions -/

/-- The types and methods of a module have the tokens of the rows that are taken. -/
structure Numbered (m : ModuleTree) : Prop where
  types : (m.rows.map (·.token)).Perm (rowTokens Token.typeDef m.taken.types)
  methods : (methodTokens m.rows).Perm (rowTokens Token.methodDef m.taken.methods)

theorem map_token_grow (a : Addition) (taken : RowCounts) (rows : List TypeRow) :
    (a.grow taken rows).map (·.token) = rows.map (·.token) := by
  cases a with
  | type decl => rfl
  | nested outer decl => exact map_modifyFirst fun _ _ => rfl
  | method owner d => exact map_modifyFirst fun _ _ => rfl

theorem methodTokens_append (rows rows' : List TypeRow) : methodTokens (rows ++ rows') = methodTokens rows ++ methodTokens rows' :=
  List.flatMap_append

/-- The definitions of a module to which something is added have the rows that are taken afterwards. -/
theorem Makes.numbered (made : m.Makes a n) (numbered : m.Numbered) : n.Numbered := by
  have rows : (methodTokens n.rows).Perm (methodTokens (a.grow m.taken m.rows) ++ methodTokens (rowsOf (a.added m.taken))) := by
    rw [← methodTokens_append]
    exact made.rows.flatMap_right _
  constructor
  · refine (made.rows.map _).trans ?_
    rw [List.map_append, map_token_grow, made.taken]
    refine (numbered.types.append_right _).trans (.of_eq ?_)
    cases a with
    | type decl => exact (takes_number m.taken decl).types.symm
    | nested outer decl => exact (takes_number m.taken decl).types.symm
    | method owner d => exact List.append_nil _
  · refine rows.trans ?_
    rw [made.taken]
    cases a with
    | type decl => exact (numbered.methods.append_right _).trans (.of_eq (takes_number m.taken decl).methods.symm)
    | nested outer decl =>
      have same : (methodTokens ((Addition.nested outer decl).grow m.taken m.rows)).Perm (methodTokens m.rows ++ []) :=
        flatMap_modifyFirst (made.owner outer rfl) fun _ _ => .of_eq (List.append_nil _).symm
      rw [List.append_nil] at same
      exact ((same.trans numbered.methods).append_right _).trans (.of_eq (takes_number m.taken decl).methods.symm)
    | method owner d =>
      have more : (methodTokens ((Addition.method owner d).grow m.taken m.rows)).Perm
          (methodTokens m.rows ++ [.ofParts Token.methodDef (m.taken.methods + 1)]) :=
        flatMap_modifyFirst (made.owner owner rfl) fun _ _ => .of_eq List.map_append
      have next : rowTokens Token.methodDef ((Addition.method owner d).after m.taken).methods =
          rowTokens Token.methodDef m.taken.methods ++ [.ofParts Token.methodDef (m.taken.methods + 1)] := rowTokens_succ ..
      have none : methodTokens (rowsOf ((Addition.method owner d).added m.taken)) = [] := by simp [Addition.added, methodTokens]
      rw [next, none, List.append_nil]
      exact more.trans (numbered.methods.append_right _)

/-! ### Modules that grow -/

/-- The rows of a module are those of another one, but may have been added to, and its outermost types are still the first ones. -/
structure Grows (m n : ModuleTree) : Prop where
  rows : ∀ r ∈ m.rows, ∃ r' ∈ n.rows, r.Grown r'
  top : m.trees.map (·.token) <+: n.trees.map (·.token)

theorem Grows.refl (m : ModuleTree) : m.Grows m := ⟨fun r member => ⟨r, member, .refl r⟩, List.prefix_refl _⟩

theorem Grows.trans (first : m.Grows n) (second : n.Grows k) : m.Grows k := by
  refine ⟨fun r member => ?_, first.top.trans second.top⟩
  obtain ⟨r', member', grown⟩ := first.rows r member
  obtain ⟨r'', member'', grown'⟩ := second.rows r' member'
  exact ⟨r'', member'', grown.trans grown'⟩

theorem forall₂_grow (a : Addition) (taken : RowCounts) (rows : List TypeRow) :
    List.Forall₂ TypeRow.Grown rows (a.grow taken rows) := by
  cases a with
  | type decl => exact List.forall₂_same.mpr fun r _ => .refl r
  | nested outer decl =>
    exact forall₂_modifyFirst .refl fun _ _ => ⟨rfl, rfl, rfl, rfl, List.prefix_refl _, List.prefix_append ..⟩
  | method owner d =>
    exact forall₂_modifyFirst .refl fun _ _ => ⟨rfl, rfl, rfl, rfl, List.prefix_append .., List.prefix_refl _⟩

theorem Makes.grows (made : m.Makes a n) : m.Grows n := by
  refine ⟨fun r member => ?_, made.top ▸ List.prefix_append ..⟩
  obtain ⟨r', member', grown⟩ := exists_paired_right (forall₂_grow a m.taken m.rows) r member
  exact ⟨r', made.rows.mem_iff.mpr (List.mem_append_left _ member'), grown⟩

/-- An addition is refused, which leaves the module, or made. -/
theorem add_cases (m : ModuleTree) (a : Addition) :
    (∃ owner, a.owner? = some owner ∧ m.typeDef? owner = none ∧ m.add a = (m, .error (.typeNotFound owner.text))) ∨
      (m.Makes a (m.add a).1 ∧ (m.add a).2 = .ok (a.token m.taken)) := by
  cases asked : a.owner? with
  | none => exact .inr (makes_add (by simp [asked]))
  | some owner =>
    cases found : m.typeDef? owner with
    | none => exact .inl ⟨owner, rfl, found, add_of_unknown asked found⟩
    | some o => exact .inr (makes_add (by simp [asked, found]))

theorem numbered_add (a : Addition) (numbered : m.Numbered) : (m.add a).1.Numbered := by
  obtain ⟨owner, -, -, refused⟩ | ⟨made, -⟩ := m.add_cases a
  · rwa [refused]
  · exact made.numbered numbered

theorem grows_add (m : ModuleTree) (a : Addition) : m.Grows (m.add a).1 := by
  obtain ⟨owner, -, -, refused⟩ | ⟨made, -⟩ := m.add_cases a
  · rw [refused]
    exact .refl m
  · exact made.grows

theorem grows_addAll (m : ModuleTree) (additions : List Addition) : m.Grows (stepAll add m additions).1 :=
  stepAll_keeps (fun n a grows => grows.trans (n.grows_add a)) (.refl m) additions

/-- The module that has been built by some additions. -/
def built (name : String) (library : Library) (imports : ImportTable) (additions : List Addition) : ModuleTree :=
  (stepAll add { name, library, trees := [], taken := {}, imports } additions).1

theorem numbered_built (name : String) (library : Library) (imports : ImportTable) (additions : List Addition) :
    (built name library imports additions).Numbered := by
  refine stepAll_keeps (fun m a numbered => numbered_add a numbered) ?_ additions
  exact ⟨by simp [rows, rowTokens], by simp [rows, rowTokens, methodTokens]⟩

/-! ### What a token leads to -/

/-- No two types of a module have the same token, and no two methods. -/
structure Distinct (m : ModuleTree) : Prop where
  types : (m.all.map (·.token)).Nodup
  methods : (m.methods.map (·.2.token)).Nodup

theorem Numbered.distinct (numbered : m.Numbered) (types : m.taken.types ≤ ImportTable.maxRows)
    (methods : m.taken.methods ≤ ImportTable.maxRows) : m.Distinct := by
  constructor
  · rw [← tokens_rows]
    exact numbered.types.nodup_iff.mpr (nodup_rowTokens _ types)
  · rw [← methodTokens_rows]
    exact numbered.methods.nodup_iff.mpr (nodup_rowTokens _ methods)

theorem typeDef?_iff (distinct : (m.all.map (·.token)).Nodup) : m.typeDef? token = some t ↔ t ∈ m.all ∧ t.token = token := by
  rw [typeDef?, findAmong?_eq]
  constructor
  · intro found
    exact ⟨List.mem_of_find?_eq_some found, by simpa using List.find?_some found⟩
  · rintro ⟨member, rfl⟩
    exact find?_token distinct member

theorem Distinct.method?_iff (distinct : m.Distinct) : m.method? token = some (t, d) ↔ (t, d) ∈ m.methods ∧ d.token = token := by
  have unique := distinct.methods
  rw [ModuleTree.methods, List.map_flatMap] at unique
  simp only [List.map_map, Function.comp_def] at unique
  constructor
  · intro found
    obtain ⟨member, listed, same⟩ := of_findSome?_method found
    exact ⟨List.mem_flatMap.mpr ⟨t, member, List.mem_map_of_mem listed⟩, same⟩
  · rintro ⟨member, rfl⟩
    obtain ⟨u, member, own⟩ := List.mem_flatMap.mp member
    obtain ⟨e, listed, same⟩ := List.mem_map.mp own
    cases same
    exact findSome?_method unique member listed

/-- A module has a type under its token, perhaps added to, and the methods of the type with it. -/
def Has (m : ModuleTree) (t : TypeTree) : Prop :=
  ∃ u, m.typeDef? t.token = some u ∧ t.row.Grown u.row ∧ ∀ d ∈ t.methods, m.method? d.token = some (u, d)

theorem Distinct.has (distinct : m.Distinct) {r : TypeRow} (member : r ∈ m.rows) (grown : t.row.Grown r) : m.Has t := by
  obtain ⟨u, here, rfl⟩ := List.mem_map.mp member
  refine ⟨u, (typeDef?_iff distinct.types).mpr ⟨here, grown.token⟩, grown, fun d listed => distinct.method?_iff.mpr ⟨?_, rfl⟩⟩
  exact List.mem_flatMap.mpr ⟨u, here, List.mem_map_of_mem (grown.methods.subset listed)⟩

/-- A module has what has been added to it, under the token that has been given to it. -/
def HasAdded (m : ModuleTree) (token : Token) : Addition → Prop
  | .type decl => ∃ t : TypeTree, t.token = token ∧ t.decl = decl ∧ (∀ u ∈ t.all, m.Has u) ∧ token ∈ m.trees.map (·.token)
  | .nested outer decl => ∃ t : TypeTree, t.token = token ∧ t.decl = decl ∧ (∀ u ∈ t.all, m.Has u) ∧
      ∃ o, m.typeDef? outer = some o ∧ token ∈ o.nested.map (·.token)
  | .method owner d => ∃ o, m.method? token = some (o, { d with token }) ∧ o.token = owner

/-- What an addition has put into the rows of a module stays in them. -/
theorem Makes.hasAdded (made : m.Makes a n) (grows : n.Grows k) (distinct : k.Distinct) : k.HasAdded (a.token m.taken) a := by
  have types : ∀ t ∈ a.added m.taken, ∀ u ∈ t.all, k.Has u := by
    intro t new u inside
    have listed : u.row ∈ rowsOf (a.added m.taken) :=
      List.mem_map_of_mem (allTypes_eq_flatMap _ ▸ List.mem_flatMap.mpr ⟨t, new, inside⟩)
    obtain ⟨r, member, grown⟩ := grows.rows _ (made.rows.mem_iff.mpr (List.mem_append_right _ listed))
    exact distinct.has member grown
  cases a with
  | type decl =>
    refine ⟨_, decl.token_number m.taken, decl.decl_number m.taken, types _ (List.mem_singleton_self _), grows.top.subset ?_⟩
    exact made.top ▸ List.mem_append_right _ (List.mem_singleton_self _)
  | nested outer decl =>
    refine ⟨_, decl.token_number m.taken, decl.decl_number m.taken, types _ (List.mem_singleton_self _), ?_⟩
    obtain ⟨r, -, own, changed⟩ := mem_modifyFirst (made.owner outer rfl)
    obtain ⟨r', member, grown⟩ := grows.rows _ (made.rows.mem_iff.mpr (List.mem_append_left _ changed))
    obtain ⟨o, here, rfl⟩ := List.mem_map.mp member
    refine ⟨o, (typeDef?_iff distinct.types).mpr ⟨here, grown.token.trans (beq_iff_eq.mp own)⟩, grown.nested.subset ?_⟩
    exact List.mem_append_right _ (List.mem_singleton_self _)
  | method owner d =>
    obtain ⟨r, -, own, changed⟩ := mem_modifyFirst (made.owner owner rfl)
    obtain ⟨r', member, grown⟩ := grows.rows _ (made.rows.mem_iff.mpr (List.mem_append_left _ changed))
    obtain ⟨o, here, rfl⟩ := List.mem_map.mp member
    refine ⟨o, distinct.method?_iff.mpr ⟨List.mem_flatMap.mpr ⟨o, here, List.mem_map_of_mem ?_⟩, rfl⟩,
      grown.token.trans (beq_iff_eq.mp own)⟩
    exact grown.methods.subset (List.mem_append_right _ (List.mem_singleton_self _))

theorem Numbered.taken_eq (numbered : m.Numbered) : m.taken = ⟨m.all.length, m.methods.length⟩ := by
  have types := numbered.types.length_eq
  have methods := numbered.methods.length_eq
  rw [tokens_rows] at types
  rw [methodTokens_rows] at methods
  simp only [List.length_map, rowTokens, List.length_range'] at types methods
  rw [types, methods]

end ModuleTree

open ModuleTree in
/-- Something is added to a module that has been built by additions, and more later, no more than tokens can tell apart. The types and
    the methods that are there at last have the tokens of the first rows of their tables, each once. A token leads to the type that has
    it, or to the method that has it and the type that declares this one. All types are listed, each before those directly inside it.
    What has been there before is there at last under the tokens it has had; and so is what has been added, in its place, under the
    token of the next row, unless its owner is not there: then the module stays as it is. -/
theorem additions_number_definitions (name : String) (library : Library) (imports : ImportTable) (additions later : List Addition)
    (a : Addition) :
    let m := built name library imports additions
    let last := (stepAll add (m.add a).1 later).1
    last.taken.types ≤ ImportTable.maxRows → last.taken.methods ≤ ImportTable.maxRows →
      last.taken = ⟨last.all.length, last.methods.length⟩ ∧
      ((last.all.map (·.token)).Perm (rowTokens Token.typeDef last.taken.types) ∧ (last.all.map (·.token)).Nodup) ∧
      ((last.methods.map (·.2.token)).Perm (rowTokens Token.methodDef last.taken.methods) ∧ (last.methods.map (·.2.token)).Nodup) ∧
      (∀ token t, last.typeDef? token = some t ↔ t ∈ last.all ∧ t.token = token) ∧
      (∀ token t d, last.method? token = some (t, d) ↔ (t ∈ last.all ∧ d ∈ t.methods) ∧ d.token = token) ∧
      (∀ u, u ∈ last.all ↔ u ∈ last.trees ∨ ∃ t ∈ last.all, u ∈ t.nested) ∧
      (∀ t ∈ last.all, ∀ u ∈ t.nested, [t, u].Sublist last.all) ∧
      (∀ t ∈ m.all, last.Has t) ∧
      (∀ owner ∈ a.owner?, m.typeDef? owner = none → m.add a = (m, .error (.typeNotFound owner.text))) ∧
      ((∀ owner ∈ a.owner?, (m.typeDef? owner).isSome) →
        (m.add a).2 = .ok (a.token m.taken) ∧ last.HasAdded (a.token m.taken) a) := by
  intro m last types methods
  have numbered : last.Numbered :=
    stepAll_keeps (fun _ a numbered => numbered_add a numbered) (numbered_add a (numbered_built ..)) later
  have distinct := numbered.distinct types methods
  have onward : (m.add a).1.Grows last := grows_addAll _ later
  have tokens := numbered.types
  have methodTokens := numbered.methods
  rw [tokens_rows] at tokens
  rw [methodTokens_rows] at methodTokens
  refine ⟨numbered.taken_eq, ⟨tokens, distinct.types⟩, ⟨methodTokens, distinct.methods⟩, fun token t => typeDef?_iff distinct.types,
    fun token t d => ?_, fun u => mem_allTypes_iff, fun t member u => sublist_allTypes member, fun t member => ?_,
    fun owner asked missing => add_of_unknown asked missing, fun known => ?_⟩
  · rw [distinct.method?_iff]
    simp [ModuleTree.methods]
  · obtain ⟨r, here, grown⟩ := ((m.grows_add a).trans onward).rows _ (List.mem_map_of_mem member)
    exact distinct.has here grown
  · obtain ⟨made, answer⟩ := makes_add known
    exact ⟨answer, made.hasAdded onward distinct⟩

namespace Sample

/-- A type with a method, and inside it another one with a method. -/
def outerAdded : List Addition :=
  [.type { name := ⟨"Sample", "Outer"⟩, methods := [{ name := "A" }], nested := [{ name := ⟨"", "Inner"⟩, methods := [{ name := "B" }] }] }]

/-- Another type, a type inside the inner one, and a method of a type that is not there. -/
def othersAdded : List Addition :=
  [.type { name := ⟨"Sample", "Other"⟩ }, .nested (.ofParts Token.typeDef 2) { name := ⟨"", "Deep"⟩, methods := [{ name := "D" }] },
    .method (.ofParts Token.typeDef 9) { name := "E" }]

open ModuleTree in
theorem inner_method_numbered :
    let m := built "Sample" {} {} outerAdded
    let a : Addition := .method (.ofParts Token.typeDef 2) { name := "C" }
    let last := (stepAll add (m.add a).1 othersAdded).1
    last.taken = ⟨4, 4⟩ ∧ last.all.map (·.token.row) = [1, 2, 4, 3] ∧
      (m.typeDef? (.ofParts Token.typeDef 2)).isSome ∧ last.HasAdded (.ofParts Token.methodDef 3) a := by
  have known : ∀ owner ∈ some (Token.ofParts Token.typeDef 2),
      ((built "Sample" {} {} outerAdded).typeDef? owner).isSome := by
    rintro _ ⟨⟩
    decide +kernel
  exact ⟨by decide +kernel, by decide +kernel, known _ rfl,
    ((additions_number_definitions "Sample" {} {} outerAdded othersAdded (.method (.ofParts Token.typeDef 2) { name := "C" })
      (by decide +kernel) (by decide +kernel)).2.2.2.2.2.2.2.2.2 known).2⟩

end Sample

end AspectWeaving

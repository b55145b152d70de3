import AspectWeaving.DefinitionIndex
import AspectWeaving.Proofs.FlatModules
import AspectWeaving.Proofs.BaseChains

/-!
Snapshots in maps. Entries that are put into a snapshot one after another are found there under their tokens and full names, the last one
where several have the same (`DefinitionIndex.get?_insertAll`, `DefinitionIndex.find?_insertAll`). So the snapshot of a module whose
types have different tokens knows each type and method that the module knows; but of types of one full name it finds the last, where
the module finds the first (`snapshot_agrees`).
-/
namespace AspectWeaving

/-! ### The first and the last item of a kind -/

section Kinds

variable {α : Type} {p : α → Bool} {l : List α} {a b : α}

theorem head?_eq_getLast?_iff (distinct : l.Nodup) : l.head? = l.getLast? ↔ ∀ a ∈ l, ∀ b ∈ l, a = b := by
  cases l with
  | nil => simp
  | cons a rest =>
    obtain ⟨new, -⟩ := List.nodup_cons.mp distinct
    cases rest with
    | nil => simp
    | cons b rest =>
      refine ⟨fun same => absurd ?_ new, fun single => absurd ?_ new⟩
      · rw [List.head?_cons, List.getLast?_cons_cons] at same
        exact List.mem_of_getLast? same.symm
      · rw [single a List.mem_cons_self b (List.mem_cons_of_mem _ List.mem_cons_self)]
        exact List.mem_cons_self

/-- The first item of a kind is the last one just if there is no other. -/
theorem find?_eq_find?_reverse_iff (distinct : l.Nodup) :
    l.find? p = l.reverse.find? p ↔ ∀ a ∈ l, ∀ b ∈ l, p a → p b → a = b := by
  rw [← List.head?_filter, ← List.getLast?_filter, head?_eq_getLast?_iff (distinct.filter p)]
  simp only [List.mem_filter]
  exact ⟨fun single a here b there kind kind' => single a ⟨here, kind⟩ b ⟨there, kind'⟩,
    fun single a here b there => single a here.1 b there.1 here.2 there.2⟩

theorem find?_reverse_token {token : α → Token} (unique : (l.map token).Nodup) (own : Token) :
    l.reverse.find? (token · == own) = l.find? (token · == own) := by
  refine ((find?_eq_find?_reverse_iff unique.of_map).mpr fun a here b there first second => ?_).symm
  rw [beq_iff_eq] at first second
  exact List.inj_on_of_nodup_map unique here there (first.trans second.symm)

end Kinds

namespace DefinitionIndex

variable {d : DefinitionIndex} {e : DefinitionEntry} {es : List DefinitionEntry} {m : ModuleTree} {token : Token} {fullName : String}

/-! ### Entries put in one after another -/

theorem get?_insert (d : DefinitionIndex) (e : DefinitionEntry) (token : Token) :
    (d.insert e).get? token = if e.token == token then some e else d.get? token := by
  unfold get? insert
  exact Std.HashMap.getElem?_insert

theorem byName_insert (d : DefinitionIndex) (e : DefinitionEntry) (fullName : String) :
    (d.insert e).byName[fullName]? = if e.fullName == fullName then some e.token else d.byName[fullName]? := by
  unfold insert
  exact Std.HashMap.getElem?_insert

theorem get?_insertAll (d : DefinitionIndex) (es : List DefinitionEntry) (token : Token) :
    (es.foldl insert d).get? token = (es.reverse.find? (·.token == token)).or (d.get? token) := by
  induction es generalizing d with
  | nil => rfl
  | cons e rest ih =>
    rw [List.foldl_cons, ih, get?_insert, List.reverse_cons, List.find?_append, Option.or_assoc]
    by_cases own : e.token == token <;> simp [own]

theorem byName_insertAll (d : DefinitionIndex) (es : List DefinitionEntry) (fullName : String) :
    (es.foldl insert d).byName[fullName]? =
      ((es.reverse.find? (·.fullName == fullName)).map (·.token)).or d.byName[fullName]? := by
  induction es generalizing d with
  | nil => rfl
  | cons e rest ih =>
    rw [List.foldl_cons, ih, byName_insert, List.reverse_cons, List.find?_append]
    cases rest.reverse.find? (·.fullName == fullName) with
    | some last => rfl
    | none => by_cases own : e.fullName == fullName <;> simp [own]

theorem order_insertAll (d : DefinitionIndex) (es : List DefinitionEntry) :
    (es.foldl insert d).order.toList = d.order.toList ++ es.map (·.token) := by
  induction es generalizing d with
  | nil => simp
  | cons e rest ih => simp [ih, insert]

/-- Entries of different types take a place each. -/
theorem size_insertAll (new : ∀ e ∈ es, e.token ∉ d.entries) (distinct : (es.map (·.token)).Nodup) :
    (es.foldl insert d).entries.size = d.entries.size + es.length := by
  induction es generalizing d with
  | nil => rfl
  | cons e rest ih =>
    obtain ⟨first, new⟩ := List.forall_mem_cons.mp new
    obtain ⟨other, distinct⟩ := List.nodup_cons.mp distinct
    have size : (d.insert e).entries.size = d.entries.size + 1 := by
      unfold insert
      rw [Std.HashMap.size_insert, if_neg first]
    have new : ∀ e' ∈ rest, e'.token ∉ (d.insert e).entries := fun e' later here => by
      rcases Std.HashMap.mem_insert.mp here with same | there
      · exact other (List.mem_map.mpr ⟨e', later, (beq_iff_eq.mp same).symm⟩)
      · exact new e' later there
    rw [List.foldl_cons, ih new distinct, size, List.length_cons]
    omega

theorem ofModule_eq (m : ModuleTree) : ofModule m = (m.all.map (entry m)).foldl insert {} := by
  rw [ofModule, List.foldl_map]

theorem map_token_entries (m : ModuleTree) : (m.all.map (entry m)).map (·.token) = m.all.map (·.token) := by
  rw [List.map_map]
  rfl

/-! ### What a snapshot knows of a module -/

section Agreement

variable (distinct : (m.all.map (·.token)).Nodup)

include distinct

theorem get?_ofModule (token : Token) : (ofModule m).get? token = (m.typeDef? token).map (entry m) := by
  have none : get? {} token = none := Std.HashMap.getElem?_empty
  rw [ofModule_eq, get?_insertAll, none, Option.or_none, find?_reverse_token (by rwa [map_token_entries]), List.find?_map,
    ModuleTree.typeDef?, findAmong?_eq]
  rfl

theorem get?_entry {t : TypeTree} (member : t ∈ m.all) : (ofModule m).get? t.token = some (entry m t) := by
  rw [get?_ofModule distinct, (ModuleTree.typeDef?_iff distinct).mpr ⟨member, rfl⟩]
  rfl

/-- The snapshot has the full names of the module. -/
theorem typeFullName?_eq {t : TypeTree} (member : t ∈ m.all) : m.typeFullName? t.token = some (entry m t).fullName := by
  have found : m.typeDef? t.token = some t := (ModuleTree.typeDef?_iff distinct).mpr ⟨member, rfl⟩
  have known : (m.typeFullName? t.token).isSome := by
    rw [← m.typeFullName?_flat, Module.typeFullName?]
    obtain ⟨missing, -⟩ | ⟨u, enclosing, -, found'⟩ := m.typeDef?_flat t.token
    · cases found.symm.trans missing
    · rw [found']
      rfl
  obtain ⟨fullName, here⟩ := Option.isSome_iff_exists.mp known
  simp [entry, here]

/-- Of types of one full name the snapshot finds the last. -/
theorem find?_ofModule (fullName : String) :
    (ofModule m).find? fullName = (m.all.map (entry m)).reverse.find? (·.fullName == fullName) := by
  have none : (({} : DefinitionIndex).byName)[fullName]? = none := Std.HashMap.getElem?_empty
  have names : (ofModule m).byName[fullName]? = ((m.all.map (entry m)).reverse.find? (·.fullName == fullName)).map (·.token) := by
    rw [ofModule_eq, byName_insertAll, none, Option.or_none]
  rw [find?, names]
  cases last : (m.all.map (entry m)).reverse.find? (·.fullName == fullName) with
  | none => rfl
  | some e =>
    obtain ⟨t, member, rfl⟩ := List.mem_map.mp (List.mem_reverse.mp (List.mem_of_find?_eq_some last))
    exact get?_entry distinct member

theorem map_entry_find? {types : List TypeTree} (within : ∀ t ∈ types, t ∈ m.all) (fullName : String) :
    (types.find? fun t => m.typeFullName? t.token == some fullName).map (entry m) =
      (types.map (entry m)).find? (·.fullName == fullName) := by
  rw [List.find?_map, ← List.head?_filter, ← List.head?_filter]
  congr 2
  refine List.filter_congr fun t member => ?_
  rw [typeFullName?_eq distinct (within t member)]
  rfl

theorem inOrder_ofModule : (ofModule m).inOrder = m.all.map (entry m) := by
  have order : (ofModule m).order.toList = m.all.map (·.token) := by
    rw [ofModule_eq, order_insertAll, map_token_entries]
    rfl
  rw [inOrder, order, List.filterMap_map, ← List.filterMap_eq_map]
  exact List.filterMap_congr fun t member => get?_entry distinct member

end Agreement

/-! ### Snapshots in lists -/

section Lists

variable (distinct : (m.all.map (·.token)).Nodup)

include distinct

/-- The snapshot in a list of the types in a list has the same entries. -/
theorem entries_flat : (Definitions.ofModule m.flat).entries = m.all.map (entry m) := by
  have listed : (m.flat.types.map (·.token)).Nodup := by
    rw [ModuleTree.flat, map_token_defsAll]
    exact distinct
  obtain ⟨lengths, pairs⟩ := List.forall₂_iff_zip.mp (forall₂_defsAll [] m.trees)
  rw [Definitions.entries_ofModule, eq_comm, ← List.forall₂_eq_eq_eq, List.forall₂_map_left_iff, List.forall₂_map_right_iff,
    List.forall₂_iff_zip]
  refine ⟨lengths, fun {t d} met => ?_⟩
  have same := pairs met
  have found : m.flat.typeDef? d.token = some d := find?_token listed (List.of_mem_zip met).2
  have named : m.typeFullName? t.token = some d.fullName := by
    have token : t.token = d.token := by rw [same]; rfl
    rw [← m.typeFullName?_flat, Module.typeFullName?, token, found]
    rfl
  unfold entry Definitions.entry
  rw [named, same]
  rfl

theorem get?_flat (token : Token) : (ofModule m).get? token = (Definitions.ofModule m.flat).get? token := by
  have none : get? {} token = none := Std.HashMap.getElem?_empty
  rw [ofModule_eq, get?_insertAll, none, Option.or_none, find?_reverse_token (by rwa [map_token_entries]), Definitions.get?,
    entries_flat distinct]

theorem size_entries : (ofModule m).entries.size = (Definitions.ofModule m.flat).entries.length := by
  rw [ofModule_eq, size_insertAll (fun _ _ => Std.HashMap.not_mem_empty) (by rwa [map_token_entries]), entries_flat distinct]
  exact Nat.zero_add _

theorem baseChain_flat (token : Token) : (ofModule m).baseChain token = (Definitions.ofModule m.flat).baseChain token := by
  have links : baseEntry? (ofModule m) = Definitions.baseEntry? (Definitions.ofModule m.flat) := by
    funext e
    unfold baseEntry? Definitions.baseEntry?
    cases e.base with
    | definition base => exact get?_flat distinct base
    | external name => rfl
  rw [baseChain, Definitions.baseChain, links, size_entries distinct, get?_flat distinct]

end Lists

/-- The snapshot has the methods of the module. -/
theorem method?_ofModule (distinct : m.Distinct) (token : Token) :
    (ofModule m).method? token = (m.method? token).map fun e => Definitions.methodEntry m.flat e.2 := by
  have listed : ∀ e, e ∈ (ofModule m).entries.toList.flatMap (·.2.methods) ↔
      ∃ t d, (t, d) ∈ m.methods ∧ Definitions.methodEntry m.flat d = e := by
    have known : ∀ type e, (type, e) ∈ (ofModule m).entries.toList ↔ ∃ t ∈ m.all, t.token = type ∧ entry m t = e := by
      intro type e
      rw [Std.HashMap.mem_toList_iff_getElem?_eq_some]
      change (ofModule m).get? type = some e ↔ _
      rw [get?_ofModule distinct.types, Option.map_eq_some_iff]
      simp only [ModuleTree.typeDef?_iff distinct.types, and_assoc]
    intro e
    simp only [List.mem_flatMap, Prod.exists, known, ModuleTree.methods, List.mem_map, Prod.mk.injEq]
    constructor
    · rintro ⟨-, -, ⟨t, member, -, rfl⟩, here⟩
      obtain ⟨d, own, rfl⟩ := List.mem_map.mp here
      exact ⟨t, d, ⟨t, member, d, own, rfl, rfl⟩, rfl⟩
    · rintro ⟨_, _, ⟨t, member, d, own, rfl, rfl⟩, rfl⟩
      exact ⟨_, _, ⟨t, member, rfl, rfl⟩, List.mem_map_of_mem own⟩
  cases found : m.method? token with
  | none =>
    refine List.find?_eq_none.mpr fun e member same => ?_
    obtain ⟨t, d, own, rfl⟩ := (listed e).mp member
    have there := distinct.method?_iff.mpr ⟨own, beq_iff_eq.mp same⟩
    cases found.symm.trans there
  | some own =>
    obtain ⟨t, d⟩ := own
    obtain ⟨member, same⟩ := distinct.method?_iff.mp found
    obtain ⟨e, first⟩ : ∃ e, ((ofModule m).entries.toList.flatMap (·.2.methods)).find? (·.token == token) = some e :=
      Option.isSome_iff_exists.mp (List.find?_isSome.mpr ⟨_, (listed _).mpr ⟨t, d, member, rfl⟩, beq_iff_eq.mpr same⟩)
    obtain ⟨u, d', member', rfl⟩ := (listed e).mp (List.mem_of_find?_eq_some first)
    have same' : d'.token = token := by simpa [Definitions.methodEntry] using List.find?_some first
    cases found.symm.trans (distinct.method?_iff.mpr ⟨member', same'⟩)
    exact first

end DefinitionIndex

open DefinitionIndex in
/-- A module has been built by additions, no more than tokens can tell apart. A snapshot of it has an entry for just the types of the
    module, with the full name the module gives the type, its base, whether it is abstract, and its methods; it finds the methods that
    the module finds, and lists the entries in the order of the types. Under a full name it has an entry just if the module has a type.
    It is that of the last one, and so that of the type which the module finds, the first, just if no two types have the full name. -/
theorem snapshot_agrees (name : String) (library : Library) (imports : ImportTable) (additions : List Addition) :
    let m := ModuleTree.built name library imports additions
    let d := DefinitionIndex.ofModule m
    m.taken.types ≤ ImportTable.maxRows → m.taken.methods ≤ ImportTable.maxRows →
      (∀ token, d.get? token = (m.typeDef? token).map (entry m)) ∧
      (∀ t ∈ m.all, m.typeFullName? t.token = some (entry m t).fullName ∧ (entry m t).token = t.token ∧
        (entry m t).base = t.baseLocator ∧ (entry m t).isAbstract = t.flags.isAbstract ∧
        (entry m t).methods = t.methods.map (Definitions.methodEntry m.flat)) ∧
      (∀ token, d.method? token = (m.method? token).map fun e => Definitions.methodEntry m.flat e.2) ∧
      d.inOrder = m.all.map (entry m) ∧
      ∀ fullName,
        d.find? fullName = (m.all.reverse.find? fun t => m.typeFullName? t.token == some fullName).map (entry m) ∧
        (d.find? fullName).isSome = (m.findType? fullName).isSome ∧
        (d.find? fullName = (m.findType? fullName).map (entry m) ↔
          ∀ t ∈ m.all, ∀ u ∈ m.all, m.typeFullName? t.token = some fullName → m.typeFullName? u.token = some fullName → t = u) := by
  intro m d types methods
  have distinct : m.Distinct := (ModuleTree.numbered_built ..).distinct types methods
  refine ⟨get?_ofModule distinct.types, fun t member => ⟨typeFullName?_eq distinct.types member, rfl, rfl, rfl, rfl⟩,
    method?_ofModule distinct, inOrder_ofModule distinct.types, fun fullName => ?_⟩
  have last := find?_ofModule distinct.types fullName
  have first : (m.findType? fullName).map (entry m) = (m.all.map (entry m)).find? (·.fullName == fullName) :=
    map_entry_find? distinct.types (fun _ => id) fullName
  refine ⟨?_, ?_, ?_⟩
  · rw [last, ← List.map_reverse, map_entry_find? distinct.types fun t member => List.mem_reverse.mp member]
  · rw [last, ← Option.isSome_map (x := m.findType? fullName), first, Bool.eq_iff_iff, List.find?_isSome, List.find?_isSome]
    simp only [List.mem_reverse]
  · have entries : (m.all.map (entry m)).Nodup := by
      refine List.Nodup.of_map (·.token) ?_
      rw [map_token_entries]
      exact distinct.types
    rw [last, first, eq_comm, find?_eq_find?_reverse_iff entries]
    simp only [List.forall_mem_map, beq_iff_eq]
    refine forall₂_congr fun t here => forall₂_congr fun u there => ?_
    have same : entry m t = entry m u ↔ t = u :=
      ⟨fun same => List.inj_on_of_nodup_map distinct.types here there (congrArg DefinitionEntry.token same), congrArg _⟩
    rw [typeFullName?_eq distinct.types here, typeFullName?_eq distinct.types there, Option.some.injEq, Option.some.injEq, same]

namespace Sample

/-- Two types of one full name, the second one abstract. -/
def twins : List Addition :=
  [.type { name := ⟨"Sample", "Twin"⟩ }, .type { name := ⟨"Sample", "Twin"⟩, flags := { isPublic := true, isAbstract := true } }]

/-- The snapshot finds the second type, the module the first. -/
theorem twins_found_apart :
    let m := ModuleTree.built "Sample" {} {} twins
    (m.findType? "Sample.Twin").map (·.token) = some (.ofParts Token.typeDef 1) ∧
      ((DefinitionIndex.ofModule m).find? "Sample.Twin").map (·.token) = some (.ofParts Token.typeDef 2) := by
  refine ⟨by decide +kernel, ?_⟩
  rw [DefinitionIndex.find?_ofModule (by decide +kernel)]
  decide +kernel

theorem outer_agrees :
    let m := ModuleTree.built "Sample" {} {} outerAdded
    m.taken = ⟨2, 2⟩ ∧ (m.findType? "Sample.Outer/Inner").map (·.token) = some (.ofParts Token.typeDef 2) ∧
      (DefinitionIndex.ofModule m).get? (.ofParts Token.typeDef 2) =
        (m.typeDef? (.ofParts Token.typeDef 2)).map (DefinitionIndex.entry m) :=
  ⟨by decide +kernel, by decide +kernel, (snapshot_agrees "Sample" {} {} outerAdded (by decide +kernel) (by decide +kernel)).1 _⟩

end Sample

end AspectWeaving

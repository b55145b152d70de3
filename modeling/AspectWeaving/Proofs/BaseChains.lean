import AspectWeaving.Proofs.ModuleMethods
import AspectWeaving.Resolution
import Mathlib.Data.List.Nodup
import Mathlib.Logic.Relation

/-!
Chains of bases. Along links between finitely many items a chain of as many items or more comes to all that can be reached, also
where the links run in a circle (`mem_chain_iff`). So what is looked for along the bases of a type, in the module or in the
library, is looked for in all of them (`Module.mem_bases_iff`, `Library.derivesFrom_iff`), and the base at which a type leaves
the module is the one of the type at which its bases stop (`Definitions.externalBase?_ofModule`).
-/
namespace AspectWeaving

/-! ### Chains among finitely many items -/

section Chains

variable {α : Type} {next : α → Option α} {items : List α} {start : Option α} {a b c : α} {limit k : Nat}

theorem getElem?_chain_zero (room : 0 < limit) : (chain next limit start)[0]? = start := by
  obtain ⟨limit, rfl⟩ := Nat.exists_eq_add_one.mpr room
  cases start <;> rfl

theorem getElem?_chain_succ (inside : k + 1 < limit) : (chain next limit start)[k + 1]? = (chain next limit start)[k]?.bind next := by
  induction limit generalizing start k with
  | zero => cases inside
  | succ limit ih =>
    cases start with
    | none => simp
    | some a =>
      cases k with
      | zero => simpa [chain] using getElem?_chain_zero (by omega)
      | succ k => simpa [chain] using ih (by omega)

/-- Where two items of a chain are the same, those behind them are. -/
theorem getElem?_chain_add {i j : Nat} (same : (chain next limit start)[i]? = (chain next limit start)[j]?) {n : Nat}
    (first : i + n < limit) (second : j + n < limit) : (chain next limit start)[i + n]? = (chain next limit start)[j + n]? := by
  induction n with
  | zero => exact same
  | succ n ih =>
    rw [← Nat.add_assoc, ← Nat.add_assoc, getElem?_chain_succ (by omega), getElem?_chain_succ (by omega), ih (by omega) (by omega)]

/-- A chain for all items has what its items lead to. -/
theorem mem_chain_of_next (within : ∀ a ∈ chain next limit start, a ∈ items) (leads : ∀ a b, next a = some b → b ∈ items)
    (enough : items.length ≤ limit) (member : b ∈ chain next limit start) (onward : next b = some c) : c ∈ chain next limit start := by
  obtain ⟨k, here⟩ := List.mem_iff_getElem?.mp member
  have bound := length_chain_le next limit start
  have inside := (List.getElem?_eq_some_iff.mp here).1
  by_cases more : k + 1 < limit
  · refine List.mem_iff_getElem?.mpr ⟨k + 1, ?_⟩
    rw [getElem?_chain_succ more, here]
    exact onward
  · -- The chain has stopped for its length. Either it has all items, or it has come to one of them twice.
    by_cases distinct : (chain next limit start).Nodup
    · by_contra missing
      have more : (c :: chain next limit start).Nodup := List.nodup_cons.mpr ⟨missing, distinct⟩
      have short := more.length_le_of_subset (List.cons_subset.mpr ⟨leads b c onward, within⟩)
      rw [List.length_cons] at short
      omega
    · obtain ⟨i, j, before, stops, same⟩ : ∃ i j, i < j ∧ j < (chain next limit start).length ∧
          (chain next limit start)[i]? = (chain next limit start)[j]? := by
        simpa [List.nodup_iff_getElem?_ne_getElem?] using distinct
      have there : (chain next limit start)[i + (k - j)]? = some b := by
        rw [getElem?_chain_add same (by omega) (by omega), show j + (k - j) = k by omega, here]
      refine List.mem_iff_getElem?.mpr ⟨i + (k - j) + 1, ?_⟩
      rw [getElem?_chain_succ (by omega), there]
      exact onward

/-- A chain for all items has just what its first one leads to. -/
theorem mem_chain_iff (own : a ∈ items) (leads : ∀ a b, next a = some b → b ∈ items) (enough : items.length ≤ limit) :
    b ∈ chain next limit (some a) ↔ Relation.ReflTransGen (fun x y => next x = some y) a b := by
  have within : ∀ c ∈ chain next limit (some a), c ∈ items :=
    forall_mem_chain (fun c d _ onward => leads c d onward) _ _ fun c first => Option.some.inj first ▸ own
  constructor
  · exact forall_mem_chain (P := Relation.ReflTransGen (fun x y => next x = some y) a) (fun c d reached onward => reached.tail onward) _ _
      (fun c first => Option.some.inj first ▸ .refl) b
  · intro reached
    induction reached with
    | refl => exact List.mem_iff_getElem?.mpr ⟨0, getElem?_chain_zero (Nat.lt_of_lt_of_le (List.length_pos_of_mem own) enough)⟩
    | tail _ onward ih => exact mem_chain_of_next within leads enough ih onward

/-- An item that leads nowhere is the last one of a chain that comes to it. -/
theorem getLast?_chain_iff (own : a ∈ items) (leads : ∀ a b, next a = some b → b ∈ items) (enough : items.length ≤ limit)
    (stops : next b = none) :
    (chain next limit (some a)).getLast? = some b ↔ Relation.ReflTransGen (fun x y => next x = some y) a b := by
  rw [← mem_chain_iff own leads enough]
  refine ⟨List.mem_of_getLast?, fun member => ?_⟩
  obtain ⟨k, here⟩ := List.mem_iff_getElem?.mp member
  have bound := length_chain_le next limit (some a)
  have inside := (List.getElem?_eq_some_iff.mp here).1
  have last : (chain next limit (some a)).length = k + 1 := by
    by_contra longer
    have after : (chain next limit (some a))[k + 1]? = none := by
      rw [getElem?_chain_succ (by omega), here]
      exact stops
    have := List.getElem?_eq_none_iff.mp after
    omega
  rw [List.getLast?_eq_getElem?, last]
  exact here

end Chains

/-! ### Bases in the module -/

section Bases

variable {m : Module} {t u : TypeDef} {type ancestor : Token} {name : TypeName}

/-- A type of the module and its bases there, the nearest first. -/
def Module.bases (m : Module) (type : Token) : List TypeDef := chain m.ownBase? m.types.length (m.typeDef? type)

/-- A type of the module is another one or has it for a base, perhaps of a base. -/
def Module.Reaches (m : Module) : TypeDef → TypeDef → Prop := Relation.ReflTransGen fun t u => m.ownBase? t = some u

theorem Module.mem_types_of_ownBase? (base : m.ownBase? t = some u) : u ∈ m.types := by
  unfold ownBase? at base
  split at base
  · exact List.mem_of_find?_eq_some base
  · cases base

theorem Module.mem_bases_iff (found : m.typeDef? type = some t) : u ∈ m.bases type ↔ m.Reaches t u := by
  unfold bases
  rw [found]
  exact mem_chain_iff (List.mem_of_find?_eq_some found) (fun _ _ => mem_types_of_ownBase?) (Nat.le_refl _)

/-- Of the bases of a type, one that leaves the module is the last. -/
theorem Module.getLast?_bases_iff (found : m.typeDef? type = some t) (leaves : m.ownBase? u = none) :
    (m.bases type).getLast? = some u ↔ m.Reaches t u := by
  unfold bases
  rw [found]
  exact getLast?_chain_iff (List.mem_of_find?_eq_some found) (fun _ _ => mem_types_of_ownBase?) (Nat.le_refl _) leaves

/-! ### Snapshots -/

/-- What the snapshot of a module knows of a type. -/
def Definitions.entry (m : Module) (t : TypeDef) : DefinitionEntry where
  token := t.token
  fullName := t.fullName
  base := t.baseLocator
  isAbstract := t.flags.isAbstract
  methods := t.methods.map (methodEntry m)

theorem Definitions.entries_ofModule (m : Module) : (ofModule m).entries = m.types.map (entry m) := rfl

theorem Definitions.get?_ofModule (m : Module) (type : Token) : (ofModule m).get? type = (m.typeDef? type).map (entry m) := by
  unfold get? Module.typeDef?
  rw [entries_ofModule, List.find?_map]
  rfl

theorem Definitions.ownBase_ofModule (m : Module) (t : TypeDef) :
    baseEntry? (ofModule m) (entry m t) = (m.ownBase? t).map (entry m) := by
  unfold baseEntry? Module.ownBase?
  cases base : t.base with
  | none => simp [entry, TypeDef.baseLocator, base]
  | some locator => cases locator <;> simp [entry, TypeDef.baseLocator, base, get?_ofModule]

theorem map_chain {α β : Type} {next : α → Option α} {next' : β → Option β} (f : α → β) (links : ∀ a, next' (f a) = (next a).map f)
    (limit : Nat) (start : Option α) : chain next' limit (start.map f) = (chain next limit start).map f := by
  induction limit generalizing start with
  | zero => rfl
  | succ limit ih =>
    cases start with
    | none => simp
    | some a => simp only [Option.map_some, chain, List.map_cons, links, ih]

theorem Definitions.baseChain_ofModule (m : Module) (type : Token) : (ofModule m).baseChain type = (m.bases type).map (entry m) := by
  unfold baseChain Module.bases
  rw [entries_ofModule, List.length_map, get?_ofModule, map_chain (entry m) (ownBase_ofModule m)]

/-- The first method of a type that is asked for. -/
def Module.ownMatch? (m : Module) (q : MethodQuery) (t : TypeDef) : Option MethodDef :=
  t.methods.find? fun d => q.acceptsEntry (Definitions.methodEntry m d)

/-- What is looked for along the bases of a type is the first match of the nearest type that has one. -/
theorem Resolver.findOwnMethod?_eq (l : Library) (m : Module) (type : Token) (q : MethodQuery) :
    (⟨l, .ofModule m⟩ : Resolver).findOwnMethod? type q = ((m.bases type).findSome? (m.ownMatch? q)).map (Definitions.methodEntry m) := by
  unfold findOwnMethod?
  rw [Definitions.baseChain_ofModule, List.findSome?_map, List.map_findSome?]
  congr 1
  funext t
  show (t.methods.map (Definitions.methodEntry m)).find? q.acceptsEntry = _
  rw [List.find?_map]
  rfl

theorem Definitions.derivesFrom_ofModule (found : m.typeDef? type = some t) :
    (ofModule m).derivesFrom type ancestor = true ↔ ∃ u, m.Reaches t u ∧ u.token = ancestor := by
  unfold derivesFrom
  rw [baseChain_ofModule, List.any_map, List.any_eq_true]
  simp only [Function.comp_apply, Module.mem_bases_iff found, beq_iff_eq]
  rfl

/-- The base at which a type leaves the module is that of a type it reaches. -/
theorem Definitions.externalBase?_ofModule (found : m.typeDef? type = some t) :
    (ofModule m).externalBase? type = some name ↔ ∃ u, m.Reaches t u ∧ u.baseLocator = .external name := by
  have leaves : ∀ u : TypeDef, u.baseLocator.external? = some name ↔ u.baseLocator = .external name := fun u => by
    cases u.baseLocator <;> simp [TypeLocator.external?]
  unfold externalBase?
  rw [baseChain_ofModule, List.getLast?_map]
  simp only [Option.bind_eq_some_iff, Option.map_eq_some_iff]
  constructor
  · rintro ⟨_, ⟨u, last, rfl⟩, base⟩
    exact ⟨u, (Module.mem_bases_iff found).mp (List.mem_of_getLast? last), (leaves u).mp base⟩
  · rintro ⟨u, reached, base⟩
    have stops : m.ownBase? u = none := by
      unfold Module.ownBase?
      cases written : u.base with
      | none => rfl
      | some locator => cases locator <;> simp [TypeDef.baseLocator, written] at base ⊢
    exact ⟨_, ⟨u, (Module.getLast?_bases_iff found stops).mpr reached, rfl⟩, (leaves u).mpr base⟩

end Bases

/-! ### Bases in the library -/

/-- A type of the library is another one or has it for a base, perhaps of a base. -/
def Library.Reaches (l : Library) : LibraryType → LibraryType → Prop := Relation.ReflTransGen fun t u => l.baseType? t = some u

theorem Library.mem_types_of_baseType? {l : Library} {t u : LibraryType} (base : l.baseType? t = some u) : u ∈ l.types := by
  obtain ⟨name, -, found⟩ := Option.bind_eq_some_iff.mp base
  exact List.mem_of_find?_eq_some found

theorem Library.mem_baseChain_iff {l : Library} {name : TypeName} {u : LibraryType} :
    u ∈ l.baseChain name ↔ ∃ t, l.get? name = some t ∧ l.Reaches t u := by
  unfold baseChain
  cases found : l.get? name with
  | none => simp
  | some t =>
    have leads : ∀ t u, l.baseType? t = some u → u ∈ l.types := fun _ _ => mem_types_of_baseType?
    simp [mem_chain_iff (List.mem_of_find?_eq_some found) leads (Nat.le_refl _), Reaches]

theorem Library.derivesFrom_iff {l : Library} {name ancestor : TypeName} :
    l.derivesFrom name ancestor = true ↔ ∃ t u, l.get? name = some t ∧ l.Reaches t u ∧ u.name = ancestor := by
  unfold derivesFrom
  simp only [List.any_eq_true, mem_baseChain_iff, beq_iff_eq]
  constructor
  · rintro ⟨u, ⟨t, found, reached⟩, named⟩
    exact ⟨t, u, found, reached, named⟩
  · rintro ⟨t, u, found, reached, named⟩
    exact ⟨u, ⟨t, found, reached⟩, named⟩

end AspectWeaving

import AspectWeaving.Inheritance
import AspectWeaving.Proofs.Snapshots

/-!
Walks along bases. Several walks go along the bases of a type: one in a snapshot, cut off at the number of types, one in the module, cut
off at one more, and one in the library. None of them misses a type, whatever circles the bases run in: a chain for all items and a longer
one differ by what they have come to before (`eraseDups_chain`), so each walk comes to just the types that the bases lead to
(`base_walks_reach`).
-/
namespace AspectWeaving

/-! ### Chains of different lengths -/

section Chains

variable {α β : Type} [DecidableEq β] {next : α → Option α} {items : List α} {start : Option α} {a : α} {limit limit' : Nat} {l l' : List β}

omit [DecidableEq β] in
theorem head?_chain (first : (chain next limit start).head? = some a) : start = some a := by
  cases limit with
  | zero => cases first
  | succ limit =>
    cases start with
    | none => cases first
    | some b => exact first

omit [DecidableEq β] in
/-- Each item of a chain is the one that the item before leads to. -/
theorem isChain_chain (next : α → Option α) (limit : Nat) (start : Option α) :
    (chain next limit start).IsChain fun a b => next a = some b := by
  induction limit generalizing start with
  | zero => exact .nil
  | succ limit ih =>
    cases start with
    | none => exact .nil
    | some a => exact List.isChain_cons.mpr ⟨fun b first => head?_chain first, ih (next a)⟩

omit [DecidableEq β] in
theorem chain_prefix (next : α → Option α) (more : limit ≤ limit') (start : Option α) : chain next limit start <+: chain next limit' start := by
  induction limit generalizing start limit' with
  | zero => exact List.nil_prefix
  | succ limit ih =>
    obtain ⟨limit', rfl⟩ := Nat.exists_eq_add_one.mpr (Nat.lt_of_lt_of_le (Nat.succ_pos limit) more)
    cases start with
    | none => exact List.prefix_refl _
    | some a => exact (List.prefix_cons_inj a).mpr (ih (Nat.le_of_succ_le_succ more) (next a))

theorem eraseDups_append_of_subset (known : l' ⊆ l) : (l ++ l').eraseDups = l.eraseDups := by
  have none : l'.removeAll l = [] := List.filter_eq_nil_iff.mpr fun b member => by simpa using known member
  rw [List.eraseDups_append, none, List.eraseDups_nil, List.append_nil]

/-- A chain for all items comes to them in the same order as a longer one. -/
theorem eraseDups_chain (f : α → β) (own : a ∈ items) (leads : ∀ a b, next a = some b → b ∈ items) (enough : items.length ≤ limit)
    (more : limit ≤ limit') :
    ((chain next limit (some a)).map f).eraseDups = ((chain next limit' (some a)).map f).eraseDups := by
  obtain ⟨rest, same⟩ := chain_prefix next more (some a)
  have known : rest ⊆ chain next limit (some a) := by
    intro b member
    rw [mem_chain_iff own leads enough, ← mem_chain_iff own leads (enough.trans more), ← same]
    exact List.mem_append_right _ member
  rw [← same, List.map_append, eraseDups_append_of_subset (List.map_subset f known)]

end Chains

/-! ### Walks -/

theorem Module.mem_definitionChain_iff {m : Module} {type : Token} {t u : TypeDef} (found : m.typeDef? type = some t) :
    u ∈ m.definitionChain type ↔ m.Reaches t u := by
  unfold definitionChain
  rw [found]
  exact mem_chain_iff (List.mem_of_find?_eq_some found) (fun _ _ => mem_types_of_ownBase?) (Nat.le_succ _)

theorem DefinitionIndex.derivesFrom_flat {m : ModuleTree} (distinct : (m.all.map (·.token)).Nodup) (type ancestor : Token) :
    (ofModule m).derivesFrom type ancestor = (Definitions.ofModule m.flat).derivesFrom type ancestor := by
  rw [derivesFrom, baseChain_flat distinct, Definitions.derivesFrom]

theorem DefinitionIndex.externalBase?_flat {m : ModuleTree} (distinct : (m.all.map (·.token)).Nodup) (type : Token) :
    (ofModule m).externalBase? type = (Definitions.ofModule m.flat).externalBase? type := by
  rw [externalBase?, baseChain_flat distinct, Definitions.externalBase?]

open DefinitionIndex in
/-- The walk along the bases of a type of a module, in a snapshot or in the module, ends and comes to just the types that the bases in
    the module lead to, in the same order when each is taken where it comes first: the type and then base by base. A type derives from
    those, and its base outside of the module is the one at which the bases leave it, be it the root of all types where none is written.
    The snapshot in maps has the same walks as the one in a list. The walk in the library ends and comes to just the types that the
    bases there lead to, and a type derives from those. -/
theorem base_walks_reach (m : Module) (type : Token) {t : TypeDef} (found : m.typeDef? type = some t) (l : Library) (name : TypeName) :
    let d := Definitions.ofModule m
    ((d.baseChain type).length ≤ m.types.length ∧ (m.definitionChain type).length ≤ m.types.length + 1) ∧
    ((∀ u, u ∈ m.definitionChain type ↔ m.Reaches t u) ∧
      ∀ e, e ∈ d.baseChain type ↔ ∃ u, m.Reaches t u ∧ Definitions.entry m u = e) ∧
    ((m.definitionChain type).head? = some t ∧ (m.definitionChain type).IsChain (fun u v => m.ownBase? u = some v) ∧
      (d.baseChain type).eraseDups = ((m.definitionChain type).map (Definitions.entry m)).eraseDups) ∧
    (∀ ancestor, d.derivesFrom type ancestor = true ↔ ∃ u, m.Reaches t u ∧ u.token = ancestor) ∧
    (∀ base, d.externalBase? type = some base ↔ ∃ u, m.Reaches t u ∧ u.baseLocator = .external base) ∧
    (∀ tree : ModuleTree, tree.flat = m → (tree.all.map (·.token)).Nodup →
      (ofModule tree).baseChain type = d.baseChain type ∧
      (∀ ancestor, (ofModule tree).derivesFrom type ancestor = d.derivesFrom type ancestor) ∧
      (ofModule tree).externalBase? type = d.externalBase? type) ∧
    (l.baseChain name).length ≤ l.types.length ∧
    (∀ u, u ∈ l.baseChain name ↔ ∃ b, l.get? name = some b ∧ l.Reaches b u) ∧
    ∀ ancestor, l.derivesFrom name ancestor = true ↔ ∃ b u, l.get? name = some b ∧ l.Reaches b u ∧ u.name = ancestor := by
  intro d
  have walk : d.baseChain type = (m.bases type).map (Definitions.entry m) := Definitions.baseChain_ofModule m type
  refine ⟨⟨?_, length_chain_le ..⟩, ⟨fun u => Module.mem_definitionChain_iff found, fun e => ?_⟩,
    ⟨by rw [Module.definitionChain, found]; rfl, isChain_chain .., ?_⟩,
    fun ancestor => Definitions.derivesFrom_ofModule found, fun base => Definitions.externalBase?_ofModule found,
    fun tree same distinct => ?_, length_chain_le .., fun u => Library.mem_baseChain_iff, fun ancestor => Library.derivesFrom_iff⟩
  · rw [walk, List.length_map]
    exact length_chain_le ..
  · simp only [walk, List.mem_map, Module.mem_bases_iff found]
  · rw [walk, Module.bases, Module.definitionChain, found]
    exact eraseDups_chain _ (List.mem_of_find?_eq_some found) (fun _ _ => Module.mem_types_of_ownBase?) (Nat.le_refl _) (Nat.le_succ _)
  · subst same
    exact ⟨baseChain_flat distinct type, derivesFrom_flat distinct type, externalBase?_flat distinct type⟩

namespace Sample

/-- Two types that are bases of each other, and one that has the first for a base. -/
def ring : Module where
  name := "Sample"
  library := {}
  types :=
    [⟨.ofParts Token.typeDef 1, ⟨"Sample", "A"⟩, {}, some (.definition (.ofParts Token.typeDef 2)), [], []⟩,
      ⟨.ofParts Token.typeDef 2, ⟨"Sample", "B"⟩, {}, some (.definition (.ofParts Token.typeDef 1)), [], []⟩,
      ⟨.ofParts Token.typeDef 3, ⟨"Sample", "C"⟩, {}, some (.definition (.ofParts Token.typeDef 1)), [], []⟩]

theorem ring_walked :
    ∃ t, ring.typeDef? (.ofParts Token.typeDef 3) = some t ∧
      ((Definitions.ofModule ring).baseChain (.ofParts Token.typeDef 3)).map (·.token.row) = [3, 1, 2] ∧
      (ring.definitionChain (.ofParts Token.typeDef 3)).map (·.token.row) = [3, 1, 2, 1] ∧
      ∃ u, ring.Reaches t u ∧ u.token = .ofParts Token.typeDef 2 := by
  refine ⟨_, rfl, by decide +kernel, by decide +kernel, ?_⟩
  exact ((base_walks_reach ring (.ofParts Token.typeDef 3) rfl {} WellKnown.object).2.2.2.1 (.ofParts Token.typeDef 2)).mp (by decide +kernel)

end Sample

end AspectWeaving

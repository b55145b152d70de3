import AspectWeaving.Inheritance
import Mathlib.Data.List.Forall2

/-!
Methods of modules, by their tokens. A token stands for the last method that has it (`Module.lastMethod?`), which
is the only one where no token is used twice (`Module.Distinct`). Changing that method changes what the token
stands for, and nothing that another one does (`Module.lastMethod?_modifyLastMethod`).
-/
namespace AspectWeaving

/-! ### Changing one item of a list -/

section Modify

variable {α β : Type} {p q : α → Bool} {f : α → α} {l : List α}

theorem reverse_modifyLast (p : α → Bool) (f : α → α) (l : List α) :
    (modifyLast p f l).reverse = modifyFirst p f l.reverse := List.reverse_reverse _

theorem map_modifyFirst {g : α → β} (same : ∀ a, p a → g (f a) = g a) : (modifyFirst p f l).map g = l.map g := by
  induction l with
  | nil => rfl
  | cons a rest ih =>
    unfold modifyFirst
    by_cases here : p a
    · simp [here, same a here]
    · simp [here, ih]

theorem map_modifyLast {g : α → β} (same : ∀ a, p a → g (f a) = g a) : (modifyLast p f l).map g = l.map g := by
  unfold modifyLast
  rw [List.map_reverse, map_modifyFirst same, ← List.map_reverse, List.reverse_reverse]

theorem find?_modifyFirst (keeps : ∀ a, p a → p (f a)) : (modifyFirst p f l).find? p = (l.find? p).map f := by
  induction l with
  | nil => rfl
  | cons a rest ih =>
    unfold modifyFirst
    by_cases here : p a
    · simp [here, keeps a here]
    · simp [here, ih]

/-- What is read off the first item of another kind stays, if the change leaves it. -/
theorem bind_find?_modifyFirst {g : α → Option β} (same : ∀ a, p a → q (f a) = q a ∧ (q a → g (f a) = g a)) :
    ((modifyFirst p f l).find? q).bind g = (l.find? q).bind g := by
  induction l with
  | nil => rfl
  | cons a rest ih =>
    unfold modifyFirst
    by_cases here : p a
    · obtain ⟨kind, reading⟩ := same a here
      rw [if_pos here]
      by_cases sought : q a
      · rw [List.find?_cons_of_pos (kind.trans sought), List.find?_cons_of_pos sought]
        exact reading sought
      · rw [List.find?_cons_of_neg (by rwa [kind]), List.find?_cons_of_neg sought]
    · rw [if_neg here]
      by_cases sought : q a
      · rw [List.find?_cons_of_pos sought, List.find?_cons_of_pos sought]
      · rw [List.find?_cons_of_neg sought, List.find?_cons_of_neg sought]
        exact ih

theorem forall₂_modifyFirst {R : α → α → Prop} (refl : ∀ a, R a a) (change : ∀ a, l.find? p = some a → R a (f a)) :
    List.Forall₂ R l (modifyFirst p f l) := by
  induction l with
  | nil => exact .nil
  | cons a rest ih =>
    unfold modifyFirst
    by_cases here : p a
    · rw [if_pos here]
      exact .cons (change a (List.find?_cons_of_pos here)) (List.forall₂_same.mpr fun b _ => refl b)
    · rw [if_neg here]
      exact .cons (refl a) (ih fun b found => change b (by rwa [List.find?_cons_of_neg here]))

theorem forall₂_modifyLast {R : α → α → Prop} (refl : ∀ a, R a a)
    (change : ∀ a, l.reverse.find? p = some a → R a (f a)) : List.Forall₂ R l (modifyLast p f l) := by
  rw [← List.forall₂_reverse_iff, reverse_modifyLast]
  exact forall₂_modifyFirst refl change

/-- An item that is changed twice is changed by both functions. -/
theorem modifyFirst_modifyFirst {g : α → α} (keeps : ∀ a, p a → p (f a)) :
    modifyFirst p g (modifyFirst p f l) = modifyFirst p (g ∘ f) l := by
  induction l with
  | nil => rfl
  | cons a rest ih =>
    by_cases here : p a
    · simp [modifyFirst, here, keeps a here]
    · simp [modifyFirst, here, ih]

theorem modifyLast_modifyLast {g : α → α} (keeps : ∀ a, p a → p (f a)) :
    modifyLast p g (modifyLast p f l) = modifyLast p (g ∘ f) l := by
  unfold modifyLast
  rw [List.reverse_reverse, modifyFirst_modifyFirst keeps]

/-- Nothing changes where the item that is found stays. -/
theorem modifyFirst_eq_self (same : ∀ a, l.find? p = some a → f a = a) : modifyFirst p f l = l := by
  induction l with
  | nil => rfl
  | cons a rest ih =>
    unfold modifyFirst
    by_cases here : p a
    · rw [if_pos here, same a (List.find?_cons_of_pos here)]
    · rw [if_neg here, ih fun b found => same b (by rwa [List.find?_cons_of_neg here])]

theorem modifyLast_eq_self (same : ∀ a, l.reverse.find? p = some a → f a = a) : modifyLast p f l = l := by
  unfold modifyLast
  rw [modifyFirst_eq_self same, List.reverse_reverse]

end Modify

/-! ### Two lists in pairs -/

section Pairs

variable {α β : Type} {R : α → β → Prop} {l : List α} {l' : List β}

theorem exists_paired_right (paired : List.Forall₂ R l l') : ∀ a ∈ l, ∃ b ∈ l', R a b := by
  induction paired with
  | nil => simp
  | cons here _ ih =>
    refine List.forall_mem_cons.mpr ⟨⟨_, List.mem_cons_self, here⟩, fun a later => ?_⟩
    obtain ⟨b, listed, both⟩ := ih a later
    exact ⟨b, List.mem_cons_of_mem _ listed, both⟩

theorem exists_paired_left (paired : List.Forall₂ R l l') : ∀ b ∈ l', ∃ a ∈ l, R a b :=
  exists_paired_right (R := flip R) paired.flip

/-- Where every item is related to one, a list is to a list. -/
theorem exists_forall₂ (related : ∀ a ∈ l, ∃ b, R a b) : ∃ l', List.Forall₂ R l l' := by
  induction l with
  | nil => exact ⟨[], .nil⟩
  | cons a rest ih =>
    obtain ⟨b, here⟩ := related a List.mem_cons_self
    obtain ⟨l', others⟩ := ih fun c later => related c (List.mem_cons_of_mem _ later)
    exact ⟨b :: l', .cons here others⟩

/-- What is related to something related is so itself, item by item. -/
theorem forall₂_trans {γ : Type} {S : β → γ → Prop} {T : α → γ → Prop} (trans : ∀ a b c, R a b → S b c → T a c) {l'' : List γ}
    (first : List.Forall₂ R l l') (second : List.Forall₂ S l' l'') : List.Forall₂ T l l'' := by
  induction first generalizing l'' with
  | nil =>
    cases second
    exact .nil
  | cons here _ ih =>
    cases second with
    | cons onward rest => exact .cons (trans _ _ _ here onward) (ih rest)

end Pairs

/-! ### Chains -/

/-- What holds of the start of a chain and is kept by its links holds all along. -/
theorem forall_mem_chain {α : Type} {next : α → Option α} {P : α → Prop} (keeps : ∀ a b, P a → next a = some b → P b)
    (limit : Nat) (start : Option α) (first : ∀ a ∈ start, P a) : ∀ a ∈ chain next limit start, P a := by
  induction limit generalizing start with
  | zero => simp [chain]
  | succ limit ih =>
    cases start with
    | none => simp
    | some a =>
      intro b member
      rcases List.mem_cons.mp member with rfl | later
      · exact first b rfl
      · exact ih (next a) (fun c next => keeps a c (first a rfl) next) b later

/-! ### Tokens -/

theorem find?_token {α : Type} {token : α → Token} {l : List α} {a : α} (unique : (l.map token).Nodup) (member : a ∈ l) :
    l.find? (token · == token a) = some a := by
  induction l with
  | nil => cases member
  | cons b l ih =>
    rw [List.map_cons, List.nodup_cons] at unique
    rcases List.mem_cons.mp member with rfl | later
    · simp
    · have differs : token b ≠ token a := fun same => unique.1 (same ▸ List.mem_map_of_mem later)
      rw [List.find?_cons_of_neg (by simpa using differs)]
      exact ih unique.2 later

theorem filter_token {α : Type} (token : α → Token) {l : List α} {a : α} (unique : (l.map token).Nodup) (member : a ∈ l) :
    l.filter (token · == token a) = [a] := by
  induction l with
  | nil => cases member
  | cons b l ih =>
    rw [List.map_cons, List.nodup_cons] at unique
    rcases List.mem_cons.mp member with rfl | later
    · rw [List.filter_cons_of_pos (by simp)]
      refine congrArg (a :: ·) (List.filter_eq_nil_iff.mpr fun c here same => unique.1 ?_)
      have same : token c = token a := by simpa using same
      exact same ▸ List.mem_map_of_mem here
    · have differs : token b ≠ token a := fun same => unique.1 (same ▸ List.mem_map_of_mem later)
      rw [List.filter_cons_of_neg (by simpa using differs)]
      exact ih unique.2 later

section Methods

variable {α : Type} {methods : α → List MethodDef} {types : List α} {t : α} {d : MethodDef} {token : Token}

/-- Where no two methods have the same token, the search for that of one comes to it and to the type it is of. -/
theorem findSome?_method (unique : (types.flatMap fun t => (methods t).map (·.token)).Nodup) (member : t ∈ types)
    (listed : d ∈ methods t) : types.findSome? (fun t => ((methods t).find? (·.token == d.token)).map (t, ·)) = some (t, d) := by
  induction types with
  | nil => cases member
  | cons u types ih =>
    rw [List.flatMap_cons, List.nodup_append] at unique
    obtain ⟨own, others, apart⟩ := unique
    rw [List.findSome?_cons]
    rcases List.mem_cons.mp member with rfl | later
    · rw [find?_token own listed]
      rfl
    · have missing : (methods u).find? (·.token == d.token) = none := List.find?_eq_none.mpr fun e here same =>
        apart e.token (List.mem_map_of_mem here) d.token
          (List.mem_flatMap.mpr ⟨t, later, List.mem_map_of_mem listed⟩) (by simpa using same)
      rw [missing]
      exact ih others later

theorem of_findSome?_method (found : types.findSome? (fun t => ((methods t).find? (·.token == token)).map (t, ·)) = some (t, d)) :
    t ∈ types ∧ d ∈ methods t ∧ d.token = token := by
  obtain ⟨u, member, here⟩ := List.exists_of_findSome?_eq_some found
  obtain ⟨e, first, same⟩ := Option.map_eq_some_iff.mp here
  cases same
  exact ⟨member, List.mem_of_find?_eq_some first, by simpa using List.find?_some first⟩

end Methods

/-- No two types of a module have the same token, and no two methods. -/
structure Module.Distinct (m : Module) : Prop where
  types : (m.types.map (·.token)).Nodup
  methods : (m.types.flatMap fun t => t.methods.map (·.token)).Nodup

/-- The methods of a module, with the types that declare them. -/
def Module.methods (m : Module) : List (TypeDef × MethodDef) := m.types.flatMap fun t => t.methods.map (t, ·)

section Tokens

variable {m : Module} {t : TypeDef} {d : MethodDef} {token method : Token} {f : MethodDef → MethodDef}

theorem Module.Distinct.methods_token (distinct : m.Distinct) : (m.methods.map (·.2.token)).Nodup := by
  simpa [Module.methods, List.map_flatMap, Function.comp_def] using distinct.methods

theorem Module.Distinct.typeDef? (distinct : m.Distinct) (member : t ∈ m.types) : m.typeDef? t.token = some t :=
  find?_token distinct.types member

theorem Module.mem_types_of_definitionChain (m : Module) (type : Token) : ∀ t ∈ m.definitionChain type, t ∈ m.types := by
  refine forall_mem_chain (fun t base _ next => ?_) _ _ fun t start => List.mem_of_find?_eq_some start
  unfold ownBase? at next
  split at next
  · exact List.mem_of_find?_eq_some next
  · cases next

theorem Module.Distinct.method? (distinct : m.Distinct) (member : t ∈ m.types) (listed : d ∈ t.methods) :
    m.method? d.token = some (t, d) :=
  findSome?_method distinct.methods member listed

theorem Module.token_of_method? (known : m.method? method = some (t, d)) : (t, d) ∈ m.methods ∧ d.token = method := by
  obtain ⟨member, listed, same⟩ := of_findSome?_method known
  exact ⟨List.mem_flatMap.mpr ⟨t, member, List.mem_map_of_mem listed⟩, same⟩

/-! ### What a token stands for -/

theorem TypeDef.declares_iff : t.declares token = true ↔ ∃ d ∈ t.methods, d.token = token := by
  simp [declares]

theorem Module.of_lastMethod? (known : m.lastMethod? token = some d) :
    d.token = token ∧ ∃ t ∈ m.types, d ∈ t.methods := by
  obtain ⟨t, last, found⟩ := Option.bind_eq_some_iff.mp known
  refine ⟨by simpa using List.find?_some found, t, ?_, ?_⟩
  · exact List.mem_reverse.mp (List.mem_of_find?_eq_some last)
  · exact List.mem_reverse.mp (List.mem_of_find?_eq_some found)

/-- A method of a module has a token that stands for one. -/
theorem Module.lastMethod?_isSome (member : t ∈ m.types) (listed : d ∈ t.methods) : (m.lastMethod? d.token).isSome := by
  obtain ⟨u, last⟩ : ∃ u, m.types.reverse.find? (·.declares d.token) = some u :=
    Option.isSome_iff_exists.mp (List.find?_isSome.mpr
      ⟨t, List.mem_reverse.mpr member, TypeDef.declares_iff.mpr ⟨d, listed, rfl⟩⟩)
  have declares := List.find?_some last
  obtain ⟨e, own, same⟩ := TypeDef.declares_iff.mp declares
  unfold Module.lastMethod?
  rw [last]
  exact List.find?_isSome.mpr ⟨e, List.mem_reverse.mpr own, beq_iff_eq.mpr same⟩

theorem Module.Distinct.lastMethod? (distinct : m.Distinct) (token : Token) :
    m.lastMethod? token = (m.method? token).map (·.2) := by
  cases known : m.lastMethod? token with
  | some d =>
    obtain ⟨rfl, t, member, listed⟩ := of_lastMethod? known
    rw [distinct.method? member listed]
    rfl
  | none =>
    cases found : m.method? token with
    | none => rfl
    | some e =>
      obtain ⟨t, d⟩ := e
      obtain ⟨among, rfl⟩ := token_of_method? found
      obtain ⟨u, member, own⟩ := List.mem_flatMap.mp among
      obtain ⟨e, listed, same⟩ := List.mem_map.mp own
      cases same
      have missing := lastMethod?_isSome member listed
      rw [known] at missing
      cases missing

theorem Module.Distinct.exists_method? (distinct : m.Distinct) (known : m.lastMethod? token = some d) :
    ∃ t, m.method? token = some (t, d) := by
  rw [distinct.lastMethod?] at known
  obtain ⟨⟨t, e⟩, found, rfl⟩ := Option.map_eq_some_iff.mp known
  exact ⟨t, found⟩

private theorem declares_changed (same : ∀ d, d.token = token → (f d).token = token) (t : TypeDef) (other : Token) :
    ({ t with methods := modifyLast (·.token == token) f t.methods } : TypeDef).declares other = t.declares other := by
  have tokens : (modifyLast (·.token == token) f t.methods).map (·.token) = t.methods.map (·.token) := by
    apply map_modifyLast
    intro d own
    rw [beq_iff_eq] at own
    rw [same d own, own]
  have any : ∀ l : List MethodDef, l.any (·.token == other) = (l.map (·.token)).any (· == other) := by
    intro l
    rw [List.any_map]
    rfl
  unfold TypeDef.declares
  rw [any, any, tokens]

/-- A changed method is what its token stands for. -/
theorem Module.lastMethod?_modifyLastMethod_self (same : ∀ d, d.token = token → (f d).token = token) :
    (m.modifyLastMethod token f).lastMethod? token = (m.lastMethod? token).map f := by
  have types : (m.modifyLastMethod token f).types.reverse.find? (·.declares token) =
      (m.types.reverse.find? (·.declares token)).map fun t =>
        { t with methods := modifyLast (·.token == token) f t.methods } := by
    unfold modifyLastMethod
    rw [reverse_modifyLast]
    apply find?_modifyFirst
    intro t own
    rwa [declares_changed same]
  unfold lastMethod?
  rw [types]
  cases m.types.reverse.find? (·.declares token) with
  | none => rfl
  | some t =>
    show (modifyLast _ f t.methods).reverse.find? _ = (t.lastMethod? token).map f
    rw [reverse_modifyLast]
    apply find?_modifyFirst
    intro d own
    rw [beq_iff_eq] at own ⊢
    exact same d own

/-- Changing a method leaves what other tokens stand for. -/
theorem Module.lastMethod?_modifyLastMethod (same : ∀ d, d.token = token → (f d).token = token) (other : method ≠ token) :
    (m.modifyLastMethod token f).lastMethod? method = m.lastMethod? method := by
  unfold modifyLastMethod lastMethod?
  rw [reverse_modifyLast]
  apply bind_find?_modifyFirst
  intro t _
  refine ⟨declares_changed same t method, fun _ => ?_⟩
  show (modifyLast _ f t.methods).reverse.find? _ = t.methods.reverse.find? _
  rw [reverse_modifyLast, ← Option.bind_fun_some (List.find? _ t.methods.reverse),
    ← Option.bind_fun_some (List.find? _ (modifyFirst _ _ _))]
  apply bind_find?_modifyFirst
  intro d own
  rw [beq_iff_eq] at own
  have before : (d.token == method) = false := by simpa [own] using Ne.symm other
  have after : ((f d).token == method) = false := by simpa [same d own] using Ne.symm other
  exact ⟨after.trans before.symm, fun sought => absurd sought (by simp [before])⟩

/-- A method that is changed twice is changed by both functions. -/
theorem Module.modifyLastMethod_modifyLastMethod {g : MethodDef → MethodDef} (same : ∀ d, d.token = token → (f d).token = token) :
    (m.modifyLastMethod token f).modifyLastMethod token g = m.modifyLastMethod token (g ∘ f) := by
  unfold modifyLastMethod
  dsimp only
  rw [modifyLast_modifyLast fun t own => by rwa [declares_changed same]]
  congr 2
  funext t
  have methods : modifyLast (·.token == token) g (modifyLast (·.token == token) f t.methods) =
      modifyLast (·.token == token) (g ∘ f) t.methods :=
    modifyLast_modifyLast fun d own => by
      rw [beq_iff_eq] at own ⊢
      exact same d own
  simp only [Function.comp_apply, methods]

/-- Nothing changes where the method stays. -/
theorem Module.modifyLastMethod_eq_self (known : m.lastMethod? token = some d) (same : f d = d) : m.modifyLastMethod token f = m := by
  have types : modifyLast (·.declares token) (fun t => { t with methods := modifyLast (·.token == token) f t.methods }) m.types = m.types := by
    refine modifyLast_eq_self fun t last => ?_
    have methods : modifyLast (·.token == token) f t.methods = t.methods := by
      refine modifyLast_eq_self fun e found => ?_
      have own : m.lastMethod? token = some e := Option.bind_eq_some_iff.mpr ⟨t, last, found⟩
      obtain rfl : d = e := Option.some.inj (known.symm.trans own)
      exact same
    rw [methods]
  unfold modifyLastMethod
  rw [types]

end Tokens

end AspectWeaving

import AspectWeaving.Proofs.DefinitionTokens
import Mathlib.Data.List.TakeWhile

/-!
Types in one list. A module has its types in trees (`ModuleTree`) or in one list, each with the types around it (`Module`). Where no two
types have the same token, the list tells the trees (`ModuleTree.ofModule_flat`). A token leads to the same type and full name in both
(`ModuleTree.typeDef?_flat`, `ModuleTree.typeFullName?_flat`), and what is added to one is added to the other (`ModuleTree.flat_add`).
-/
namespace AspectWeaving

/-! ### Trees in a list -/

/-- A type as it stands in a list, inside some types. -/
def TypeTree.listed (enclosing : List EnclosingType) (t : TypeTree) : TypeDef :=
  ⟨t.token, t.name, t.flags, t.base, t.methods, enclosing⟩

@[simp] theorem TypeTree.token_listed (enclosing : List EnclosingType) (t : TypeTree) : (t.listed enclosing).token = t.token := rfl

/-- A type as it stands around others. -/
def TypeTree.around (t : TypeTree) : EnclosingType := ⟨t.token, t.name⟩

/-- The full name of the innermost of some types around others. -/
def outerName : List EnclosingType → Option String
  | [] => none
  | e :: rest => some (nestedName (rest.map (·.name)) e.name)

/-- No two types have the same token, neither some types nor those around them. -/
def Apart (enclosing : List EnclosingType) (trees : List TypeTree) : Prop :=
  (enclosing.map (·.token) ++ (allTypes trees).map (·.token)).Nodup

section Prefixes

variable {α : Type} {p : α → Bool} {l l' : List α}

theorem takeWhile_append_of_none (none : ∀ a ∈ l', ¬p a) : (l ++ l').takeWhile p = l.takeWhile p := by
  induction l with
  | nil =>
    cases l' with
    | nil => rfl
    | cons a rest => exact List.takeWhile_cons_of_neg (none a List.mem_cons_self)
  | cons a rest ih => by_cases first : p a <;> simp [first, ih]

theorem dropWhile_append_of_none (none : ∀ a ∈ l', ¬p a) : (l ++ l').dropWhile p = l.dropWhile p ++ l' := by
  induction l with
  | nil =>
    cases l' with
    | nil => rfl
    | cons a rest => exact List.dropWhile_cons_of_neg (none a List.mem_cons_self)
  | cons a rest ih => by_cases first : p a <;> simp [first, ih]

end Prefixes

section Places

variable {token : Token} {added l l' : List TypeDef}

theorem placeInside_append_left (here : token ∈ l.map (·.token)) (apart : ∀ d ∈ l', ¬d.isWithin token) :
    placeInside token added (l ++ l') = placeInside token added l ++ l' := by
  induction l with
  | nil => cases here
  | cons d rest ih =>
    by_cases own : d.token = token
    · simp [placeInside, own, takeWhile_append_of_none apart, dropWhile_append_of_none apart]
    · have later : token ∈ rest.map (·.token) := by simpa [Ne.symm own] using here
      simp [placeInside, own, ih later]

theorem placeInside_append_right (missing : token ∉ l.map (·.token)) :
    placeInside token added (l ++ l') = l ++ placeInside token added l' := by
  induction l with
  | nil => rfl
  | cons d rest ih =>
    obtain ⟨other, missing⟩ := not_or.mp (List.mem_cons.not.mp missing)
    simp [placeInside, Ne.symm other, ih missing]

end Places

section Lists

variable {t : TypeTree} {d : TypeDef} {rest trees trees' : List TypeTree} {enclosing : List EnclosingType} {token : Token}

@[simp] theorem defsAll_nil (enclosing : List EnclosingType) : defsAll enclosing [] = [] := by
  simp [defsAll]

theorem TypeTree.defs_eq (enclosing : List EnclosingType) (t : TypeTree) :
    t.defs enclosing = t.listed enclosing :: defsAll (t.around :: enclosing) t.nested := by
  cases t
  simp [TypeTree.defs, TypeTree.listed, TypeTree.around]

theorem defsAll_cons (enclosing : List EnclosingType) (t : TypeTree) (rest : List TypeTree) :
    defsAll enclosing (t :: rest) =
      t.listed enclosing :: (defsAll (t.around :: enclosing) t.nested ++ defsAll enclosing rest) := by
  simp [defsAll, TypeTree.defs_eq]

theorem defsAll_append (enclosing : List EnclosingType) (trees trees' : List TypeTree) :
    defsAll enclosing (trees ++ trees') = defsAll enclosing trees ++ defsAll enclosing trees' := by
  induction trees with
  | nil => simp
  | cons t rest ih => simp [defsAll, ih]

/-- The list has the types of the trees in their order. -/
theorem forall₂_defsAll (enclosing : List EnclosingType) (trees : List TypeTree) :
    List.Forall₂ (fun t d => d = t.listed d.enclosing) (allTypes trees) (defsAll enclosing trees) := by
  induction trees using forest_induction generalizing enclosing with
  | nil => simp [allTypes]
  | cons t rest inner others =>
    rw [allTypes_cons, defsAll_cons]
    exact .cons rfl (List.rel_append (inner _) (others _))

theorem map_token_defsAll (enclosing : List EnclosingType) (trees : List TypeTree) :
    (defsAll enclosing trees).map (·.token) = (allTypes trees).map (·.token) := by
  induction trees using forest_induction generalizing enclosing with
  | nil => simp [allTypes]
  | cons t rest inner others => simp [defsAll_cons, allTypes_cons, inner, others]

theorem fullNameAmong?_cons (token : Token) (outer : Option String) (t : TypeTree) (rest : List TypeTree) :
    fullNameAmong? token outer (t :: rest) =
      let fullName := outer.elim t.name.fullName (· ++ "/" ++ t.name.name)
      if t.token = token then some fullName else (fullNameAmong? token fullName t.nested).or (fullNameAmong? token outer rest) := by
  cases t
  simp only [fullNameAmong?, TypeTree.fullName?]
  split <;> simp

theorem TypeTree.fullName_listed (enclosing : List EnclosingType) (t : TypeTree) :
    (t.listed enclosing).fullName = (outerName enclosing).elim t.name.fullName (· ++ "/" ++ t.name.name) := by
  cases enclosing <;> rfl

theorem outerName_around (enclosing : List EnclosingType) (t : TypeTree) :
    outerName (t.around :: enclosing) = some ((t.listed enclosing).fullName) := rfl

/-- The search for a full name comes to the first type with the token in the list. -/
theorem fullNameAmong?_eq (token : Token) (enclosing : List EnclosingType) (trees : List TypeTree) :
    fullNameAmong? token (outerName enclosing) trees =
      ((defsAll enclosing trees).find? (·.token == token)).map (·.fullName) := by
  induction trees using forest_induction generalizing enclosing with
  | nil => simp [fullNameAmong?]
  | cons t rest inner others =>
    rw [fullNameAmong?_cons, defsAll_cons, ← TypeTree.fullName_listed]
    by_cases own : t.token = token
    · rw [if_pos own, List.find?_cons_of_pos (by simpa using own)]
      rfl
    · rw [if_neg own, List.find?_cons_of_neg (by simpa using own), List.find?_append, others, ← outerName_around,
        inner]
      cases (defsAll (t.around :: enclosing) t.nested).find? (·.token == token) <;> rfl

/-! ### The list tells the trees -/

theorem enclosing_suffix (member : d ∈ defsAll enclosing trees) : enclosing <:+ d.enclosing := by
  induction trees using forest_induction generalizing enclosing with
  | nil => simp at member
  | cons t rest inner others =>
    rw [defsAll_cons, List.mem_cons, List.mem_append] at member
    rcases member with rfl | here | there
    · exact List.suffix_refl _
    · exact (List.suffix_cons _ _).trans (inner here)
    · exact others there

/-- A type in the list is inside one of the types around the trees or of those in them. -/
theorem mem_of_isWithin (member : d ∈ defsAll enclosing trees) (within : d.isWithin token) :
    token ∈ enclosing.map (·.token) ++ (allTypes trees).map (·.token) := by
  induction trees using forest_induction generalizing enclosing with
  | nil => simp at member
  | cons t rest inner others =>
    rw [defsAll_cons, List.mem_cons, List.mem_append] at member
    rw [allTypes_cons]
    rcases member with rfl | here | there
    · have around : token ∈ enclosing.map (·.token) := by simpa [TypeDef.isWithin, TypeTree.listed] using within
      exact List.mem_append_left _ around
    · have known := inner here
      simp only [List.map_cons, List.map_append, List.mem_append, List.mem_cons, TypeTree.around] at known ⊢
      tauto
    · have known := others there
      simp only [List.map_cons, List.map_append, List.mem_append, List.mem_cons] at known ⊢
      tauto

theorem apart_cons_iff : Apart enclosing (t :: rest) ↔
    (t.token :: (enclosing.map (·.token) ++ ((allTypes t.nested).map (·.token) ++ (allTypes rest).map (·.token)))).Nodup := by
  rw [Apart, allTypes_cons, List.map_cons, List.map_append]
  exact List.nodup_middle

theorem Apart.inside (apart : Apart enclosing (t :: rest)) : Apart (t.around :: enclosing) t.nested :=
  (apart_cons_iff.mp apart).sublist (.cons_cons _ (.append_left (List.sublist_append_left ..) _))

theorem Apart.others (apart : Apart enclosing (t :: rest)) : Apart enclosing rest :=
  (apart_cons_iff.mp apart).sublist (.cons _ (.append_left (List.sublist_append_right ..) _))

/-- Behind a type and those inside it, the list goes on with types that are inside none of them. -/
theorem Apart.not_isWithin (apart : Apart enclosing (t :: rest)) (here : token ∈ t.all.map (·.token)) :
    ∀ d ∈ defsAll enclosing rest, ¬d.isWithin token := by
  intro d member within
  have known := List.mem_append.mp (mem_of_isWithin member within)
  obtain ⟨new, distinct⟩ := List.nodup_cons.mp (apart_cons_iff.mp apart)
  obtain ⟨-, inner, outer⟩ := List.nodup_append.mp distinct
  obtain ⟨-, -, later⟩ := List.nodup_append.mp inner
  rw [TypeTree.all_eq, List.map_cons, List.mem_cons] at here
  rcases here with rfl | inside
  · simp only [List.mem_append] at new
    tauto
  · rcases known with around | behind
    · exact outer token around token (List.mem_append_left _ inside) rfl
    · exact later token inside token behind rfl

theorem isWithin_of_mem (member : d ∈ defsAll (t.around :: enclosing) trees) : d.isWithin t.token :=
  List.any_eq_true.mpr ⟨t.around, (enclosing_suffix member).subset List.mem_cons_self, beq_self_eq_true _⟩

theorem Apart.takeWhile (apart : Apart enclosing (t :: rest)) :
    (defsAll (t.around :: enclosing) t.nested ++ defsAll enclosing rest).takeWhile (·.isWithin t.token) =
      defsAll (t.around :: enclosing) t.nested := by
  rw [takeWhile_append_of_none (apart.not_isWithin (by simp [TypeTree.all_eq]))]
  exact List.takeWhile_eq_self_iff.mpr fun d => isWithin_of_mem

theorem Apart.dropWhile (apart : Apart enclosing (t :: rest)) :
    (defsAll (t.around :: enclosing) t.nested ++ defsAll enclosing rest).dropWhile (·.isWithin t.token) =
      defsAll enclosing rest := by
  rw [dropWhile_append_of_none (apart.not_isWithin (by simp [TypeTree.all_eq])),
    List.dropWhile_eq_nil_iff.mpr fun d => isWithin_of_mem, List.nil_append]

/-- The trees are those of their list. -/
theorem treesOf_defsAll (apart : Apart enclosing trees) : treesOf (defsAll enclosing trees) = trees := by
  induction trees using forest_induction generalizing enclosing with
  | nil => simp [treesOf]
  | cons t rest inner others =>
    rw [defsAll_cons, treesOf]
    simp only [TypeTree.listed]
    rw [apart.takeWhile, apart.dropWhile, inner apart.inside, others apart.others]
    cases t
    rfl

/-! ### Changes -/

/-- A change of what a type has besides those inside it is that of the type in the list. -/
theorem defsAll_changeAmong? {f : TypeTree → TypeTree} (changed : changeAmong? token f trees = some trees') (h : TypeDef → TypeDef)
    (same : ∀ t enclosing, (f t).listed enclosing = h (t.listed enclosing) ∧ (f t).around = t.around ∧ (f t).nested = t.nested) :
    defsAll enclosing trees' = modifyFirst (·.token == token) h (defsAll enclosing trees) := by
  induction trees using forest_induction generalizing enclosing trees' with
  | nil => simp [changeAmong?, changeFirstAmong?] at changed
  | cons t rest inner others =>
    rw [defsAll_cons]
    obtain ⟨first, rfl⟩ | ⟨other, ⟨here, nested, found, rfl⟩ | ⟨missing, rest', later, rfl⟩⟩ := changeAmong?_cons_cases changed
    · obtain ⟨own, around, nested⟩ := same t enclosing
      rw [defsAll_cons, own, around, nested, modifyFirst_cons_of_pos (by simpa using first)]
    · rw [← map_token_defsAll (t.around :: enclosing)] at here
      rw [modifyFirst_cons_of_neg (by simpa using other), defsAll_cons, modifyFirst_append_left (by simpa using here), ← inner found]
      rfl
    · rw [← map_token_defsAll (t.around :: enclosing)] at missing
      rw [modifyFirst_cons_of_neg (by simpa using other), defsAll_cons, modifyFirst_append_right (by simpa using missing), others later]

/-- What is added inside a type stands in the list behind all that is inside it. -/
theorem defsAll_addNested (s : TypeTree) (apart : Apart enclosing trees)
    (found : (defsAll enclosing trees).find? (·.token == token) = some d)
    (changed : changeAmong? token (fun t => { t with nested := t.nested ++ [s] }) trees = some trees') :
    defsAll enclosing trees' = placeInside token (s.defs (⟨d.token, d.name⟩ :: d.enclosing)) (defsAll enclosing trees) := by
  induction trees using forest_induction generalizing enclosing trees' with
  | nil => simp at found
  | cons t rest inner others =>
    rw [defsAll_cons] at found ⊢
    obtain ⟨rfl, rfl⟩ | ⟨other, ⟨here, nested, first, rfl⟩ | ⟨missing, rest', later, rfl⟩⟩ := changeAmong?_cons_cases changed
    · rw [List.find?_cons_of_pos (by simp)] at found
      cases found
      rw [placeInside, if_pos (by rfl), apart.takeWhile, apart.dropWhile, defsAll_cons]
      simp [defsAll_append, defsAll, TypeTree.listed, TypeTree.around]
    · have behind : ∀ d ∈ defsAll enclosing rest, ¬d.isWithin token := by
        refine apart.not_isWithin ?_
        rw [TypeTree.all_eq, List.map_cons]
        exact List.mem_cons_of_mem _ here
      rw [← map_token_defsAll (t.around :: enclosing)] at here
      obtain ⟨e, inside⟩ : ∃ e, (defsAll (t.around :: enclosing) t.nested).find? (·.token == token) = some e :=
        Option.isSome_iff_exists.mp (List.find?_isSome.mpr (by simpa using here))
      rw [List.find?_cons_of_neg (by simpa using other), List.find?_append, inside, Option.some_or] at found
      rw [placeInside, if_neg (show ¬(t.listed enclosing).token = token from other), placeInside_append_left here behind,
        ← inner apart.inside (inside.trans found) first, defsAll_cons]
      rfl
    · rw [← map_token_defsAll (t.around :: enclosing)] at missing
      have none : (defsAll (t.around :: enclosing) t.nested).find? (·.token == token) = none :=
        List.find?_eq_none.mpr fun e member same => missing (beq_iff_eq.mp same ▸ List.mem_map_of_mem member)
      rw [List.find?_cons_of_neg (by simpa using other), List.find?_append, none, Option.none_or] at found
      rw [placeInside, if_neg (show ¬(t.listed enclosing).token = token from other), placeInside_append_right missing,
        ← others apart.others found later, defsAll_cons]

end Lists

/-! ### Numbered declarations -/

theorem defineAll_eq (enclosing : List EnclosingType) (taken : RowCounts) (decls : List TypeDecl) :
    defineAll enclosing taken decls = (defsAll enclosing (numberAll taken decls).1, (numberAll taken decls).2) := by
  induction decls using declarations_induction generalizing enclosing taken with
  | nil => simp [defineAll, numberAll]
  | cons decl rest inner others =>
    cases decl
    simp [defineAll, TypeDecl.define, numberAll, TypeDecl.number, defsAll_cons, inner, others, TypeTree.listed, TypeTree.around]

theorem TypeDecl.define_eq (enclosing : List EnclosingType) (taken : RowCounts) (decl : TypeDecl) :
    decl.define enclosing taken = ((decl.number taken).1.defs enclosing, (decl.number taken).2) := by
  have single := defineAll_eq enclosing taken [decl]
  simpa [defineAll, numberAll_cons, numberAll, defsAll, Prod.ext_iff] using single

/-! ### Modules -/

theorem modifyFirst_token {α : Type} {token : α → Token} {l : List α} (unique : (l.map token).Nodup) (own : Token) (f : α → α) :
    modifyFirst (token · == own) f l = l.map fun a => if token a = own then f a else a := by
  induction l with
  | nil => rfl
  | cons a rest ih =>
    rw [List.map_cons, List.nodup_cons] at unique
    by_cases first : token a = own
    · have others : ∀ b ∈ rest, (if token b = own then f b else b) = b := fun b member =>
        if_neg fun same : token b = own => unique.1 (first.trans same.symm ▸ List.mem_map_of_mem member)
      simp [modifyFirst, first, List.map_congr_left others]
    · simp [modifyFirst, first, ih unique.2]

/-- Of two lists in pairs, the first items of a kind are a pair. -/
theorem find?_paired {α β : Type} {R : α → β → Prop} {l : List α} {l' : List β} {p : α → Bool} {q : β → Bool}
    (paired : List.Forall₂ R l l') (same : ∀ a b, R a b → p a = q b) :
    (l.find? p = none ∧ l'.find? q = none) ∨ ∃ a b, l.find? p = some a ∧ l'.find? q = some b ∧ R a b := by
  induction paired with
  | nil => exact .inl ⟨rfl, rfl⟩
  | @cons a b _ _ here _ ih =>
    by_cases first : p a
    · exact .inr ⟨a, b, List.find?_cons_of_pos first, List.find?_cons_of_pos (same a b here ▸ first), here⟩
    · rw [List.find?_cons_of_neg first, List.find?_cons_of_neg (same a b here ▸ first)]
      exact ih

/-- Adds a type or a method, and gives its token. -/
def Module.add? (m : Module) : Addition → Except Fault (Module × Token)
  | .type decl => .ok (m.addType decl)
  | .nested outer decl => m.addNested? outer decl
  | .method owner method => m.addMethod? owner method

namespace ModuleTree

variable {m : ModuleTree}

/-- A module is told by its types in one list. -/
theorem ofModule_flat (distinct : (m.all.map (·.token)).Nodup) : ofModule m.flat = m := by
  have trees : treesOf m.flat.types = m.trees := treesOf_defsAll distinct
  unfold ofModule
  rw [trees]
  rfl

/-- A token leads to the same type in the trees and in the list. -/
theorem typeDef?_flat (m : ModuleTree) (token : Token) :
    (m.typeDef? token = none ∧ m.flat.typeDef? token = none) ∨
      ∃ t enclosing, m.typeDef? token = some t ∧ m.flat.typeDef? token = some (t.listed enclosing) := by
  rw [typeDef?, findAmong?_eq]
  have paired := forall₂_defsAll [] m.trees
  obtain missing | ⟨t, d, found, found', same⟩ := find?_paired (p := (·.token == token)) (q := (·.token == token)) paired
    fun t d same => by rw [same]; rfl
  · exact .inl missing
  · exact .inr ⟨t, d.enclosing, found, same ▸ found'⟩

theorem typeFullName?_flat (m : ModuleTree) (token : Token) : m.flat.typeFullName? token = m.typeFullName? token :=
  (fullNameAmong?_eq token [] m.trees).symm

/-- What is added to the trees is added to the list. -/
theorem flat_add (distinct : (m.all.map (·.token)).Nodup) (a : Addition) :
    m.flat.add? a = (m.add a).2.map fun token => ((m.add a).1.flat, token) := by
  have apart : Apart [] m.trees := distinct
  cases a with
  | type decl =>
    simp [Module.add?, Module.addType, add, addType, flat, TypeDecl.define_eq, defsAll_append, defsAll, TypeDecl.token_number, Except.map]
  | nested outer decl =>
    obtain ⟨missing, missing'⟩ | ⟨o, enclosing, found, found'⟩ := m.typeDef?_flat outer
    · simp [Module.add?, Module.addNested?, add, addNested, missing, missing', Except.map]
    · obtain ⟨trees, changed, made⟩ := addNested_of_known decl (Option.isSome_of_eq_some found)
      have types := defsAll_addNested (decl.number m.taken).1 apart found' changed
      rw [add, made]
      simp only [Module.add?, Module.addNested?, found', TypeDecl.define_eq, Except.map]
      simp only [flat, types]
  | method owner method =>
    obtain ⟨missing, missing'⟩ | ⟨o, enclosing, found, found'⟩ := m.typeDef?_flat owner
    · simp [Module.add?, Module.addMethod?, add, addMethod, missing, missing', Except.map]
    · obtain ⟨trees, changed, made⟩ := addMethod_of_known method (Option.isSome_of_eq_some found)
      have types : defsAll [] trees = modifyFirst (·.token == owner)
          (fun t => { t with methods := t.methods ++ [{ method with token := .ofParts Token.methodDef (m.taken.methods + 1) }] })
          (defsAll [] m.trees) :=
        defsAll_changeAmong? changed _ fun _ _ => ⟨rfl, rfl, rfl⟩
      have unique : ((defsAll [] m.trees).map (·.token)).Nodup := by
        rw [map_token_defsAll]
        exact distinct
      rw [modifyFirst_token unique] at types
      rw [add, made]
      simp only [Module.add?, Module.addMethod?, found', Except.map]
      simp only [flat, Module.modifyType, types]

end ModuleTree

end AspectWeaving

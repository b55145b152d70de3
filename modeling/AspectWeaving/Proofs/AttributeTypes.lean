import AspectWeaving.Calls
import AspectWeaving.Proofs.ModuleMethods
import AspectWeaving.Proofs.NamedTypes
import Mathlib.Data.List.TakeWhile

/-!
Types of attributes. An attribute is looked up by the tokens of its type and of the bases of that within the module, and by names from
there on (`attributeIs`). A cast goes by names alone, and reads those of the library again (`checkCast`). Where these are written
as they are read (`Module.ReadsBases`), an attribute that is found can be cast (`checkCast_of_attributeIs`).
-/
namespace AspectWeaving

/-! ### Names of types -/

namespace TypeName

/-- A name within a namespace that holds no point is read as it is written. -/
theorem parse_fullName {t : TypeName} (plain : '.' ∉ t.name.toList) : parse t.fullName = t := by
  obtain ⟨scope, name⟩ := t
  have passes : ∀ c ∈ name.toList.reverse, (c != '.') = true := by
    intro c member
    have other : c ≠ '.' := fun same => plain (same ▸ List.mem_reverse.mp member)
    simpa using other
  unfold fullName
  split
  · rename_i none
    have empty : scope = "" := by simpa using none
    unfold parse
    simp only [List.dropWhile_eq_nil_iff.mpr passes, empty]
  · have written : (scope ++ "." ++ name).toList.reverse = name.toList.reverse ++ '.' :: scope.toList.reverse := by
      simp [String.toList_append]
    unfold parse
    simp only [written, List.dropWhile_append, List.dropWhile_eq_nil_iff.mpr passes, List.takeWhile_append,
      List.takeWhile_eq_self_iff.mpr passes]
    simp

/-- A name that is read holds no point behind its namespace. -/
theorem parse_plain (text : String) : '.' ∉ (parse text).name.toList := by
  unfold parse
  dsimp only
  split
  · rename_i none
    intro member
    have passes := List.dropWhile_eq_nil_iff.mp none '.' (List.mem_reverse.mpr member)
    simp at passes
  · intro member
    have passes := List.mem_takeWhile_imp (List.mem_reverse.mp (by simpa using member))
    simp at passes

end TypeName

/-! ### Casts -/

section Casts

variable {m : Module} {type attr : Token} {h : Heap} {x : HeapRef}

/-- The names of bases in the library have been read. -/
def Module.ReadsBases (m : Module) : Prop :=
  ∀ t ∈ m.types, ∀ name, t.base = some (.external name) → ∃ text, name = .parse text

/-- An object can be taken for one of a type whose name is among those of its own. -/
theorem checkCast_of_named {name : String} (named : m.tokenName? type = some name) (among : name ∈ m.typeNames attr)
    (object : h.get? x = some (.instance attr)) : checkCast m h x type = .ok () := by
  have is : isInstance m h x type = .ok true := by
    unfold isInstance Heap.get
    rw [m.naming_of_tokenName? named, object]
    simpa [bind, Except.bind, Except.map, HeapObject.typeNames] using among
  unfold checkCast Heap.get
  rw [object, is]
  rfl

/-- An object of a type that derives from another one can be taken for one of that. -/
theorem checkCast_of_derives (distinct : m.Distinct) (table : type.table = Token.typeDef)
    (derives : ∃ u ∈ m.definitionChain attr, u.token = type) (object : h.get? x = some (.instance attr)) :
    checkCast m h x type = .ok () := by
  obtain ⟨u, above, rfl⟩ := derives
  have listed : u ∈ m.types := m.mem_types_of_definitionChain attr u above
  have named : m.tokenName? u.token = some u.fullName := by
    unfold Module.tokenName? Module.tokenNameWithin Module.typeFullName?
    rw [if_pos table, distinct.typeDef? listed]
    rfl
  exact checkCast_of_named named (List.mem_append_left _ (List.mem_map_of_mem above)) object

/-- The base at which a type leaves the module is read as it is written. -/
theorem Module.ReadsBases.parse_outerBase {base : TypeName} (reads : m.ReadsBases) (leaves : m.outerBase? attr = some base) :
    TypeName.parse base.fullName = base := by
  apply TypeName.parse_fullName
  obtain ⟨t, last, outside⟩ := Option.bind_eq_some_iff.mp leaves
  have listed : t ∈ m.types := m.mem_types_of_definitionChain attr t (List.mem_of_getLast? last)
  cases written : t.base with
  | none =>
    obtain rfl : WellKnown.object = base := by simpa [TypeDef.baseLocator, written, TypeLocator.external?] using outside
    decide +kernel
  | some locator =>
    cases locator with
    | definition token => simp [TypeDef.baseLocator, written, TypeLocator.external?] at outside
    | external name =>
      obtain rfl : name = base := by simpa [TypeDef.baseLocator, written, TypeLocator.external?] using outside
      obtain ⟨text, rfl⟩ := reads t listed name written
      exact TypeName.parse_plain text

/-- An object of the type of an attribute that is found for a type can be taken for one of that. -/
theorem checkCast_of_attributeIs (distinct : m.Distinct) (tables : ∀ t ∈ m.types, t.token.table = Token.typeDef)
    (reads : m.ReadsBases) (is : attributeIs m attr type = true) (object : h.get? x = some (.instance attr)) :
    checkCast m h x type = .ok () := by
  unfold attributeIs at is
  rcases Bool.or_eq_true_iff.mp is with own | outer
  · obtain ⟨u, above, same⟩ := List.any_eq_true.mp own
    obtain rfl : u.token = type := by simpa using same
    exact checkCast_of_derives distinct (tables u (m.mem_types_of_definitionChain attr u above)) ⟨u, above, rfl⟩ object
  · split at outer
    · rename_i base name leaves named
      obtain ⟨l, among, same⟩ := List.any_eq_true.mp outer
      obtain rfl : l.name.fullName = name := by simpa using same
      refine checkCast_of_named named (List.mem_append_right _ ?_) object
      -- The library is asked for the base by its name, which leads to the same types.
      have names : m.library.typeNames base.fullName = (m.library.baseChain base).map (·.name.fullName) := by
        unfold Library.typeNames
        rw [reads.parse_outerBase leaves]
        cases chain : m.library.baseChain base with
        | nil =>
          rw [chain] at among
          cases among
        | cons first rest => rfl
      rw [leaves]
      dsimp only
      rw [names]
      exact List.mem_map_of_mem among
    · cases outer

end Casts

end AspectWeaving

import AspectWeaving.Proofs.Instances
import AspectWeaving.Proofs.Pairs

/-!
Heaps that mirror one another. Two programs that do the same may make further objects of their own, so the
objects of one are found under other references in the heap of the other. A `HeapMap` says where each object is
found, and values, objects and heaps are related along it (`Value.Mapped`, `HeapObject.Mapped`, `Heap.Mapped`).
A computation follows another one if it does the same to the heap along such a map, which grows as objects are
made, and leaves all further objects alone (`Running.Follows`).
-/
namespace AspectWeaving

open Running (compute fail allocate modifyObject note callHost)

/-! ### Maps -/

/-- The reference under which each object of a heap is found in another one, in the order of the objects. -/
abbrev HeapMap := List HeapRef

/-- A reference of one heap goes to a reference of another one. -/
def HeapMap.Takes (σ : HeapMap) (a b : HeapRef) : Prop := a.id ≠ 0 ∧ σ[a.id - 1]? = some b

/-- Values that are the same along a map. -/
inductive Value.Mapped (σ : HeapMap) : Value → Value → Prop
  | ref {a b : HeapRef} (takes : σ.Takes a b) : Mapped σ (.ref a) (.ref b)
  | plain {v : Value} (none : v.ref? = none) : Mapped σ v v

/-- Objects that are the same along a map. -/
inductive HeapObject.Mapped (σ : HeapMap) : HeapObject → HeapObject → Prop
  | boxed {v w : Value} (value : v.Mapped σ w) : Mapped σ (.boxed v) (.boxed w)
  | array {xs ys : Array Value} (elements : List.Forall₂ (Value.Mapped σ) xs.toList ys.toList) :
    Mapped σ (.array xs) (.array ys)
  | string (value : String) : Mapped σ (.string value) (.string value)
  | method (token : Token) : Mapped σ (.method token) (.method token)
  | type (token : Token) : Mapped σ (.type token) (.type token)
  | instance (type : Token) : Mapped σ (.instance type) (.instance type)
  | exception (typeName : String) (message : Option String) :
    Mapped σ (.exception typeName message) (.exception typeName message)

/-- A heap is found in another one along a map, every object under a reference of its own. -/
structure Heap.Mapped (σ : HeapMap) (h h' : Heap) : Prop where
  size : σ.length = h.size
  object : ∀ {a b}, σ.Takes a b → ∃ o o', h.get? a = some o ∧ h'.get? b = some o' ∧ o.Mapped σ o'
  nodup : σ.Nodup

namespace HeapMap

variable {σ τ : HeapMap} {a a' b : HeapRef}

theorem Takes.mono (takes : σ.Takes a b) (grows : σ <+: τ) : τ.Takes a b := by
  obtain ⟨some, found⟩ := takes
  obtain ⟨added, rfl⟩ := grows
  refine ⟨some, ?_⟩
  rw [List.getElem?_append_left (List.getElem?_eq_some_iff.mp found).1]
  exact found

theorem Takes.mem (takes : σ.Takes a b) : b ∈ σ := List.mem_of_getElem? takes.2

theorem Takes.unique {b' : HeapRef} (takes : σ.Takes a b) (other : σ.Takes a b') : b = b' :=
  Option.some.inj (takes.2.symm.trans other.2)

theorem Takes.inj (nodup : σ.Nodup) (takes : σ.Takes a b) (other : σ.Takes a' b) : a = a' := by
  obtain ⟨first, found⟩ := takes
  obtain ⟨second, there⟩ := other
  have inside := (List.getElem?_eq_some_iff.mp found).1
  have same := (List.getElem?_inj inside nodup).mp (found.trans there.symm)
  cases a
  cases a'
  congr 1
  simp only at first second same
  omega

end HeapMap

/-! ### Values -/

namespace Value

variable {σ τ : HeapMap} {v w v' w' : Value}

theorem Mapped.mono (mapped : v.Mapped σ w) (grows : σ <+: τ) : v.Mapped τ w := by
  cases mapped with
  | ref takes => exact .ref (takes.mono grows)
  | plain none => exact .plain none

theorem mapped_all_mono {vs ws : List Value} (mapped : List.Forall₂ (Value.Mapped σ) vs ws) (grows : σ <+: τ) :
    List.Forall₂ (Value.Mapped τ) vs ws :=
  mapped.imp fun _ _ here => here.mono grows

theorem Mapped.of_ref {a : HeapRef} (mapped : (Value.ref a).Mapped σ w) : ∃ b, w = .ref b ∧ σ.Takes a b := by
  cases mapped with
  | ref takes => exact ⟨_, rfl, takes⟩
  | plain none => cases none

@[simp] theorem mapped_void : Value.void.Mapped σ .void := .plain rfl

@[simp] theorem mapped_int32 (value : Int32) : (Value.int32 value).Mapped σ (.int32 value) := .plain rfl

@[simp] theorem mapped_null : Value.null.Mapped σ .null := .plain rfl

theorem Mapped.isNull (mapped : v.Mapped σ w) : w.isNull = v.isNull := by
  cases mapped <;> rfl

theorem Mapped.isTrue (mapped : v.Mapped σ w) : w.isTrue = v.isTrue := by
  cases mapped <;> rfl

theorem Mapped.asInt32 (mapped : v.Mapped σ w) : w.asInt32 = v.asInt32 := by
  cases mapped <;> rfl

theorem Mapped.negateValue (mapped : v.Mapped σ w) : negateValue w = negateValue v := by
  cases mapped <;> rfl

theorem Mapped.onValues (first : v.Mapped σ w) (second : v'.Mapped σ w') (operation : Arithmetic) :
    operation.onValues w w' = operation.onValues v v' := by
  cases first with
  | ref => cases second <;> rfl
  | plain =>
    cases second with
    | ref => cases v <;> rfl
    | plain => rfl

theorem Mapped.compareValues (nodup : σ.Nodup) (first : v.Mapped σ w) (second : v'.Mapped σ w') :
    compareValues w w' = compareValues v v' := by
  cases first with
  | ref takes =>
    cases second with
    | @ref a b other =>
      rename_i a' b'
      have same : b' = b ↔ a' = a :=
        ⟨fun same => takes.inj nodup (same ▸ other), fun same => takes.unique (same ▸ other)⟩
      simp only [AspectWeaving.compareValues, referenceOrder, Option.some.injEq, same]
    | plain none => cases v' <;> first | rfl | cases none
  | plain none =>
    cases second with
    | ref => cases v <;> first | rfl | cases none
    | plain => rfl

end Value

/-! ### Objects -/

theorem HeapObject.Mapped.mono {σ τ : HeapMap} {o o' : HeapObject} (mapped : o.Mapped σ o') (grows : σ <+: τ) :
    o.Mapped τ o' := by
  cases mapped with
  | boxed value => exact .boxed (value.mono grows)
  | array elements => exact .array (Value.mapped_all_mono elements grows)
  | string value => exact .string value
  | method token => exact .method token
  | type token => exact .type token
  | «instance» type => exact .instance type
  | exception typeName message => exact .exception typeName message

theorem HeapObject.Mapped.isChecked {σ : HeapMap} {o o' : HeapObject} (mapped : o.Mapped σ o') :
    o'.isChecked = o.isChecked := by
  cases mapped <;> rfl

theorem HeapObject.Mapped.typeNames {σ : HeapMap} {o o' : HeapObject} (mapped : o.Mapped σ o') (m : Module) :
    o'.typeNames m = o.typeNames m := by
  cases mapped <;> rfl

theorem HeapObject.Mapped.withMessage {σ : HeapMap} {o o' : HeapObject} (mapped : o.Mapped σ o') (message : Option String) :
    (o.withMessage message).Mapped σ (o'.withMessage message) := by
  cases mapped with
  | boxed value => exact .boxed value
  | array elements => exact .array elements
  | string value => exact .string value
  | method token => exact .method token
  | type token => exact .type token
  | «instance» type => exact .instance type
  | exception typeName _ => exact .exception typeName message

/-! ### Heaps -/

namespace Heap

variable {σ τ : HeapMap} {h h' : Heap} {a b r : HeapRef} {o o' : HeapObject}

theorem le_size_of_get? (found : h.get? r = some o) : r.id ≠ 0 ∧ r.id ≤ h.size := by
  unfold get? at found
  split at found
  · cases found
  · have inside := (Array.getElem?_eq_some_iff.mp found).1
    unfold size
    omega

/-- The reference of the next object goes to no object yet. -/
theorem get?_nextRef_eq_none (h : Heap) : h.get? h.nextRef = none := by
  cases found : h.get? h.nextRef with
  | none => rfl
  | some o =>
    have bound := (le_size_of_get? found).2
    simp only [nextRef] at bound
    omega

theorem get?_modify_self (found : h.get? r = some o) (f : HeapObject → HeapObject) : (h.modify r f).get? r = some (f o) := by
  rw [get?_modify, if_pos rfl, found]
  rfl

theorem get?_modify_of_ne (other : a ≠ r) (f : HeapObject → HeapObject) : (h.modify r f).get? a = h.get? a := by
  rw [get?_modify, if_neg other]

theorem size_modify (h : Heap) (r : HeapRef) (f : HeapObject → HeapObject) : (h.modify r f).size = h.size := by
  unfold modify size
  split <;> simp

/-- A map leads to what is there. -/
theorem Mapped.not_mem (mapped : h.Mapped σ h') (missing : h'.get? b = none) : b ∉ σ := by
  intro member
  obtain ⟨n, inside, found⟩ := List.getElem_of_mem member
  have takes : σ.Takes ⟨n + 1⟩ b := ⟨Nat.succ_ne_zero n, by simp [inside, found]⟩
  obtain ⟨-, o', -, there, -⟩ := mapped.object takes
  rw [missing] at there
  cases there

/-- The same object is made in both heaps. -/
theorem Mapped.push (mapped : h.Mapped σ h') (object : o.Mapped σ o') :
    (h.push o).Mapped (σ ++ [h'.nextRef]) (h'.push o') where
  size := by simp [Heap.push, Heap.size, mapped.size]
  object {a b} takes := by
    have grows : σ <+: σ ++ [h'.nextRef] := List.prefix_append _ _
    obtain ⟨some, found⟩ := takes
    by_cases old : a.id - 1 < σ.length
    · rw [List.getElem?_append_left old] at found
      obtain ⟨p, p', here, there, same⟩ := mapped.object ⟨some, found⟩
      exact ⟨p, p', get?_push here o, get?_push there o', same.mono grows⟩
    · rw [List.getElem?_append_right (by omega)] at found
      obtain ⟨bound, rfl⟩ := List.getElem?_eq_some_iff.mp found
      obtain rfl : a = h.nextRef := by
        have size := mapped.size
        cases a
        simp only [List.length_singleton] at bound
        simp only at some old
        simp only [nextRef, HeapRef.mk.injEq]
        omega
      exact ⟨o, o', h.get?_nextRef o, by simpa using h'.get?_nextRef o', object.mono grows⟩
  nodup := by
    refine List.nodup_append.mpr ⟨mapped.nodup, by simp, ?_⟩
    rintro b member c last rfl
    exact mapped.not_mem (get?_nextRef_eq_none h') (List.mem_singleton.mp last ▸ member)

theorem Mapped.takes_nextRef (mapped : h.Mapped σ h') : (σ ++ [h'.nextRef]).Takes h.nextRef h'.nextRef := by
  refine ⟨Nat.succ_ne_zero _, ?_⟩
  simp only [nextRef, Nat.add_sub_cancel, ← mapped.size]
  simp

/-- An object is replaced in both heaps. -/
theorem Mapped.modify (mapped : h.Mapped σ h') (takes : σ.Takes a b) {f g : HeapObject → HeapObject}
    (both : ∀ o o', o.Mapped σ o' → (f o).Mapped σ (g o')) : (h.modify a f).Mapped σ (h'.modify b g) where
  size := by rw [size_modify, mapped.size]
  object {c d} other := by
    obtain ⟨o, o', here, there, same⟩ := mapped.object other
    by_cases equal : c = a
    · subst equal
      obtain rfl := takes.unique other
      exact ⟨f o, g o', get?_modify_self here f, get?_modify_self there g, both _ _ same⟩
    · have differs : d ≠ b := fun found => equal (other.inj mapped.nodup (found ▸ takes))
      exact ⟨o, o', (get?_modify_of_ne equal f).trans here, (get?_modify_of_ne differs g).trans there, same⟩
  nodup := mapped.nodup

end Heap

end AspectWeaving

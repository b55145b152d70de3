import AspectWeaving.Chain
import AspectWeaving.Fault
import Mathlib.Data.List.Forall2
import Mathlib.Data.Option.Basic

/-!
Things in pairs. Lists, options and results whose items go together two by two stay together under the operations that
treat both items of a pair in the same way: maps, searches, chains and computations that may fail.
-/
namespace AspectWeaving

section Pairs

variable {α β : Type} {R : α → β → Prop} {l : List α} {l' : List β}

theorem forall₂_iff_getElem? : List.Forall₂ R l l' ↔ ∀ n : Nat, Option.Rel R l[n]? l'[n]? := by
  constructor
  · intro paired n
    induction paired generalizing n with
    | nil => exact .none
    | cons here _ ih =>
      cases n with
      | zero => exact .some here
      | succ n => exact ih n
  · intro all
    induction l generalizing l' with
    | nil =>
      cases l' with
      | nil => exact .nil
      | cons b l' => cases all 0
    | cons a l ih =>
      cases l' with
      | nil => cases all 0
      | cons b l' =>
        cases all 0 with
        | some here => exact .cons here (ih fun n => all (n + 1))

theorem rel_self {x : Option α} {S : α → α → Prop} (self : ∀ a ∈ x, S a a) : Option.Rel S x x := by
  cases x with
  | none => exact .none
  | some a => exact .some (self a rfl)

theorem rel_mono {S : α → β → Prop} {x : Option α} {y : Option β} (more : ∀ a b, R a b → S a b) (paired : Option.Rel R x y) :
    Option.Rel S x y := by
  cases paired with
  | none => exact .none
  | some here => exact .some (more _ _ here)

theorem rel_map {γ δ : Type} {S : γ → δ → Prop} {f : α → γ} {g : β → δ} {x : Option α} {y : Option β}
    (onward : ∀ a b, R a b → S (f a) (g b)) (paired : Option.Rel R x y) : Option.Rel S (x.map f) (y.map g) := by
  cases paired with
  | none => exact .none
  | some here => exact .some (onward _ _ here)

theorem forall₂_toList {x : Option α} {y : Option β} (paired : Option.Rel R x y) : List.Forall₂ R x.toList y.toList := by
  cases paired with
  | none => exact .nil
  | some here => exact .cons here .nil

/-- Items of two lists that are paired differ in nothing that a function tells. -/
theorem map_eq_of_forall₂ {γ : Type} {f : α → γ} {g : β → γ} (same : ∀ a b, R a b → f a = g b) (paired : List.Forall₂ R l l') :
    l.map f = l'.map g := by
  induction paired with
  | nil => rfl
  | cons here _ ih => rw [List.map_cons, List.map_cons, same _ _ here, ih]

theorem forall₂_takeWhile {p : α → Bool} {q : β → Bool} (same : ∀ a b, R a b → p a = q b) (paired : List.Forall₂ R l l') :
    List.Forall₂ R (l.takeWhile p) (l'.takeWhile q) := by
  induction paired with
  | nil => exact .nil
  | cons here _ ih =>
    rw [List.takeWhile_cons, List.takeWhile_cons, same _ _ here]
    split
    · exact .cons here ih
    · exact .nil

theorem forall₂_dropWhile {p : α → Bool} {q : β → Bool} (same : ∀ a b, R a b → p a = q b) (paired : List.Forall₂ R l l') :
    List.Forall₂ R (l.dropWhile p) (l'.dropWhile q) := by
  induction paired with
  | nil => exact .nil
  | cons here rest ih =>
    rw [List.dropWhile_cons, List.dropWhile_cons, same _ _ here]
    split
    · exact ih
    · exact .cons here rest

theorem rel_find? {f : α → Bool} {g : β → Bool} (same : ∀ a b, R a b → f a = g b) (paired : List.Forall₂ R l l') :
    Option.Rel R (l.find? f) (l'.find? g) := by
  induction paired with
  | nil => exact .none
  | @cons a b l l' related _ ih =>
    rw [List.find?_cons, List.find?_cons, same a b related]
    cases g b with
    | true => exact .some related
    | false => exact ih

theorem rel_findSome? {γ δ : Type} {S : γ → δ → Prop} {f : α → Option γ} {g : β → Option δ}
    (each : ∀ a b, R a b → Option.Rel S (f a) (g b)) (paired : List.Forall₂ R l l') :
    Option.Rel S (l.findSome? f) (l'.findSome? g) := by
  induction paired with
  | nil => exact .none
  | @cons a b l l' related _ ih =>
    rw [List.findSome?_cons, List.findSome?_cons]
    have here := each a b related
    generalize f a = x, g b = y at here
    cases here with
    | some found => exact .some found
    | none => exact ih

theorem forall₂_chain {next : α → Option α} {next' : β → Option β}
    (onward : ∀ a b, R a b → Option.Rel R (next a) (next' b)) {x : Option α} {y : Option β} (start : Option.Rel R x y)
    (limit : Nat) : List.Forall₂ R (chain next limit x) (chain next' limit y) := by
  induction limit generalizing x y with
  | zero => exact .nil
  | succ limit ih =>
    cases start with
    | some related => exact .cons related (ih (onward _ _ related))
    | none => exact .nil

theorem rel_getLast? (paired : List.Forall₂ R l l') : Option.Rel R l.getLast? l'.getLast? := by
  have turned := List.rel_reverse paired
  rw [List.getLast?_eq_head?_reverse, List.getLast?_eq_head?_reverse]
  generalize l.reverse = k, l'.reverse = k' at turned
  cases turned with
  | nil => exact .none
  | cons last _ => exact .some last

theorem map_eq_of_rel {γ : Type} {f : α → γ} {g : β → γ} (same : ∀ a b, R a b → f a = g b) {x : Option α} {y : Option β}
    (paired : Option.Rel R x y) : x.map f = y.map g := by
  cases paired with
  | some related => exact congrArg some (same _ _ related)
  | none => rfl

/-- Two computations agree if both give results that go together, or both fail with the same fault. -/
inductive Agree (R : α → β → Prop) : Except Fault α → Except Fault β → Prop
  | ok {a b} (both : R a b) : Agree R (.ok a) (.ok b)
  | error {fault} : Agree R (.error fault) (.error fault)

theorem Agree.bind {γ δ : Type} {S : γ → δ → Prop} {x : Except Fault α} {y : Except Fault β} {f : α → Except Fault γ}
    {g : β → Except Fault δ} (first : Agree R x y) (second : ∀ a b, R a b → Agree S (f a) (g b)) :
    Agree S (x >>= f) (y >>= g) := by
  cases first with
  | ok both => exact second _ _ both
  | error => exact .error

theorem Agree.mono {S : α → β → Prop} {x : Except Fault α} {y : Except Fault β} (agree : Agree R x y)
    (more : ∀ a b, R a b → S a b) : Agree S x y := by
  cases agree with
  | ok both => exact .ok (more _ _ both)
  | error => exact .error

end Pairs

end AspectWeaving

/-!
Chains: the items met on the way along links, cut off after a given number of them. A chain longer
than the number of items there are runs in a circle, so with that number nothing that can be reached
is missed.
-/
namespace AspectWeaving

/-- The items from a first one on along `next`, at most `limit` of them. -/
def chain {α : Type} (next : α → Option α) : Nat → Option α → List α
  | 0, _ => []
  | _ + 1, none => []
  | limit + 1, some item => item :: chain next limit (next item)

@[simp] theorem chain_none {α : Type} (next : α → Option α) (limit : Nat) : chain next limit none = [] := by
  cases limit <;> rfl

theorem length_chain_le {α : Type} (next : α → Option α) (limit : Nat) (start : Option α) :
    (chain next limit start).length ≤ limit := by
  induction limit generalizing start with
  | zero => simp [chain]
  | succ limit ih =>
    cases start with
    | none => simp [chain]
    | some item => simpa [chain] using ih (next item)

end AspectWeaving

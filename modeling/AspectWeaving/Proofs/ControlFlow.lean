import AspectWeaving.Proofs.WovenValidity

/-!
Control flow. Control goes on behind an instruction, or it jumps: a branch or a leave leads to its target, and
an exception into any clause that guards the place (`Body.Flows`). A `Body.Path` starts at the first
instruction. Widening branches changes none of this (`Body.path_iff_of_alike`).
-/
namespace AspectWeaving

namespace Body

/-- Control leaves the order of the code. -/
inductive Jumps (b : Body) (h : Handle) : Handle → Prop
  | branch {i : Instruction} {g : Handle} (found : b.code.get? h = some i) (leads : i.target? = some g) : Jumps b h g
  | raise {c : Handler} {s : Span} {n : Nat} (member : c ∈ b.handlers) (guards : b.span? c.guarded = some s)
      (stands : b.code.position? h = some n) (inside : s.contains n = true) : Jumps b h c.handling.start

/-- An edge of the control-flow graph. -/
inductive Flows (b : Body) (h : Handle) : Handle → Prop
  | next {i : Instruction} {g : Handle} (found : b.code.get? h = some i) (falls : i.opcode.fallsThrough = true)
      (behind : b.code.next? h = some g) : Flows b h g
  | jump {g : Handle} (jumps : b.Jumps h g) : Flows b h g

/-- A path from the first instruction to another one. -/
inductive Path (b : Body) : List Handle → Handle → Prop
  | first {h : Handle} (starts : b.code.first? = some h) : Path b [h] h
  | step {path : List Handle} {h g : Handle} (before : Path b path h) (flows : b.Flows h g) : Path b (path ++ [g]) g

/-- An instruction stands before a place. -/
def Early (b : Body) (place : Nat) (h : Handle) : Prop := ∃ n < place, b.code.order[n]? = some h

/-- Code before a place does not return. -/
def StaysBefore (b : Body) (place : Nat) : Prop :=
  ∀ {h i}, b.Early place h → b.code.get? h = some i → i.opcode ≠ .ret

/-- No jump leads past a place from code that comes before it, as far as that code is reached. -/
def Gated (b : Body) (place : Nat) : Prop :=
  ∀ path h g, b.Path path h → (∀ e ∈ path, b.Early place e) → b.Jumps h g → b.Early place g

end Body

namespace Code

variable {c : Code} {h g : Handle}

theorem next?_eq_some_iff :
    c.next? h = some g ↔ ∃ n : Nat, c.order[n]? = some h ∧ c.order[n + 1]? = some g := by
  simp only [next?, Option.bind_eq_some_iff, position?_eq_some_iff]

theorem Alike.symm {d : Code} (alike : c.Alike d) : d.Alike c where
  order := alike.order.symm
  size := alike.size.symm
  instruction found := by
    obtain ⟨i, here, same⟩ := alike.back found
    exact ⟨i, here, same.symm⟩

end Code

namespace Body

variable {b b' : Body} {place : Nat} {path : List Handle} {h g : Handle}

/-! ### Paths -/

theorem Path.mem (along : b.Path path h) : h ∈ path := by
  cases along with
  | first => simp
  | step => simp

theorem Path.live (valid : b.Valid) (along : b.Path path h) : h.index < b.code.size := by
  cases along with
  | first starts => exact (b.code.mem_order_iff h).mp (Array.mem_of_getElem? starts)
  | step before flows =>
    cases flows with
    | next found falls behind =>
      obtain ⟨n, -, there⟩ := Code.next?_eq_some_iff.mp behind
      exact (b.code.mem_order_iff h).mp (Array.mem_of_getElem? there)
    | jump jumps =>
      cases jumps with
      | branch found leads => exact (valid.instruction found).target leads
      | raise member guards stands inside =>
        obtain ⟨guarded, handling, encloses⟩ := valid.clause member
        have starts := (span?_eq_some_iff.mp encloses.handling_eq).1
        exact (b.code.mem_order_iff _).mp (Array.mem_of_getElem? starts)

/-- A place at the start of the code has nothing before it. -/
theorem gated_zero : b.Gated 0 := by
  intro path h g along early
  obtain ⟨n, before, -⟩ := early h along.mem
  cases before

/-! ### Widening -/

theorem Jumps.of_alike (alike : b.code.Alike b'.code) (handlers : b'.handlers = b.handlers) (jumps : b.Jumps h g) :
    b'.Jumps h g := by
  cases jumps with
  | branch found leads =>
    obtain ⟨j, there, same⟩ := alike.instruction found
    exact .branch there (same.target? ▸ leads)
  | raise member guards stands inside =>
    rw [Code.position?_eq_some_iff, ← alike.order, ← Code.position?_eq_some_iff] at stands
    exact .raise (handlers ▸ member) ((span?_of_alike alike _).trans guards) stands inside

theorem Flows.of_alike (alike : b.code.Alike b'.code) (handlers : b'.handlers = b.handlers) (flows : b.Flows h g) :
    b'.Flows h g := by
  cases flows with
  | jump jumps => exact .jump (jumps.of_alike alike handlers)
  | @next i _ found falls behind =>
    obtain ⟨j, there, same⟩ := alike.instruction found
    have flow : i.opcode.flow = j.opcode.flow := same.flow
    rw [Code.next?_eq_some_iff, ← alike.order, ← Code.next?_eq_some_iff] at behind
    refine .next there ?_ behind
    rw [Opcode.fallsThrough, ← flow]
    exact falls

theorem Path.of_alike (alike : b.code.Alike b'.code) (handlers : b'.handlers = b.handlers) (along : b.Path path h) :
    b'.Path path h := by
  induction along with
  | first starts => exact .first (alike.stands starts)
  | step _ flows ih => exact .step ih (flows.of_alike alike handlers)

/-- Code that differs in the width of operands only has the same paths. -/
theorem path_iff_of_alike (alike : b.code.Alike b'.code) (handlers : b'.handlers = b.handlers) :
    b.Path path h ↔ b'.Path path h :=
  ⟨.of_alike alike handlers, .of_alike alike.symm handlers.symm⟩

end Body

end AspectWeaving

import AspectWeaving.Proofs.Housing

/-!
Which clause an exception enters. The first clause that catches an exception takes it, and a clause
whose region does not hold the place declines it (`Frame.Declines`). In woven code the old clauses
hold places of the old code only, and the clause of the weave holds those of the old code and of the
epilogue: it takes what the old clauses decline if that is an exception by its type
(`Weave.Yields.catch?_old`, `Weave.Yields.catch?_epilogue`), and nothing takes an exception elsewhere
(`Weave.Yields.catch?_outside`).
-/
namespace AspectWeaving

namespace Frame

variable {m : Module} {h : Heap} {a : Activation} {position : Nat} {x : HeapRef} {clauses others : List Handler}

/-- A clause does not take an exception. -/
def Declines (m : Module) (h : Heap) (a : Activation) (position : Nat) (x : HeapRef) (c : Handler) : Prop :=
  catches m h a position x c = .ok false

theorem declines_outside {c : Handler} {s : Span} (span : a.body.span? c.guarded = some s)
    (outside : s.contains position = false) : Declines m h a position x c := by
  unfold Declines catches
  rw [Activation.regionHolds_eq span, outside]

theorem findClause_append (index : Nat) (declined : ∀ c ∈ clauses, Declines m h a position x c) :
    findClause m h a position x index (clauses ++ others) =
      findClause m h a position x (index + clauses.length) others := by
  induction clauses generalizing index with
  | nil => rfl
  | cons c clauses ih =>
    have first : catches m h a position x c = .ok false := declined c List.mem_cons_self
    have rest := ih (index + 1) fun c later => declined c (List.mem_cons_of_mem _ later)
    rw [List.cons_append, findClause, first]
    simp only [bind, Except.bind, List.length_cons]
    rw [show index + (clauses.length + 1) = index + 1 + clauses.length by omega]
    exact rest

theorem findClause_of_declines (index : Nat) (declined : ∀ c ∈ clauses, Declines m h a position x c) :
    findClause m h a position x index clauses = .ok none := by
  have none : findClause m h a position x index (clauses ++ []) = _ := findClause_append index declined
  rw [List.append_nil] at none
  exact none

/-- Looking for a clause fails, or comes to the first that takes the exception, or all of them decline. -/
theorem findClause_cases (m : Module) (h : Heap) (a : Activation) (position : Nat) (x : HeapRef)
    (clauses : List Handler) (index : Nat) :
    (∃ fault, ∀ others, findClause m h a position x index (clauses ++ others) = .error fault) ∨
      (∃ n c, c ∈ clauses ∧ ∀ others, findClause m h a position x index (clauses ++ others) = .ok (some (n, c))) ∨
      ∀ c ∈ clauses, Declines m h a position x c := by
  induction clauses generalizing index with
  | nil => exact .inr (.inr nofun)
  | cons c clauses ih =>
    cases taken : catches m h a position x c with
    | error fault =>
      exact .inl ⟨fault, fun others => by rw [List.cons_append, findClause, taken]; rfl⟩
    | ok takes =>
      have unfolded : ∀ others, findClause m h a position x index (c :: clauses ++ others) =
          if takes then .ok (some (index, c)) else findClause m h a position x (index + 1) (clauses ++ others) := by
        intro others
        rw [List.cons_append, findClause, taken]
        rfl
      cases takes with
      | true => exact .inr (.inl ⟨index, c, List.mem_cons_self, unfolded⟩)
      | false =>
        rcases ih (index + 1) with ⟨fault, failed⟩ | ⟨n, found, member, here⟩ | declined
        · exact .inl ⟨fault, fun others => (unfolded others).trans (failed others)⟩
        · exact .inr (.inl ⟨n, found, List.mem_cons_of_mem _ member, fun others => (unfolded others).trans (here others)⟩)
        · refine .inr (.inr fun d member => ?_)
          rcases List.mem_cons.mp member with rfl | later
          · exact taken
          · exact declined d later

/-- The frame in a clause, which an exception has entered. -/
def entering (f : Frame) (c : Handler) (index : Nat) (x : HeapRef) (active : List ActiveClause) : Frame :=
  { f with place := c.handling.start, stack := [.ref x], active := ⟨index, x⟩ :: active }

theorem mem_of_findClause {a : Activation} {position index n : Nat} {c : Handler} {clauses : List Handler}
    (found : findClause m h a position x index clauses = .ok (some (n, c))) : c ∈ clauses := by
  have all := found
  rcases findClause_cases m h a position x clauses index with ⟨fault, failed⟩ | ⟨k, d, member, first⟩ | declined
  · rw [← List.append_nil clauses, failed] at all
    cases all
  · rw [← List.append_nil clauses, first] at all
    cases all
    exact member
  · rw [findClause_of_declines index declined] at all
    cases all

theorem catch?_eq_some {f g : Frame} (caught : f.catch? m h x = .ok (some g)) :
    ∃ c index active, c ∈ f.activation.body.handlers ∧ g = f.entering c index x active := by
  unfold catch? at caught
  simp only [bind_eq_ok_iff, pure, Except.pure, Except.ok.injEq, Option.map_eq_some_iff] at caught
  obtain ⟨position, -, active, -, found, clause, ⟨index, c⟩, rfl, rfl⟩ := caught
  cases looked : findClause m h f.activation position x 0 f.activation.body.handlers with
  | error fault =>
    rw [looked] at clause
    cases clause
  | ok some =>
    rw [looked] at clause
    cases clause
    exact ⟨c, index, active, mem_of_findClause looked, rfl⟩

theorem activation_of_catch? {f g : Frame} (caught : f.catch? m h x = .ok (some g)) : g.activation = f.activation := by
  obtain ⟨c, index, active, -, rfl⟩ := catch?_eq_some caught
  rfl

/-- Where the bounds of all clauses are in the code, an exception enters the clause that is found. -/
theorem catch?_eq {f : Frame} (m : Module) (h : Heap) (x : HeapRef) (live : f.activation.body.Live)
    (stands : f.activation.body.code.order[position]? = some f.place) :
    ∃ active, f.catch? m h x =
      (findClause m h f.activation position x 0 f.activation.body.handlers).map fun found =>
        found.map fun e => f.entering e.2 e.1 x active := by
  obtain ⟨active, still⟩ := stillActive_isOk live position f.active
  refine ⟨active, ?_⟩
  unfold catch?
  simp only [Activation.position_eq stands, still, Except.mapError, bind, Except.bind]
  cases findClause m h f.activation position x 0 f.activation.body.handlers with
  | error fault => rfl
  | ok found => cases found <;> rfl

end Frame

/-- What the clause of a weave answers to an exception at a frame, by whether it is one by its type. -/
def Weave.answer (w : Weave) (f : Frame) (x : HeapRef) (active : List ActiveClause) :
    Except ExecutionFault Bool → Except Fault (Option Frame)
  | .ok true => .ok (some (f.entering w.clause w.old.handlers.length x active))
  | .ok false => .ok none
  | .error cause => .error (.execution cause)

namespace Weave.Yields

open AspectWeaving.Frame (Declines)

variable {w : Weave} {new : Body} {m : Module} {h : Heap} {a : Activation} {f : Frame} {position : Nat} {x : HeapRef}

/-- Old clauses hold places of the old code only. -/
theorem old_declines (yields : w.Yields new) (live : w.old.Live) (body : a.body = new)
    (outside : position < w.prologue.length ∨ w.epiloguePosition ≤ position) :
    ∀ c ∈ w.old.handlers.map (·.closedAt w.places.epilogue), Declines m h a position x c := by
  intro c member
  obtain ⟨old, listed, rfl⟩ := List.mem_map.mp member
  obtain ⟨guarded, -, span, -⟩ := live listed
  have bound := Body.span?_stop_le span
  refine Frame.declines_outside (s := ⟨w.prologue.length + guarded.start, w.prologue.length + guarded.stop⟩) ?_ ?_
  · rw [body]
    exact yields.houses.guarded span
  · simp only [Span.contains, Bool.and_eq_false_iff, decide_eq_false_iff_not]
    unfold epiloguePosition at outside
    omega

/-- The clause of a weave does not hold the prologue, the handler and the return block. -/
theorem clause_declines (yields : w.Yields new) (body : a.body = new)
    (outside : position < w.prologue.length ∨ w.handlerPosition ≤ position) : Declines m h a position x w.clause := by
  refine Frame.declines_outside (s := ⟨w.prologue.length, w.handlerPosition⟩) (body ▸ yields.clause_guarded) ?_
  simp only [Span.contains, Bool.and_eq_false_iff, decide_eq_false_iff_not]
  omega

/-- In the old code and in the epilogue the clause of a weave takes what is an exception by its type. -/
theorem clause_catches (yields : w.Yields new) (body : a.body = new) (behind : w.prologue.length ≤ position)
    (before : position < w.handlerPosition) :
    Frame.catches m h a position x w.clause = (isInstance m h x w.plan.exception).mapError .execution := by
  have inside : (Span.mk w.prologue.length w.handlerPosition).contains position = true := by
    simp [Span.contains, behind, before]
  have catching : w.clause.flags.isOtherClause = false := by
    change HandlerFlags.catching.isOtherClause = false
    decide
  unfold Frame.catches
  rw [Activation.regionHolds_eq (body ▸ yields.clause_guarded), inside]
  simp only [catching, Bool.false_eq_true, ↓reduceIte]
  rfl

theorem epilogue_lt_handler (w : Weave) : w.epiloguePosition < w.handlerPosition := by
  simp only [handlerPosition, Weave.epilogue, WeavePlan.epilogue, List.length_append, List.length_cons]
  omega

/-- Nothing takes an exception in the prologue, the handler and the return block. -/
theorem catch?_outside (yields : w.Yields new) (live : w.old.Live) (body : f.activation.body = new)
    (stands : new.code.order[position]? = some f.place)
    (outside : position < w.prologue.length ∨ w.handlerPosition ≤ position) : f.catch? m h x = .ok none := by
  have later := epilogue_lt_handler w
  obtain ⟨active, caught⟩ := Frame.catch?_eq m h x (body ▸ yields.live live) (body ▸ stands)
  have declined : ∀ c ∈ f.activation.body.handlers, Declines m h f.activation position x c := by
    rw [body, yields.handlers]
    intro c member
    rcases List.mem_append.mp member with before | last
    · exact yields.old_declines live body (by omega) c before
    · obtain rfl := List.mem_singleton.mp last
      exact yields.clause_declines body outside
  rw [caught, Frame.findClause_of_declines 0 declined]
  rfl

/-- What the clause of a weave does with an exception that it is asked about. -/
theorem findClause_clause (yields : w.Yields new) (body : a.body = new) (behind : w.prologue.length ≤ position)
    (before : position < w.handlerPosition) (index : Nat) :
    Frame.findClause m h a position x index [w.clause] =
      match isInstance m h x w.plan.exception with
      | .ok true => .ok (some (index, w.clause))
      | .ok false => .ok none
      | .error cause => .error (.execution cause) := by
  unfold Frame.findClause
  rw [yields.clause_catches body behind before]
  cases isInstance m h x w.plan.exception with
  | error cause => rfl
  | ok takes => cases takes <;> rfl

/-- In the epilogue only the clause of the weave takes exceptions. -/
theorem catch?_epilogue (yields : w.Yields new) (live : w.old.Live) (body : f.activation.body = new)
    (stands : new.code.order[position]? = some f.place) (behind : w.epiloguePosition ≤ position)
    (before : position < w.handlerPosition) :
    ∃ active, f.catch? m h x =
      w.answer f x active (isInstance m h x w.plan.exception) := by
  obtain ⟨active, caught⟩ := Frame.catch?_eq m h x (body ▸ yields.live live) (body ▸ stands)
  have front : w.prologue.length ≤ position := by
    unfold epiloguePosition at behind
    omega
  refine ⟨active, ?_⟩
  rw [caught, body, yields.handlers, Frame.findClause_append 0 (yields.old_declines live body (.inr behind)),
    yields.findClause_clause body front before, List.length_map, Nat.zero_add]
  cases isInstance m h x w.plan.exception with
  | error cause => rfl
  | ok takes => cases takes <;> rfl

/-- In the old code an old clause takes an exception, or the clause of the weave is asked. -/
theorem catch?_old (yields : w.Yields new) (live : w.old.Live) (body : f.activation.body = new)
    (stands : new.code.order[position]? = some f.place) (behind : w.prologue.length ≤ position)
    (before : position < w.epiloguePosition) :
    (∃ fault, f.catch? m h x = .error fault) ∨
      (∃ n c active, c ∈ w.old.handlers ∧ f.catch? m h x = .ok (some (f.entering c n x active))) ∨
      (∀ c ∈ w.old.handlers.map (·.closedAt w.places.epilogue), Declines m h f.activation position x c) ∧
        ∃ active, f.catch? m h x =
          w.answer f x active (isInstance m h x w.plan.exception) := by
  have later := epilogue_lt_handler w
  obtain ⟨active, caught⟩ := Frame.catch?_eq m h x (body ▸ yields.live live) (body ▸ stands)
  rw [caught, body, yields.handlers]
  rcases Frame.findClause_cases m h f.activation position x
      (w.old.handlers.map (·.closedAt w.places.epilogue)) 0 with
    ⟨fault, failed⟩ | ⟨n, c, member, found⟩ | declined
  · exact .inl ⟨fault, by rw [failed]; rfl⟩
  · obtain ⟨old, listed, rfl⟩ := List.mem_map.mp member
    exact .inr (.inl ⟨n, old, active, listed, by rw [found]; rfl⟩)
  · refine .inr (.inr ⟨declined, active, ?_⟩)
    rw [Frame.findClause_append 0 declined, yields.findClause_clause body behind (by omega), List.length_map,
      Nat.zero_add]
    cases isInstance m h x w.plan.exception with
    | error cause => rfl
    | ok takes => cases takes <;> rfl

end Weave.Yields

end AspectWeaving

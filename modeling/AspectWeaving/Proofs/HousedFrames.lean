import AspectWeaving.Proofs.Catching
import AspectWeaving.Proofs.FollowingCalls

/-!
Frames of housed bodies. A frame that goes through the code of a body has a counterpart in a frame that goes through
the same code where it stands inside another body, at the same place and with the same values along a map
(`Frame.Housed`). What the first one decides without a fault the second one decides in the same way: where control
goes on, which clauses are still under way, and which old clause takes an exception (`Frame.Housed.catch?`).
-/
namespace AspectWeaving

/-- Only returns lead elsewhere. -/
theorem Instruction.redirected_of_ne {i : Instruction} (stays : i.opcode ≠ .ret) (exit : Option Handle) : i.redirected exit = i := by
  cases exit with
  | none => rfl
  | some e => exact if_neg stays

/-! ### Places and regions -/

namespace Body.Houses

variable {a b : Activation} {shift n : Nat} {exit : Option Handle} {h g : Handle}

theorem position (houses : a.body.Houses b.body shift exit) (found : a.position h = .ok n) : b.position h = .ok (shift + n) :=
  Activation.position_eq (houses.order (Activation.position_eq_ok found))

theorem next (houses : a.body.Houses b.body shift exit) (found : a.next h = .ok g) : b.next h = .ok g := by
  obtain ⟨n, here, there⟩ := Activation.next_eq_ok found
  exact Activation.next_eq (houses.order here) (houses.order there)

theorem regionHolds (houses : a.body.Houses b.body shift exit) {r : Region} {holds : Bool}
    (decided : a.regionHolds r n = .ok holds) :
    b.regionHolds (exit.elim r fun e => ⟨r.start, some (r.stop.getD e)⟩) (shift + n) = .ok holds := by
  have starts : (exit.elim r fun e => ⟨r.start, some (r.stop.getD e)⟩).start = r.start := by cases exit <;> rfl
  have stops : ∀ {last}, a.stopPosition r = .ok last →
      b.stopPosition (exit.elim r fun e => ⟨r.start, some (r.stop.getD e)⟩) = .ok (shift + last) := by
    intro last found
    have behind := houses.stop
    unfold Activation.stopPosition at found ⊢
    cases bound : r.stop with
    | some h =>
      rw [bound] at found
      cases exit <;> simp only [Option.elim, bound, Option.getD_some] <;> exact houses.position found
    | none =>
      rw [bound] at found
      cases found
      cases exit with
      | none =>
        simp only [Option.elim, bound]
        exact congrArg Except.ok behind.symm
      | some e => exact Activation.position_eq behind
  unfold Activation.regionHolds at decided ⊢
  rw [starts]
  cases first : a.position r.start with
  | error cause => rw [first] at decided; cases decided
  | ok start =>
    rw [houses.position first]
    rw [first] at decided
    simp only [bind, Except.bind, pure, Except.pure, Nat.add_le_add_iff_left] at decided ⊢
    split at decided
    · rename_i behind
      rw [if_pos behind]
      cases last : a.stopPosition r with
      | error cause => rw [last] at decided; cases decided
      | ok stop =>
        rw [stops last]
        rw [last] at decided
        simpa only [Nat.add_lt_add_iff_left] using decided
    · rename_i before
      rw [if_neg before]
      exact decided

theorem handlesAt (houses : a.body.Houses b.body shift exit) {index : Nat} (inside : index < a.body.handlers.length)
    {holds : Bool} (decided : a.handlesAt n index = .ok holds) : b.handlesAt (shift + n) index = .ok holds := by
  obtain ⟨outer, handlers⟩ := houses.handlers
  have own := List.getElem?_eq_getElem inside
  have listed : b.body.handlers[index]? = some (a.body.handlers[index].closed exit) := by
    rw [handlers, List.getElem?_append_left (by simpa using inside), List.getElem?_map, own]
    rfl
  unfold Activation.handlesAt at decided ⊢
  rw [own] at decided
  rw [listed]
  have region := houses.regionHolds decided
  cases exit <;> exact region

/-- Clauses under way are still so in the same cases. -/
theorem stillActive (houses : a.body.Houses b.body shift exit) {σ : HeapMap} {active active' rest : List ActiveClause}
    (clauses : ∀ c ∈ active, c.index < a.body.handlers.length) (same : List.Forall₂ (ActiveClause.Mapped σ) active active')
    (decided : Frame.stillActive a n active = .ok rest) :
    ∃ rest', Frame.stillActive b (shift + n) active' = .ok rest' ∧ List.Forall₂ (ActiveClause.Mapped σ) rest rest' ∧
      ∀ c ∈ rest, c ∈ active := by
  induction same generalizing rest with
  | nil =>
    cases decided
    exact ⟨[], rfl, .nil, nofun⟩
  | @cons c d active active' clause _ ih =>
    unfold Frame.stillActive at decided
    obtain ⟨holds, here, decided⟩ := bind_eq_ok_iff.mp decided
    obtain ⟨others, there, decided⟩ := bind_eq_ok_iff.mp decided
    obtain ⟨others', behind, same, among⟩ := ih (fun e later => clauses e (List.mem_cons_of_mem _ later)) there
    have first := houses.handlesAt (clauses c List.mem_cons_self) here
    rw [← clause.index] at first
    cases decided
    refine ⟨if holds then d :: others' else others', ?_, ?_, ?_⟩
    · unfold Frame.stillActive
      rw [first, behind]
      rfl
    · cases holds with
      | true => exact .cons clause same
      | false => exact same
    · intro e member
      cases holds with
      | true =>
        rcases List.mem_cons.mp member with rfl | later
        · exact List.mem_cons_self
        · exact List.mem_cons_of_mem _ (among e later)
      | false => exact List.mem_cons_of_mem _ (among e member)

/-! ### Clauses -/

section Clauses

variable {m m' : Module} {heap heap' : Heap} {x y : HeapRef}

theorem catches (houses : a.body.Houses b.body shift exit) (instances : ∀ type, isInstance m' heap' y type = isInstance m heap x type)
    {c : Handler} {taken : Bool} (decided : Frame.catches m heap a n x c = .ok taken) :
    Frame.catches m' heap' b (shift + n) y (c.closed exit) = .ok taken := by
  have flags : (c.closed exit).flags = c.flags := by cases exit <;> rfl
  have type : (c.closed exit).catchType = c.catchType := by cases exit <;> rfl
  have region : (c.closed exit).guarded = exit.elim c.guarded fun e => ⟨c.guarded.start, some (c.guarded.stop.getD e)⟩ := by
    cases exit <;> rfl
  unfold Frame.catches at decided ⊢
  rw [region, flags, type]
  cases holds : a.regionHolds c.guarded n with
  | error cause => rw [holds] at decided; cases decided
  | ok inside =>
    rw [houses.regionHolds holds]
    rw [holds] at decided
    cases inside with
    | false => exact decided
    | true => simpa only [instances] using decided

/-- The clause that is found first among those of a body is found first among those around it as well. -/
theorem findClause_some (houses : a.body.Houses b.body shift exit)
    (instances : ∀ type, isInstance m' heap' y type = isInstance m heap x type) {clauses : List Handler} {index k : Nat}
    {c : Handler} (found : Frame.findClause m heap a n x index clauses = .ok (some (k, c))) (outer : List Handler) :
    Frame.findClause m' heap' b (shift + n) y index (clauses.map (·.closed exit) ++ outer) = .ok (some (k, c.closed exit)) ∧
      k < index + clauses.length := by
  induction clauses generalizing index with
  | nil => cases found
  | cons d clauses ih =>
    unfold Frame.findClause at found
    obtain ⟨taken, first, found⟩ := bind_eq_ok_iff.mp found
    rw [List.map_cons, List.cons_append, Frame.findClause, houses.catches instances first]
    cases taken with
    | true =>
      cases found
      exact ⟨rfl, by simp⟩
    | false =>
      obtain ⟨there, bound⟩ := ih found
      exact ⟨there, by simp only [List.length_cons]; omega⟩

/-- Where no clause of a body is found, those around it decline as well. -/
theorem declines (houses : a.body.Houses b.body shift exit)
    (instances : ∀ type, isInstance m' heap' y type = isInstance m heap x type) {clauses : List Handler} {index : Nat}
    (none : Frame.findClause m heap a n x index clauses = .ok none) :
    ∀ c ∈ clauses.map (·.closed exit), Frame.Declines m' heap' b (shift + n) y c := by
  induction clauses generalizing index with
  | nil => simp
  | cons d clauses ih =>
    unfold Frame.findClause at none
    obtain ⟨taken, first, none⟩ := bind_eq_ok_iff.mp none
    cases taken with
    | true => cases none
    | false =>
      rintro c member
      rcases List.mem_cons.mp member with rfl | later
      · exact houses.catches instances first
      · exact ih none c later

end Clauses

end Body.Houses

/-! ### Frames -/

private theorem mapError_eq_ok_iff {α ε ε' : Type} {x : Except ε α} {f : ε → ε'} {a : α} : x.mapError f = .ok a ↔ x = .ok a := by
  cases x <;> simp [Except.mapError]

/-- A frame of a body, and a frame at the same place of the same code where it stands inside another body. They have the
    same values along a map. -/
structure Frame.Housed (σ : HeapMap) (shift : Nat) (exit : Option Handle) (f g : Frame) : Prop where
  values : f.Mapped σ g
  houses : f.activation.body.Houses g.activation.body shift exit
  place : g.place = f.place
  clauses : ∀ c ∈ f.active, c.index < f.activation.body.handlers.length

namespace Frame.Housed

variable {σ τ : HeapMap} {shift : Nat} {exit : Option Handle} {f g f' : Frame}

theorem mono (housed : f.Housed σ shift exit g) (grows : σ <+: τ) : f.Housed τ shift exit g :=
  ⟨housed.values.mono grows, housed.houses, housed.place, housed.clauses⟩

theorem withStack (housed : f.Housed σ shift exit g) {vs ws : List Value} (stack : List.Forall₂ (Value.Mapped σ) vs ws) :
    ({ f with stack := vs } : Frame).Housed σ shift exit { g with stack := ws } :=
  ⟨housed.values.withStack stack, housed.houses, housed.place, housed.clauses⟩

theorem store (housed : f.Housed σ shift exit g) {v w : Value} (value : v.Mapped σ w) (index : Nat) :
    (f.store index v).Housed σ shift exit (g.store index w) :=
  ⟨housed.values.store value index, housed.houses, housed.place, housed.clauses⟩

theorem receive (housed : f.Housed σ shift exit g) {v w : Value} (value : v.Mapped σ w) :
    (f.receive v).Housed σ shift exit (g.receive w) where
  values := housed.values.receive value
  houses := by
    rw [(f.beside_receive v).activation, (g.beside_receive w).activation]
    exact housed.houses
  place := by
    rw [(f.beside_receive v).place, (g.beside_receive w).place]
    exact housed.place
  clauses := by
    rw [(f.beside_receive v).activation, (f.beside_receive v).active]
    exact housed.clauses

theorem jump (housed : f.Housed σ shift exit g) (target : Handle) :
    ({ f with place := target } : Frame).Housed σ shift exit { g with place := target } :=
  ⟨⟨housed.values.returnsValue, housed.values.arguments, housed.values.slots, housed.values.stack, housed.values.active⟩,
    housed.houses, rfl, housed.clauses⟩

theorem leave (housed : f.Housed σ shift exit g) {target : Handle} (left : f.leave target = .ok f') :
    ∃ active, g.leave target = .ok { g with place := target, stack := [], active } ∧
      f'.Housed σ shift exit { g with place := target, stack := [], active } := by
  unfold Frame.leave at left ⊢
  obtain ⟨n, here, left⟩ := bind_eq_ok_iff.mp left
  obtain ⟨rest, still, left⟩ := bind_eq_ok_iff.mp left
  obtain ⟨rest', there, same, among⟩ := housed.houses.stillActive housed.clauses housed.values.active still
  cases left
  refine ⟨rest', ?_, ?_⟩
  · rw [housed.houses.position here]
    change (stillActive g.activation (shift + n) g.active >>= _) = _
    rw [there]
    rfl
  exact ⟨⟨housed.values.returnsValue, housed.values.arguments, housed.values.slots, .nil, same⟩, housed.houses, rfl,
    fun c member => housed.clauses c (among c member)⟩

/-- What a frame answers to an exception, the frame of the body around answers as well, unless it is up to the further
    clauses of that body. -/
theorem catch? (housed : f.Housed σ shift exit g) {m m' : Module} {h h' : Heap} {x y : HeapRef}
    (instances : ∀ type, isInstance m' h' y type = isInstance m h x type) (takes : σ.Takes x y) {found : Option Frame}
    (decided : f.catch? m h x = .ok found) :
    (∃ handling handling', found = some handling ∧ g.catch? m' h' y = .ok (some handling') ∧
        handling.Housed σ shift exit handling' ∧ (∃ c index active, handling = f.entering c index x active) ∧
          ∃ c index active, handling' = g.entering c index y active) ∨
      found = none ∧ ∃ n active, f.activation.body.code.order[n]? = some f.place ∧
        ∀ outer, g.activation.body.handlers = f.activation.body.handlers.map (·.closed exit) ++ outer →
          g.catch? m' h' y = (findClause m' h' g.activation (shift + n) y f.activation.body.handlers.length outer).map
            fun found => found.map fun e => g.entering e.2 e.1 y active := by
  unfold Frame.catch? at decided ⊢
  obtain ⟨n, here, decided⟩ := bind_eq_ok_iff.mp decided
  obtain ⟨rest, still, decided⟩ := bind_eq_ok_iff.mp decided
  obtain ⟨clause, first, decided⟩ := bind_eq_ok_iff.mp decided
  rw [mapError_eq_ok_iff] at here still
  obtain ⟨rest', there, same, among⟩ := housed.houses.stillActive housed.clauses housed.values.active still
  cases decided
  cases clause with
  | none =>
    refine .inr ⟨rfl, n, rest', Activation.position_eq_ok here, fun outer handlers => ?_⟩
    have passed : findClause m' h' g.activation (shift + n) y 0 (f.activation.body.handlers.map (·.closed exit) ++ outer) = _ :=
      findClause_append 0 (housed.houses.declines instances first)
    rw [List.length_map, Nat.zero_add] at passed
    simp only [housed.place, housed.houses.position here, there, handlers, passed, Except.mapError, bind, Except.bind]
    generalize findClause m' h' g.activation (shift + n) y f.activation.body.handlers.length outer = r
    cases r with
    | error fault => rfl
    | ok found => cases found <;> rfl
  | some entry =>
    obtain ⟨k, c⟩ := entry
    obtain ⟨outer, handlers⟩ := housed.houses.handlers
    obtain ⟨found, bound⟩ := housed.houses.findClause_some instances first outer
    have starts : (c.closed exit).handling.start = c.handling.start := by cases exit <;> rfl
    refine .inl ⟨f.entering c k x rest, g.entering (c.closed exit) k y rest', rfl, ?_, ?_, ⟨_, _, _, rfl⟩, _, _, _, rfl⟩
    · simp only [housed.place, housed.houses.position here, there, handlers, found, Except.mapError, bind, Except.bind]
      rfl
    · refine ⟨⟨housed.values.returnsValue, housed.values.arguments, housed.values.slots, .cons (.ref takes) .nil,
        .cons ⟨rfl, takes⟩ same⟩, housed.houses, starts, fun d member => ?_⟩
      rcases List.mem_cons.mp member with rfl | earlier
      · exact Nat.lt_of_lt_of_eq bound (Nat.zero_add _)
      · exact housed.clauses d (among d earlier)

end Frame.Housed

end AspectWeaving

import AspectWeaving.Proofs.Validation
import AspectWeaving.Proofs.WovenCode

/-!
Bodies inside others. The code of a body stands in another one as it is, only further down, if the
other `Body.Houses` it: its instructions have their order, its clauses come first, and its returns
are branches to a place behind it. A weave makes such a body (`Weave.Yields.houses`). Regions keep what they hold
(`Body.Houses.span?`).
-/
namespace AspectWeaving

/-! ### Live bounds -/

namespace Body

/-- The bounds of all clauses are in the code. -/
def Live (b : Body) : Prop :=
  ∀ {c}, c ∈ b.handlers → ∃ guarded handling, b.span? c.guarded = some guarded ∧ b.span? c.handling = some handling

theorem span?_eq_some_iff {b : Body} {r : Region} {s : Span} :
    b.span? r = some s ↔ b.code.order[s.start]? = some r.start ∧ b.code.BoundAt s.stop r.stop := by
  cases r with
  | mk start stop =>
  cases s with
  | mk first last =>
  rw [← Code.position?_eq_some_iff]
  simp only [span?, bind, pure]
  cases b.code.position? start with
  | none => simp
  | some place =>
    cases stop with
    | none => simp [Code.BoundAt, eq_comm]
    | some h =>
      have bound : b.code.BoundAt last (some h) ↔ b.code.position? h = some last :=
        Code.position?_eq_some_iff.symm
      rw [bound]
      change ((b.code.position? h).bind fun stop => some (Span.mk place stop)) = some ⟨first, last⟩ ↔ _
      cases b.code.position? h <;> simp

theorem span?_stop_le {b : Body} {r : Region} {s : Span} (found : b.span? r = some s) : s.stop ≤ b.code.size := by
  obtain ⟨-, stop⟩ := span?_eq_some_iff.mp found
  cases last : r.stop with
  | none =>
    rw [last] at stop
    exact Nat.le_of_eq stop
  | some h =>
    rw [last] at stop
    have inside := (Array.getElem?_eq_some_iff.mp stop).1
    rw [b.code.size_order] at inside
    omega

end Body

theorem Activation.regionHolds_eq {a : Activation} {r : Region} {s : Span} (found : a.body.span? r = some s)
    (position : Nat) : a.regionHolds r position = .ok (s.contains position) := by
  obtain ⟨start, stop⟩ := Body.span?_eq_some_iff.mp found
  have bound : a.stopPosition r = .ok s.stop := by
    unfold stopPosition
    cases last : r.stop with
    | none =>
      rw [last] at stop
      exact congrArg Except.ok stop.symm
    | some h =>
      rw [last] at stop
      exact position_eq stop
  unfold regionHolds
  rw [position_eq start]
  simp only [bind, Except.bind, Span.contains, bound, pure, Except.pure]
  split
  · rename_i behind
    simp [behind]
  · rename_i before
    simp [before]

theorem Activation.handlesAt_isOk {a : Activation} (live : a.body.Live) (position index : Nat) :
    ∃ holds, a.handlesAt position index = .ok holds := by
  unfold handlesAt
  split
  · rename_i clause found
    obtain ⟨-, handling, -, span⟩ := live (List.mem_of_getElem? found)
    exact ⟨_, regionHolds_eq span position⟩
  · exact ⟨false, rfl⟩

theorem Frame.stillActive_isOk {a : Activation} (live : a.body.Live) (position : Nat) (active : List ActiveClause) :
    ∃ rest, stillActive a position active = .ok rest := by
  induction active with
  | nil => exact ⟨[], rfl⟩
  | cons c others ih =>
    obtain ⟨holds, decided⟩ := a.handlesAt_isOk live position c.index
    obtain ⟨rest, still⟩ := ih
    exact ⟨if holds then c :: rest else rest, by simp [stillActive, decided, still, bind, Except.bind, pure, Except.pure]⟩

/-! ### Houses -/

/-- An instruction in code whose returns lead elsewhere. -/
def Instruction.redirected (exit : Option Handle) (i : Instruction) : Instruction :=
  exit.elim i (redirectReturn · i)

/-- A clause in code that goes on behind its own. -/
def Handler.closed (exit : Option Handle) (c : Handler) : Handler := exit.elim c c.closedAt

namespace Body

/-- The code of a body stands in another one, from a place on. Where it returns, the other one goes to
    `exit` if there is one. -/
structure Houses (b b' : Body) (shift : Nat) (exit : Option Handle) : Prop where
  order : ∀ {n h}, b.code.order[n]? = some h → b'.code.order[shift + n]? = some h
  instruction : ∀ {h i}, b.code.get? h = some i → ∃ j, b'.code.get? h = some j ∧ (i.redirected exit).Alike j
  stop : b'.code.BoundAt (shift + b.code.size) exit
  handlers : ∃ outer, b'.handlers = b.handlers.map (·.closed exit) ++ outer
  slots : ∃ added, b'.slots.toList = b.slots.toList ++ added
  initSlots : b.initSlots = true → b'.initSlots = true

namespace Houses

variable {b b' : Body} {shift : Nat} {exit : Option Handle}

theorem refl (b : Body) : b.Houses b 0 none where
  order stands := by simpa using stands
  instruction found := ⟨_, found, .refl _⟩
  stop := by simp [Code.BoundAt]
  handlers := ⟨[], by simp [Handler.closed]⟩
  slots := ⟨[], by simp⟩
  initSlots := id

/-- A region holds the same instructions, further down. -/
theorem span? {r : Region} {s : Span} (houses : b.Houses b' shift exit) (found : b.span? r = some s) :
    b'.span? (exit.elim r fun e => ⟨r.start, some (r.stop.getD e)⟩) =
      some ⟨shift + s.start, shift + s.stop⟩ := by
  obtain ⟨start, stop⟩ := span?_eq_some_iff.mp found
  have behind := houses.stop
  cases exit with
  | none =>
    refine span?_eq_some_iff.mpr ⟨houses.order start, ?_⟩
    cases last : r.stop with
    | none =>
      rw [last] at stop
      have same : s.stop = b.code.size := stop
      simpa only [Option.elim, last, same] using behind
    | some h =>
      rw [last] at stop
      change b'.code.BoundAt (shift + s.stop) r.stop
      rw [last]
      exact houses.order stop
  | some e =>
    refine span?_eq_some_iff.mpr ⟨houses.order start, ?_⟩
    cases last : r.stop with
    | none =>
      rw [last] at stop
      have same : s.stop = b.code.size := stop
      simpa only [Option.elim, Option.getD_none, same] using behind
    | some h =>
      rw [last] at stop
      exact houses.order stop

theorem guarded {c : Handler} {s : Span} (houses : b.Houses b' shift exit) (found : b.span? c.guarded = some s) :
    b'.span? (c.closed exit).guarded = some ⟨shift + s.start, shift + s.stop⟩ := by
  have span := houses.span? found
  cases exit <;> exact span

theorem handling {c : Handler} {s : Span} (houses : b.Houses b' shift exit) (found : b.span? c.handling = some s) :
    b'.span? (c.closed exit).handling = some ⟨shift + s.start, shift + s.stop⟩ := by
  have span := houses.span? found
  cases exit <;> exact span

end Houses

end Body

/-! ### Weaves -/

namespace Weave.Yields

variable {w : Weave} {new : Body}

theorem epilogue (yields : w.Yields new) : new.code.Holds w.epiloguePosition w.places.epilogue.index w.epilogue :=
  yields.tail.left.left

theorem handler (yields : w.Yields new) : new.code.Holds w.handlerPosition w.places.handler.index w.handler := by
  have holds := yields.tail.left.right
  rw [places_handler]
  exact holds

theorem returnBlock (yields : w.Yields new) :
    new.code.Holds w.returnPosition w.places.returnBlock.index w.returnBlock := by
  have holds := yields.tail.right
  rw [List.length_append, ← Nat.add_assoc, ← Nat.add_assoc] at holds
  rw [places_returnBlock, places_handler]
  exact holds

theorem order_epilogue (yields : w.Yields new) : new.code.order[w.epiloguePosition]? = some w.places.epilogue :=
  (yields.epilogue 0 _ (List.getElem?_eq_getElem w.epilogue_pos)).1

theorem order_handler (yields : w.Yields new) : new.code.order[w.handlerPosition]? = some w.places.handler :=
  (yields.handler 0 _ rfl).1

theorem order_returnBlock (yields : w.Yields new) : new.code.order[w.returnPosition]? = some w.places.returnBlock :=
  (yields.returnBlock 0 _ (List.getElem?_eq_getElem w.returnBlock_pos)).1

theorem order_anchor (yields : w.Yields new) : new.code.order[w.prologue.length]? = some w.plan.anchor :=
  yields.order (n := 0) yields.anchor

/-- The slots of the woven code come behind the old ones. -/
theorem toNat_slots (yields : w.Yields new) :
    w.slots.method.toNat = w.old.slots.size ∧ w.slots.attr.toNat = w.old.slots.size + 1 ∧
      w.slots.exception.toNat = w.old.slots.size + 2 ∧ w.slots.arguments.toNat = w.old.slots.size + 3 ∧
        w.slots.result.toNat = w.old.slots.size + 4 := by
  have room := yields.slotsFit
  rw [length_slots] at room
  exact WovenSlots.toNat_startingAt room

theorem size_slots (yields : w.Yields new) : new.slots.size = w.old.slots.size + 5 := by
  have listed := congrArg List.length yields.slots
  simpa [length_slots] using listed

/-- A weave puts the old body into the new one. -/
theorem houses (yields : w.Yields new) : w.old.Houses new w.prologue.length (some w.places.epilogue) where
  order := yields.order
  instruction := yields.instruction
  stop := yields.order_epilogue
  handlers := ⟨_, yields.handlers⟩
  slots := ⟨_, yields.slots⟩
  initSlots _ := yields.initSlots

/-- The clause of a weave guards the old code and the epilogue. -/
theorem clause_guarded (yields : w.Yields new) :
    new.span? w.clause.guarded = some ⟨w.prologue.length, w.handlerPosition⟩ :=
  Body.span?_eq_some_iff.mpr ⟨yields.order_anchor, yields.order_handler⟩

theorem clause_handling (yields : w.Yields new) :
    new.span? w.clause.handling = some ⟨w.handlerPosition, w.returnPosition⟩ :=
  Body.span?_eq_some_iff.mpr ⟨yields.order_handler, yields.order_returnBlock⟩

theorem live (yields : w.Yields new) (old : w.old.Live) : new.Live := by
  intro c member
  rw [yields.handlers] at member
  rcases List.mem_append.mp member with before | last
  · obtain ⟨earlier, listed, rfl⟩ := List.mem_map.mp before
    obtain ⟨guarded, handling, first, second⟩ := old listed
    exact ⟨_, _, yields.houses.guarded first, yields.houses.handling second⟩
  · obtain rfl := List.mem_singleton.mp last
    exact ⟨_, _, yields.clause_guarded, yields.clause_handling⟩

end Weave.Yields

/-! ### Valid bodies -/

namespace Body

variable {b : Body}

/-- Branches lead to instructions of the code. -/
def TargetsLive (b : Body) : Prop :=
  ∀ {h i target}, b.code.get? h = some i → i.target? = some target → target.index < b.code.size

theorem targetsLive_of_validate (valid : b.validate = .ok ()) : b.TargetsLive :=
  fun found => ((validate_eq_ok_iff.mp valid).instruction found).target

theorem Valid.live (valid : b.Valid) : b.Live := by
  intro c member
  obtain ⟨guarded, handling, encloses⟩ := valid.clause member
  exact ⟨guarded, handling, encloses.guarded_eq, encloses.handling_eq⟩

theorem live_of_validate (valid : b.validate = .ok ()) : b.Live := (validate_eq_ok_iff.mp valid).live

end Body

end AspectWeaving

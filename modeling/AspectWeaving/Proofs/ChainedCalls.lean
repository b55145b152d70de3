import AspectWeaving.Proofs.SoundRuns
import AspectWeaving.Proofs.Surroundings

/-!
Constructors and their chained calls. The prologue of a constructor stands right behind its first call of a method that is
named like one, and control only comes to the prologue from there (`Weave.Splices.path_entry`). Which type declares the
method that is called is not looked at, so the hook is called on a chained object in every run, exactly if that first call
is the one that chains (`entry_behind_first_constructor_call`).
-/
namespace AspectWeaving

/-! ### Who declares a constructor -/

/-- The type that declares a method of the module or an imported one. -/
def Module.declarer? (m : Module) (rows : ImportTable) (method : Token) : Option TypeLocator :=
  if method.table = Token.methodDef then (m.method? method).map fun found => .definition found.1.token
  else (rows.getMemberRef? method).bind fun row =>
    if row.parent.table = Token.typeRef then (rows.getTypeRef? row.parent).map .external else some (.definition row.parent)

/-- An instruction calls a constructor of a type or of its base. -/
def Module.chains (m : Module) (rows : ImportTable) (t : TypeDef) (i : Instruction) : Bool :=
  callsConstructor (.ofModule m) rows i && (i.token?.bind (m.declarer? rows)).any fun declarer =>
    declarer = .definition t.token || declarer = t.baseLocator

/-- A path runs through a call of a constructor that chains. -/
def Body.ChainedOn (b : Body) (m : Module) (rows : ImportTable) (t : TypeDef) (path : List Handle) : Prop :=
  ∃ h ∈ path, ∃ i, b.code.get? h = some i ∧ m.chains rows t i = true

/-- An instruction is reached without one that comes behind it in the code. -/
def Body.Leading (b : Body) (path : List Handle) (h : Handle) : Prop :=
  b.Path path h ∧ ∃ place, b.code.position? h = some place ∧ ∀ e ∈ path, b.Early (place + 1) e

theorem callsConstructor_opcode {r : Resolver} {rows : ImportTable} {i : Instruction} (calls : callsConstructor r rows i = true) :
    i.opcode = .call := by
  unfold callsConstructor at calls
  split at calls
  · assumption
  · cases calls

/-- The anchor of a constructor comes behind a call. -/
theorem exists_anchorBehind_of_findAnchor {r : Resolver} {rows : ImportTable} {b : Body} {anchor : Handle}
    (found : findAnchor r rows b true = .ok anchor) : ∃ before call, AnchorBehind r rows b.code.entries before call anchor := by
  unfold findAnchor at found
  split at found
  · cases found
  · exact exists_anchorBehind found

/-! ### The way into the prologue -/

theorem WeavePlan.prologue_fallsThrough {p : WeavePlan} {s : WovenSlots} (fetches : ∀ l ∈ p.parameters, l.Fetches)
    (method declaringType : Token) : ∀ i ∈ p.prologue s method declaringType, i.opcode.fallsThrough = true := by
  have load : ∀ index, (Instruction.loadSlot index).opcode.fallsThrough = true := by
    intro index
    obtain ⟨⟨fixed, action⟩, -⟩ := Instruction.loadSlot_spec index
    exact Opcode.fallsThrough_of_action action (by simp)
  have store : ∀ index, (Instruction.storeSlot index).opcode.fallsThrough = true := by
    intro index
    obtain ⟨⟨fixed, action⟩, -⟩ := Instruction.storeSlot_spec index
    exact Opcode.fallsThrough_of_action action (by simp)
  have argument : ∀ index, (Instruction.loadArgument index).opcode.fallsThrough = true := by
    intro index
    obtain ⟨⟨fixed, action⟩, -⟩ := Instruction.loadArgument_spec index
    exact Opcode.fallsThrough_of_action action (by simp)
  have push : ∀ value, (Instruction.pushInt32 value).opcode.fallsThrough = true := by
    intro value
    unfold Instruction.pushInt32
    split <;> first | rfl | (split <;> rfl)
  have stores : ∀ i ∈ p.parameters.zipIdx.flatMap fun e => storeArgument s e.1 e.2, i.opcode.fallsThrough = true := by
    intro i member
    obtain ⟨⟨l, position⟩, listed, here⟩ := List.mem_flatMap.mp member
    simp only [storeArgument, List.mem_append, List.mem_cons, List.not_mem_nil, or_false, Option.mem_toList,
      Option.map_eq_some_iff] at here
    rcases here with (((rfl | rfl | rfl) | fetched) | ⟨type, -, rfl⟩) | rfl
    · exact load _
    · exact push _
    · exact argument _
    · rcases fetches l (List.fst_mem_of_mem_zipIdx listed) i fetched with rfl | ⟨type, rfl⟩ <;> rfl
    · rfl
    · rfl
  simp only [prologue, List.forall_mem_append, List.forall_mem_cons, List.not_mem_nil, false_implies, implies_true, and_true,
    load, store, push]
  exact ⟨⟨by decide, stores⟩, by decide⟩

/-- A path ends where it leads. -/
theorem Body.Path.suffix {b : Body} {path : List Handle} {h : Handle} (along : b.Path path h) : [h] <:+ path := by
  cases along with
  | first starts => exact List.suffix_refl _
  | step before flows => exact List.suffix_append _ _

namespace Weave.Splices

variable {w : Weave} {place n : Nat} {new : Body} {path : List Handle} {h g : Handle}

section Paths

variable (splices : w.Splices place new) (fetches : ∀ l ∈ w.plan.parameters, l.Fetches)

include splices fetches

/-- Control comes to an instruction of the prologue only from the one before. -/
theorem flows_entry (valid : w.old.Valid) (inside : n < w.prologue.length) (flows : new.Flows g ⟨w.old.code.size + n⟩) :
    ∃ k, k + 1 = place + n ∧ new.code.order[k]? = some g := by
  have starts : w.places.epilogue.index = w.old.code.size + w.prologue.length := rfl
  cases flows with
  | next found falls behind =>
    obtain ⟨k, at_, onward⟩ := Code.next?_eq_some_iff.mp behind
    exact ⟨k, Code.order_inj onward (splices.order_prologue inside), at_⟩
  | jump jumps =>
    exfalso
    generalize goal : (⟨w.old.code.size + n⟩ : Handle) = target at jumps
    have index : target.index = w.old.code.size + n := by rw [← goal]
    cases jumps with
    | branch found leads =>
      rcases splices.instruction_cases found with ⟨j, here, rfl⟩ | ⟨k, -, listed⟩ | ⟨k, -, listed⟩
      · unfold redirectReturn at leads
        split at leads
        · obtain rfl := Option.some.inj leads
          omega
        · have := (valid.instruction here).target leads
          omega
      · rw [splices.target?_prologue fetches (List.mem_of_getElem? listed)] at leads
        cases leads
      · obtain rfl := splices.target?_tail (List.mem_of_getElem? listed) leads
        have back : w.places.returnBlock.index = w.places.handler.index + w.handler.length := rfl
        have middle := congrArg Handle.index w.places_handler
        simp only at middle
        omega
    | raise member guards stands holds =>
      rw [splices.handlers] at member
      rcases List.mem_append.mp member with before | last
      · obtain ⟨c, listed, rfl⟩ := List.mem_map.mp before
        obtain ⟨guarded, handling, encloses⟩ := valid.clause listed
        have there := (Body.span?_eq_some_iff.mp encloses.handling_eq).1
        have bound := (w.old.code.mem_order_iff _).mp (Array.mem_of_getElem? there)
        change (c.handling.start).index = _ at index
        omega
      · obtain rfl := List.mem_singleton.mp last
        change w.places.handler.index = _ at index
        rw [w.places_handler] at index
        simp only at index
        omega

/-- A path into the prologue has come to the instruction before the prologue, and has run through the prologue since. -/
theorem path_entry {m : Nat} (valid : w.old.Valid) (behind : place = m + 1) (stands : w.old.code.order[m]? = some h)
    (inside : n < w.prologue.length) (along : new.Path path ⟨w.old.code.size + n⟩) : h :: w.entry.take (n + 1) <:+ path := by
  have there := splices.order_of_early (behind ▸ Nat.lt_succ_self m) stands
  generalize goal : (⟨w.old.code.size + n⟩ : Handle) = target at along
  induction along generalizing n with
  | first starts =>
    subst goal
    have first := Code.order_inj starts (splices.order_prologue inside)
    omega
  | @step path g _ along flows ih =>
    subst goal
    obtain ⟨k, onward, at_⟩ := splices.flows_entry fetches valid inside flows
    have earlier : h :: w.entry.take n <:+ path := by
      cases n with
      | zero =>
        obtain rfl : k = m := by omega
        obtain rfl := Option.some.inj (at_.symm.trans there)
        exact along.suffix
      | succ n =>
        obtain rfl : k = place + n := by omega
        have before := splices.order_prologue (Nat.lt_of_succ_lt inside)
        exact ih (Nat.lt_of_succ_lt inside) (Option.some.inj (before.symm.trans at_))
    obtain ⟨front, whole⟩ := earlier
    exact ⟨front, by rw [take_entry inside, ← List.cons_append, ← List.append_assoc, whole]⟩

/-- A path that comes to the instruction before the prologue may go on through the prologue. -/
theorem path_through {m : Nat} (behind : place = m + 1) (stands : w.old.code.order[m]? = some h)
    (falls : ∀ i, new.code.get? h = some i → i.opcode.fallsThrough = true) (along : new.Path path h)
    (inside : n < w.prologue.length) : new.Path (path ++ w.entry.take (n + 1)) ⟨w.old.code.size + n⟩ := by
  have there := splices.order_of_early (behind ▸ Nat.lt_succ_self m) stands
  induction n with
  | zero =>
    obtain ⟨i, found⟩ := Code.get?_eq_some_of_order there
    have onward := splices.order_prologue inside
    rw [behind] at onward
    rw [take_entry inside]
    exact along.step (.next found (falls i found) (Code.next?_eq_some_iff.mpr ⟨m, there, onward⟩))
  | succ n ih =>
    have first := splices.prologue n _ (List.getElem?_eq_getElem (Nat.lt_of_succ_lt inside))
    have stays := WeavePlan.prologue_fallsThrough fetches _ _ _ (List.getElem_mem (Nat.lt_of_succ_lt inside))
    rw [take_entry inside, ← List.append_assoc]
    exact (ih (Nat.lt_of_succ_lt inside)).step
      (.next first.2 stays (Code.next?_eq_some_iff.mpr ⟨_, first.1, splices.order_prologue inside⟩))

end Paths

/-- A call of the old code stays as it is. -/
theorem keeps_call {i : Instruction} (splices : w.Splices place new) (found : w.old.code.get? h = some i) (call : i.opcode = .call) :
    new.widen.1.code.get? h = some i := by
  obtain ⟨j, there, becomes⟩ := splices.becomes found
  cases becomes with
  | same => exact there
  | widened long =>
    rw [call] at long
    cases long
  | redirected ret =>
    rw [call] at ret
    cases ret

/-- The prologue stands right behind the instruction before the anchor. -/
theorem infix_order {m : Nat} (splices : w.Splices (m + 1) new) (stands : w.old.code.order[m]? = some h) :
    h :: w.entry <:+: new.code.order.toList := by
  have bound : m < w.old.code.order.toList.length := (Array.getElem?_eq_some_iff.mp stands).1
  have last : w.old.code.order.toList[m] = h := (Array.getElem?_eq_some_iff.mp stands).2
  refine ⟨w.old.code.order.toList.take m, w.old.code.order.toList.drop (m + 1) ++ w.trail, ?_⟩
  rw [splices.order_eq, List.take_succ_eq_append_getElem bound, last]
  simp

end Weave.Splices

/-! ### The call that chains -/

section Chaining

variable {m : Module} {rows : ImportTable} {t : TypeDef} {path : List Handle}

/-- The prologue does not chain. -/
theorem Weave.chainedOn_append_entry {w : Weave} (chained : w.old.ChainedOn m rows t (path ++ w.entry)) :
    w.old.ChainedOn m rows t path := by
  obtain ⟨g, member, i, found, chains⟩ := chained
  rcases List.mem_append.mp member with before | entry
  · exact ⟨g, before, i, found, chains⟩
  · have bound := Code.get?_isSome_iff.mp (Option.isSome_of_eq_some found)
    obtain ⟨n, -, rfl⟩ := List.mem_map.mp entry
    simp only at bound
    omega

/-- Where a path runs only through the code up to the first call of a constructor, it is that call which chains. -/
theorem AnchorBehind.chains_of_chainedOn {b : Body} {front : List (Handle × Instruction)} {call : Handle × Instruction}
    {anchor : Handle} (behind : AnchorBehind (.ofModule m) rows b.code.entries front call anchor)
    (early : ∀ e ∈ path, b.Early (front.length + 1) e) (chained : b.ChainedOn m rows t path) :
    m.chains rows t call.2 = true := by
  obtain ⟨stands, here, -⟩ := behind.order
  obtain ⟨i, others, whole⟩ := behind.parts
  obtain ⟨g, member, j, found, chains⟩ := chained
  obtain ⟨n, low, at_⟩ := early g member
  by_cases last : n = front.length
  · subst last
    obtain rfl := Option.some.inj (at_.symm.trans stands)
    obtain rfl := Option.some.inj (found.symm.trans here)
    exact chains
  · have listed := Code.getElem?_entries_eq_some_iff.mpr ⟨at_, found⟩
    rw [whole, List.getElem?_append_left (by omega)] at listed
    have other := behind.first _ (List.mem_of_getElem? listed)
    unfold Module.chains at chains
    simp only [other, Bool.false_and, Bool.false_eq_true] at chains

end Chaining

/-! ### Decorated constructors -/

section Decorated

variable {m : Module} {policy : Policy} {t : TypeDef} {d woven : MethodDef} {kind : DecoratorKind} {before behind : Workspace}
  {b : Body}

/-- The hook before the code of a constructor is called right behind its first call of a method that is named like a
    constructor, and on no path without it. So it is called on an object that has been chained, if that is the call that
    chains; and only if so, where that call is reached without the code behind it. -/
theorem entry_behind_first_constructor_call (constructor : d.isConstructor = true) (body : d.body = some b)
    (done : decorate (.ofModule m) policy d kind t.token before = (.ok woven, behind)) :
    ∃ (w : Weave) (new : Body) (h : Handle) (i : Instruction), w.old = b ∧ woven = { d with body := some new } ∧
      w.CallsHooks kind new ∧ w.entry.getLast? = some w.entryCall ∧
      b.code.entries.find? (fun e => callsConstructor (.ofModule m) before.imports e.2) = some (h, i) ∧
      new.code.get? h = some i ∧ h :: w.entry <:+: new.code.order.toList ∧
      (b.validate = .ok () →
        (∀ path, new.Path path w.entryCall → h :: w.entry <:+ path) ∧
        (m.chains before.imports t i = true → ∀ path, new.Path path w.entryCall → b.ChainedOn m before.imports t path) ∧
        ((∃ path, b.Leading path h) → (∀ path, new.Path path w.entryCall → b.ChainedOn m before.imports t path) →
          m.chains before.imports t i = true)) := by
  obtain ⟨-, w, new, decorates, -, anchored⟩ := decorate_eq_ok done
  obtain rfl : b = w.old := Option.some.inj (body.symm.trans decorates.old)
  have called := decorates.callsHooks
  have stays : ∀ {place}, w.old.code.order[place]? = some w.plan.anchor → w.old.StaysBefore place :=
    Body.staysBefore_of_findAnchor anchored
  rw [constructor] at anchored
  obtain ⟨front, ⟨h, i⟩, chained⟩ := exists_anchorBehind_of_findAnchor anchored
  obtain ⟨stands, here, at_⟩ := chained.order
  obtain ⟨rest, others, whole⟩ := chained.parts
  have call : i.opcode = .call := callsConstructor_opcode chained.calls
  obtain ⟨place, spliced, splices, rfl⟩ := decorates.splices
  obtain rfl := Code.order_inj splices.anchor at_
  have alike : spliced.code.Alike spliced.widen.1.code := Code.alike_widen spliced.code
  have kept : spliced.widen.1.code.get? h = some i := splices.keeps_call here call
  refine ⟨w, _, h, i, rfl, decorates.woven, called, ?_, ?_, kept, ?_, ?_⟩
  · rw [List.getLast?_eq_getElem?, w.length_entry]
    exact Weave.getElem?_entry (Nat.sub_lt w.prologue_pos Nat.one_pos)
  · refine List.find?_eq_some_iff_append.mpr ⟨chained.calls, front, (w.plan.anchor, rest) :: others, whole, fun e member => ?_⟩
    rw [chained.first e member]
    rfl
  · rw [alike.order]
    exact splices.infix_order stands
  · intro valid
    have valid := Body.validate_eq_ok_iff.mp valid
    have paths : ∀ {path g}, spliced.Path path g ↔ spliced.widen.1.Path path g := Body.path_iff_of_alike alike rfl
    have inside : w.prologue.length - 1 < w.prologue.length := Nat.sub_lt w.prologue_pos Nat.one_pos
    have all : w.entry.take (w.prologue.length - 1 + 1) = w.entry :=
      Weave.take_entry_all (Nat.sub_add_cancel w.prologue_pos)
    have enters : ∀ path, spliced.widen.1.Path path w.entryCall → h :: w.entry <:+ path := by
      intro path along
      rw [← all]
      exact splices.path_entry decorates.planned.fetches valid rfl stands inside (paths.mpr along)
    refine ⟨enters, fun chains path along => ?_, ?_⟩
    · exact ⟨h, (enters path along).subset List.mem_cons_self, i, here, chains⟩
    · rintro ⟨path, leading, place, position, early⟩ everywhere
      obtain rfl := Code.order_inj stands (Code.position?_eq_some_iff.mp position)
      have along := splices.path_of_early valid (stays splices.anchor) leading early
      have falls : ∀ j, spliced.code.get? h = some j → j.opcode.fallsThrough = true := by
        intro j found
        obtain ⟨k, there, same⟩ := alike.instruction found
        obtain rfl := Option.some.inj (kept.symm.trans there)
        have flow : j.opcode.flow = i.opcode.flow := same.flow
        rw [Opcode.fallsThrough, flow, call]
        rfl
      have through := splices.path_through decorates.planned.fetches rfl stands falls along inside
      rw [all] at through
      exact chained.chains_of_chainedOn early (Weave.chainedOn_append_entry (everywhere _ (paths.mp through)))

end Decorated

/-! ### Constructors that call several -/

namespace Sample

/-- A type that is no base of others. -/
def helper : TypeDecl where
  name := ⟨"Sample", "Helper"⟩
  methods := [{ name := constructorName, body := some { code := .ofList [⟨.ret, .none⟩] } }]

/-- A constructor that calls some constructor on its object, and then that of its base. -/
def assisted (first : Token) : MethodDef where
  name := constructorName
  body := some
    { code := .ofList [⟨.ldarg0, .none⟩, ⟨.call, .method first⟩, ⟨.ldarg0, .none⟩,
        ⟨.call, .method (.ofParts Token.methodDef 4)⟩, ⟨.ret, .none⟩] }
  attributes := [{ type := .ofParts Token.typeDef 1 }]
  token := .ofParts Token.methodDef 6

/-- The module of the decorator and of the three types with constructors. -/
def assistants (first : Token) : Module :=
  let start : Module := { name := "Sample", library := .standard, imports := rows }
  let widget : TypeDecl :=
    { name := ⟨"Sample", "Widget"⟩
      base := some (.definition (.ofParts Token.typeDef 2))
      methods := [(assisted first).toMethod] }
  ((((start.addType logger).1.addType base).1.addType helper).1.addType widget).1

/-- The type with the decorated constructor. -/
def assistant (first : Token) : TypeDef := (assistants first).types.getD 3 default

/-- The constructor with the decorator around it. -/
def assistedWoven (first : Token) : Except Fault MethodDef × Workspace :=
  decorate (.ofModule (assistants first)) {} (assisted first) kind (assistant first).token { imports := rows }

/-- The constructor of the base comes first, and so before the hook on every path. -/
theorem assisted_entered_chained :
    ((assisted (.ofParts Token.methodDef 4)).body.get rfl).validate = .ok () ∧
      ∃ (w : Weave) (new : Body) (woven : MethodDef), (assistedWoven (.ofParts Token.methodDef 4)).1 = .ok woven ∧
        woven.body = some new ∧ w.CallsHooks kind new ∧
        ∀ path, new.Path path w.entryCall →
          ((assisted (.ofParts Token.methodDef 4)).body.get rfl).ChainedOn (assistants (.ofParts Token.methodDef 4)) rows
            (assistant (.ofParts Token.methodDef 4)) path := by
  have valid : ((assisted (.ofParts Token.methodDef 4)).body.get rfl).validate = .ok () :=
    isOk_eq_true_iff.mp (by decide +kernel)
  obtain ⟨woven, done⟩ := exists_ok_fst (show (assistedWoven (.ofParts Token.methodDef 4)).1.isOk = true by decide +kernel)
  obtain ⟨w, new, h, i, -, rfl, calls, -, first, -, -, paths⟩ := entry_behind_first_constructor_call rfl rfl done
  obtain ⟨-, chained, -⟩ := paths valid
  have found : ((assisted (.ofParts Token.methodDef 4)).body.get rfl).code.entries.find? (fun e =>
      callsConstructor (.ofModule (assistants (.ofParts Token.methodDef 4))) rows e.2) =
        some (⟨1⟩, ⟨.call, .method (.ofParts Token.methodDef 4)⟩) := rfl
  cases found.symm.trans first
  exact ⟨valid, w, new, _, congrArg Prod.fst done, rfl, calls, chained (by decide +kernel)⟩

/-- The constructor of another type comes first. The hook is called behind it, and before the constructor of the base is. -/
theorem assisted_entered_unchained :
    ((assisted (.ofParts Token.methodDef 5)).body.get rfl).validate = .ok () ∧
      ∃ (w : Weave) (new : Body) (woven : MethodDef), (assistedWoven (.ofParts Token.methodDef 5)).1 = .ok woven ∧
        woven.body = some new ∧ w.CallsHooks kind new ∧ ⟨1⟩ :: w.entry <:+: new.code.order.toList ∧
        new.code.get? ⟨1⟩ = some ⟨.call, .method (.ofParts Token.methodDef 5)⟩ ∧
        (assistants (.ofParts Token.methodDef 5)).chains rows (assistant (.ofParts Token.methodDef 5))
          ⟨.call, .method (.ofParts Token.methodDef 5)⟩ = false ∧
        new.Path ([⟨0⟩, ⟨1⟩] ++ w.entry) w.entryCall ∧
        ¬ ((assisted (.ofParts Token.methodDef 5)).body.get rfl).ChainedOn (assistants (.ofParts Token.methodDef 5)) rows
          (assistant (.ofParts Token.methodDef 5)) ([⟨0⟩, ⟨1⟩] ++ w.entry) := by
  have valid : ((assisted (.ofParts Token.methodDef 5)).body.get rfl).validate = .ok () :=
    isOk_eq_true_iff.mp (by decide +kernel)
  obtain ⟨woven, done⟩ := exists_ok_fst (show (assistedWoven (.ofParts Token.methodDef 5)).1.isOk = true by decide +kernel)
  obtain ⟨-, w, new, decorates, -, anchored⟩ := decorate_eq_ok done
  have called := decorates.callsHooks
  obtain ⟨place, spliced, splices, rfl⟩ := decorates.splices
  have old : w.old = (assisted (.ofParts Token.methodDef 5)).body.get rfl := Option.some.inj (decorates.old.symm.trans rfl)
  have fits : w.old.Valid := old ▸ Body.validate_eq_ok_iff.mp valid
  have stays : w.old.StaysBefore place := Body.staysBefore_of_findAnchor anchored splices.anchor
  have alike : spliced.code.Alike spliced.widen.1.code := Code.alike_widen spliced.code
  have order : w.old.code.order = #[⟨0⟩, ⟨1⟩, ⟨2⟩, ⟨3⟩, ⟨4⟩] := by
    rw [old]
    rfl
  have second : w.old.code.order[1]? = some ⟨1⟩ := by rw [order]; rfl
  -- The anchor comes behind the first of the two calls.
  obtain rfl : place = 1 + 1 := by
    have found : findAnchor (.ofModule (assistants (.ofParts Token.methodDef 5))) rows
        ((assisted (.ofParts Token.methodDef 5)).body.get rfl) true = .ok ⟨2⟩ := rfl
    rw [old] at anchored
    obtain anchor := Except.ok.inj (found.symm.trans anchored)
    exact Code.order_inj splices.anchor (by rw [← anchor, order]; rfl)
  have early : ∀ e ∈ [(⟨0⟩ : Handle), ⟨1⟩], w.old.Early (1 + 1) e := by
    intro e member
    simp only [List.mem_cons, List.not_mem_nil, or_false] at member
    rcases member with rfl | rfl
    · exact ⟨0, by decide, by rw [order]; rfl⟩
    · exact ⟨1, by decide, second⟩
  have along : w.old.Path [⟨0⟩, ⟨1⟩] ⟨1⟩ := by
    have start : w.old.Path [⟨0⟩] ⟨0⟩ := .first (by rw [Code.first?, order]; rfl)
    have found : w.old.code.get? ⟨0⟩ = some ⟨.ldarg0, .none⟩ := by rw [old]; rfl
    exact start.step (.next found rfl (Code.next?_eq_some_iff.mpr ⟨0, by rw [order]; rfl, second⟩))
  have call : w.old.code.get? ⟨1⟩ = some ⟨.call, .method (.ofParts Token.methodDef 5)⟩ := by rw [old]; rfl
  have kept : spliced.code.get? ⟨1⟩ = some ⟨.call, .method (.ofParts Token.methodDef 5)⟩ := splices.instruction call
  have through := splices.path_through decorates.planned.fetches rfl second
    (fun i found => by cases kept.symm.trans found; rfl) (splices.path_of_early fits stays along early)
    (Nat.sub_lt w.prologue_pos Nat.one_pos)
  rw [Weave.take_entry_all (Nat.sub_add_cancel w.prologue_pos)] at through
  refine ⟨valid, w, _, woven, congrArg Prod.fst done, decorates.woven ▸ rfl, called, ?_, ?_, by decide +kernel,
    through.of_alike alike rfl, ?_⟩
  · rw [alike.order]
    exact splices.infix_order second
  · exact splices.keeps_call call rfl
  · intro chained
    obtain ⟨g, member, i, found, chains⟩ := Weave.chainedOn_append_entry (old ▸ chained)
    rw [old] at found
    simp only [List.mem_cons, List.not_mem_nil, or_false] at member
    rcases member with rfl | rfl <;> cases found <;> revert chains <;> decide +kernel

end Sample

end AspectWeaving

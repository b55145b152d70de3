import AspectWeaving.Proofs.ControlFlow
import AspectWeaving.Proofs.HookDiscipline
import Mathlib.Tactic.IntervalCases

/-!
The way into protected code. All paths of a woven body to the code from the anchor on run through the whole
prologue, exactly if nothing in the old body jumps past the anchor from code before it
(`Weave.Splices.entered_iff`). A method that is no constructor has nothing before its anchor. A constructor
may branch around its call of another one, and then its hooks are called without the prologue.
-/
namespace AspectWeaving

namespace Weave

variable {w : Weave} {place n : Nat} {new : Body} {path : List Handle} {h g : Handle} {s : Span}

/-- The handles of the prologue. -/
def entry (w : Weave) : List Handle := (List.range w.prologue.length).map fun n => ⟨w.old.code.size + n⟩

/-- The clause of a weave guards an instruction, or the instruction comes behind those that it guards. -/
def Protects (w : Weave) (new : Body) (h : Handle) : Prop :=
  ∃ n s, new.code.position? h = some n ∧ new.span? w.clause.guarded = some s ∧ s.start ≤ n

/-- All paths to protected code run through the prologue. -/
def Entered (w : Weave) (new : Body) : Prop := ∀ path h, new.Path path h → w.Protects new h → w.entry <:+: path

theorem getElem?_entry (inside : n < w.prologue.length) : w.entry[n]? = some ⟨w.old.code.size + n⟩ := by
  simp [entry, inside]

theorem take_entry (inside : n < w.prologue.length) :
    w.entry.take (n + 1) = w.entry.take n ++ [⟨w.old.code.size + n⟩] := by
  obtain ⟨bound, here⟩ := List.getElem?_eq_some_iff.mp (getElem?_entry inside)
  rw [List.take_succ_eq_append_getElem bound, here]

theorem take_entry_all (all : n = w.prologue.length) : w.entry.take n = w.entry :=
  List.take_of_length_le (by simp [entry, all])

theorem contains_shift (early : n < place) :
    Span.contains ⟨w.shift place s.start, w.shift place s.stop⟩ n = s.contains n := by
  rw [Bool.eq_iff_iff]
  simp only [Span.contains, Bool.and_eq_true, decide_eq_true_eq]
  unfold shift
  split <;> split <;> omega

/-- A region that holds some of the prologue has been around its place. -/
theorem contains_of_shift (inside : n < w.prologue.length)
    (holds : Span.contains ⟨w.shift place s.start, w.shift place s.stop⟩ (place + n) = true) :
    s.start < place ∧ place ≤ s.stop := by
  simp only [Span.contains, Bool.and_eq_true, decide_eq_true_eq] at holds
  unfold shift at holds
  split at holds <;> split at holds <;> omega

/-- How far a path through a woven body has come. -/
inductive Reaches (w : Weave) (place : Nat) : List Handle → Handle → Prop
  /-- It is before the prologue, where all is as in the old code. -/
  | before {path : List Handle} {h : Handle} (along : w.old.Path path h) (early : ∀ e ∈ path, w.old.Early place e) :
      Reaches w place path h
  /-- It is in the prologue, to which it has come from the instruction before. -/
  | prologue {path : List Handle} {n : Nat} (inside : n < w.prologue.length)
      (come : ∀ m, m + 1 = place → ∃ last, w.old.code.order[m]? = some last ∧ w.old.Path path last ∧
        ∀ e ∈ path, w.old.Early place e) :
      Reaches w place (path ++ w.entry.take (n + 1)) ⟨w.old.code.size + n⟩
  /-- It has run through the prologue. -/
  | behind {path : List Handle} {h : Handle} (entered : w.entry <:+: path) : Reaches w place path h

namespace Splices

/-! ### Edges -/

theorem order_of_early (splices : w.Splices place new) (early : n < place) (stands : w.old.code.order[n]? = some h) :
    new.code.order[n]? = some h := by
  have there := splices.order stands
  rwa [shift, if_pos early] at there

theorem order_prologue (splices : w.Splices place new) (inside : n < w.prologue.length) :
    new.code.order[place + n]? = some ⟨w.old.code.size + n⟩ :=
  (splices.prologue n _ (List.getElem?_eq_getElem inside)).1

/-- The clauses that guard a place before the end of the old code, and where they guarded it. -/
theorem clause_cases {c : Handler} (splices : w.Splices place new) (valid : w.old.Valid) (member : c ∈ new.handlers)
    (guards : new.span? c.guarded = some s) :
    (∃ c' guarded handling, c' ∈ w.old.handlers ∧ w.old.Encloses c' guarded handling ∧
        c.handling.start = c'.handling.start ∧ s = ⟨w.shift place guarded.start, w.shift place guarded.stop⟩) ∨
      s.start = w.prologue.length + place := by
  rw [splices.handlers] at member
  rcases List.mem_append.mp member with before | last
  · obtain ⟨c', listed, rfl⟩ := List.mem_map.mp before
    obtain ⟨guarded, handling, encloses⟩ := valid.clause listed
    cases guards.symm.trans (splices.encloses encloses).guarded_eq
    exact .inl ⟨c', guarded, handling, listed, encloses, rfl, rfl⟩
  · obtain rfl := List.mem_singleton.mp last
    cases guards.symm.trans splices.encloses_clause.guarded_eq
    exact .inr rfl

/-- Code before the place of the prologue stays as it is, where it does not return. -/
theorem get?_of_early (splices : w.Splices place new) (stays : w.old.StaysBefore place) (early : w.old.Early place h) :
    new.code.get? h = w.old.code.get? h := by
  obtain ⟨n, before, stands⟩ := early
  obtain ⟨i, found⟩ := Code.get?_eq_some_of_order stands
  have other : i.opcode ≠ .ret := stays ⟨n, before, stands⟩ found
  rw [found, splices.instruction found, redirectReturn, if_neg other]

theorem jumps_iff_of_early (splices : w.Splices place new) (valid : w.old.Valid) (stays : w.old.StaysBefore place)
    (early : w.old.Early place h) : new.Jumps h g ↔ w.old.Jumps h g := by
  have same := splices.get?_of_early stays early
  obtain ⟨n, before, stands⟩ := early
  have there := splices.order_of_early before stands
  constructor
  · intro jumps
    cases jumps with
    | branch found leads => exact .branch (same ▸ found) leads
    | raise member guards at_ inside =>
      obtain rfl := Code.order_inj there (Code.position?_eq_some_iff.mp at_)
      rcases splices.clause_cases valid member guards with ⟨c, guarded, handling, listed, encloses, starts, rfl⟩ | behind
      · rw [contains_shift before] at inside
        rw [starts]
        exact .raise listed encloses.guarded_eq (Code.position?_eq_some_iff.mpr stands) inside
      · simp only [Span.contains, Bool.and_eq_true, decide_eq_true_eq] at inside
        omega
  · intro jumps
    cases jumps with
    | branch found leads => exact .branch (same.trans found) leads
    | raise member guards at_ inside =>
      obtain rfl := Code.order_inj stands (Code.position?_eq_some_iff.mp at_)
      rename_i c s
      obtain ⟨guarded, handling, encloses⟩ := valid.clause member
      cases guards.symm.trans encloses.guarded_eq
      have listed : c.closedAt w.places.epilogue ∈ new.handlers := by
        rw [splices.handlers]
        exact List.mem_append_left _ (List.mem_map_of_mem member)
      have jumps : new.Jumps h (c.closedAt w.places.epilogue).handling.start :=
        .raise listed (splices.encloses encloses).guarded_eq (Code.position?_eq_some_iff.mpr there)
          ((contains_shift before).trans inside)
      exact jumps

/-! ### Paths -/

variable (splices : w.Splices place new) (fetches : ∀ l ∈ w.plan.parameters, l.Fetches) (valid : w.old.Valid)
  (stays : w.old.StaysBefore place)

include splices valid

/-- No exception leads out of the prologue, as none leads past it from the instruction before. -/
private theorem false_of_raise_prologue (gated : w.old.Gated place) (inside : n < w.prologue.length)
    (come : ∀ m, m + 1 = place → ∃ last, w.old.code.order[m]? = some last ∧ w.old.Path path last ∧
      ∀ e ∈ path, w.old.Early place e) {c : Handler} (member : c ∈ new.handlers) (guards : new.span? c.guarded = some s)
    (holds : s.contains (place + n) = true) : False := by
  rcases splices.clause_cases valid member guards with ⟨c', guarded, handling, listed, encloses, -, rfl⟩ | behind
  · obtain ⟨before, behind⟩ := contains_of_shift inside holds
    obtain ⟨m, rfl⟩ := Nat.exists_eq_succ_of_ne_zero (Nat.ne_of_gt (Nat.lt_of_le_of_lt (Nat.zero_le _) before))
    obtain ⟨last, stands, along, early⟩ := come m rfl
    have raises : w.old.Jumps last c'.handling.start := by
      refine .raise listed encloses.guarded_eq (Code.position?_eq_some_iff.mpr stands) ?_
      simp only [Span.contains, Bool.and_eq_true, decide_eq_true_eq]
      omega
    obtain ⟨k, low, there⟩ := gated path last _ along early raises
    have same := Code.order_inj there (Body.span?_eq_some_iff.mp encloses.handling_eq).1
    have apart := encloses.apart
    omega
  · simp only [Span.contains, Bool.and_eq_true, decide_eq_true_eq] at holds
    omega

/-- From the code before the prologue a path goes on there, or comes to the start of the prologue. -/
private theorem reaches_of_early (stays : w.old.StaysBefore place) (gated : w.old.Gated place) (along : w.old.Path path h)
    (early : ∀ e ∈ path, w.old.Early place e) (flows : new.Flows h g) : w.Reaches place (path ++ [g]) g := by
  have here := early h along.mem
  have goes : ∀ {e}, w.old.Flows h e → w.old.Early place e → w.Reaches place (path ++ [e]) e := by
    intro e flows low
    refine .before (along.step flows) fun e member => ?_
    rcases List.mem_append.mp member with before | last
    · exact early e before
    · exact List.mem_singleton.mp last ▸ low
  cases flows with
  | jump jumps =>
    have jumps := (splices.jumps_iff_of_early valid stays here).mp jumps
    exact goes (.jump jumps) (gated path h g along early jumps)
  | @next i _ found falls behind =>
    have found := (splices.get?_of_early stays here) ▸ found
    obtain ⟨n, before, stands⟩ := here
    obtain ⟨m, at_, onward⟩ := Code.next?_eq_some_iff.mp behind
    obtain rfl := Code.order_inj (splices.order_of_early before stands) at_
    by_cases low : n + 1 < place
    · have bound : n + 1 < w.old.code.order.size := by
        rw [w.old.code.size_order]
        have := splices.place_lt
        omega
      have there := splices.order_of_early low (Array.getElem?_eq_getElem bound)
      obtain rfl := Option.some.inj (onward.symm.trans there)
      have stands' := Array.getElem?_eq_getElem bound
      exact goes (.next found falls (Code.next?_eq_some_iff.mpr ⟨n, stands, stands'⟩)) ⟨n + 1, low, stands'⟩
    · have first : n + 1 = place := by omega
      have entry := splices.order_prologue w.prologue_pos
      rw [Nat.add_zero, ← first] at entry
      obtain rfl := Option.some.inj (onward.symm.trans entry)
      have reaches : w.Reaches place (path ++ w.entry.take (0 + 1)) ⟨w.old.code.size + 0⟩ := by
        refine .prologue w.prologue_pos fun m same => ?_
        obtain rfl : m = n := by omega
        exact ⟨h, stands, along, early⟩
      rwa [take_entry w.prologue_pos, List.take_zero, List.nil_append] at reaches

include fetches

/-- The prologue is run through instruction by instruction. -/
private theorem reaches_of_prologue (gated : w.old.Gated place) (inside : n < w.prologue.length)
    (come : ∀ m, m + 1 = place → ∃ last, w.old.code.order[m]? = some last ∧ w.old.Path path last ∧
      ∀ e ∈ path, w.old.Early place e) (flows : new.Flows ⟨w.old.code.size + n⟩ g) :
    w.Reaches place (path ++ w.entry.take (n + 1) ++ [g]) g := by
  cases flows with
  | jump jumps =>
    cases jumps with
    | @branch i _ found leads =>
      have here := (splices.prologue n _ (List.getElem?_eq_getElem inside)).2
      obtain rfl := Option.some.inj (found.symm.trans here)
      rw [splices.target?_prologue fetches (List.getElem_mem inside)] at leads
      cases leads
    | raise member guards at_ holds =>
      obtain rfl := Code.order_inj (splices.order_prologue inside) (Code.position?_eq_some_iff.mp at_)
      exact (splices.false_of_raise_prologue valid gated inside come member guards holds).elim
  | next found falls behind =>
    obtain ⟨m, at_, onward⟩ := Code.next?_eq_some_iff.mp behind
    obtain rfl := Code.order_inj (splices.order_prologue inside) at_
    by_cases more : n + 1 < w.prologue.length
    · have following := splices.order_prologue more
      obtain rfl := Option.some.inj (onward.symm.trans following)
      have reaches : w.Reaches place (path ++ w.entry.take (n + 1 + 1)) ⟨w.old.code.size + (n + 1)⟩ :=
        .prologue more come
      rwa [take_entry more, ← List.append_assoc] at reaches
    · refine .behind ⟨path, [g], ?_⟩
      rw [take_entry_all (by omega)]

include stays

theorem reaches_step (gated : w.old.Gated place) (reaches : w.Reaches place path h) (flows : new.Flows h g) :
    w.Reaches place (path ++ [g]) g := by
  cases reaches with
  | before along early => exact splices.reaches_of_early valid stays gated along early flows
  | prologue inside come => exact splices.reaches_of_prologue fetches valid gated inside come flows
  | behind entered =>
    obtain ⟨before, behind, whole⟩ := entered
    exact .behind ⟨before, behind ++ [g], by rw [← whole]; simp⟩

theorem reaches_of_path (gated : w.old.Gated place) (along : new.Path path h) : w.Reaches place path h := by
  induction along with
  | step before flows ih => exact splices.reaches_step fetches valid stays gated ih flows
  | @first h starts =>
    cases place with
    | zero =>
      have entry := splices.order_prologue w.prologue_pos
      obtain rfl := Option.some.inj (starts.symm.trans entry)
      have reaches : w.Reaches 0 ([] ++ w.entry.take (0 + 1)) ⟨w.old.code.size + 0⟩ := by
        exact .prologue w.prologue_pos fun m same => by omega
      rwa [take_entry w.prologue_pos, List.take_zero, List.nil_append, List.nil_append] at reaches
    | succ m =>
      have bound : 0 < w.old.code.order.size := by
        rw [w.old.code.size_order]
        exact Nat.lt_of_le_of_lt (Nat.zero_le _) splices.place_lt
      have stands := Array.getElem?_eq_getElem bound
      have there := splices.order_of_early (Nat.succ_pos m) stands
      obtain rfl := Option.some.inj (starts.symm.trans there)
      refine .before (.first stands) fun e member => ?_
      exact List.mem_singleton.mp member ▸ ⟨0, Nat.succ_pos m, stands⟩

omit fetches in
theorem path_of_early (along : w.old.Path path h) (early : ∀ e ∈ path, w.old.Early place e) : new.Path path h := by
  induction along with
  | first starts =>
    obtain ⟨n, before, -⟩ := early _ (List.mem_singleton_self _)
    exact .first (splices.order_of_early (Nat.lt_of_le_of_lt (Nat.zero_le _) before) starts)
  | @step path h g along flows ih =>
    have early_h := early h (List.mem_append_left _ along.mem)
    have path := ih fun e member => early e (List.mem_append_left _ member)
    refine path.step ?_
    cases flows with
    | jump jumps => exact .jump ((splices.jumps_iff_of_early valid stays early_h).mpr jumps)
    | next found falls behind =>
      obtain ⟨m, low, there⟩ := early g (List.mem_append_right _ (List.mem_singleton_self _))
      obtain ⟨n, stands, onward⟩ := Code.next?_eq_some_iff.mp behind
      obtain rfl := Code.order_inj onward there
      exact .next ((splices.get?_of_early stays early_h).trans found) falls
        (Code.next?_eq_some_iff.mpr ⟨n, splices.order_of_early (by omega) stands, splices.order_of_early low there⟩)

/-- All paths to protected code run through the prologue, exactly if none of the old code jumps past its place. -/
theorem entered_iff : w.Entered new ↔ w.old.Gated place := by
  have guarded := splices.encloses_clause.guarded_eq
  constructor
  · intro entered path h g along early jumps
    by_contra late
    obtain ⟨m, stands⟩ := Code.exists_position ((along.step (.jump jumps)).live valid)
    have behind : place ≤ m := Nat.le_of_not_lt fun before => late ⟨m, before, stands⟩
    have there := splices.order stands
    rw [shift_of_le behind] at there
    have jumps' := (splices.jumps_iff_of_early valid stays (early h along.mem)).mpr jumps
    obtain ⟨front, rest, whole⟩ := entered _ _ ((splices.path_of_early valid stays along early).step (.jump jumps'))
      ⟨_, _, Code.position?_eq_some_iff.mpr there, guarded, Nat.add_le_add_left behind _⟩
    -- The prologue is not empty, but all of the path is old code.
    have member : ⟨w.old.code.size⟩ ∈ path ++ [g] := by
      rw [← whole]
      exact List.mem_append_left _ (List.mem_append_right _ (List.mem_of_getElem? (getElem?_entry w.prologue_pos)))
    have old : ∀ e ∈ path ++ [g], ∃ n : Nat, w.old.code.order[n]? = some e := by
      intro e member
      rcases List.mem_append.mp member with before | last
      · obtain ⟨n, -, stands⟩ := early e before
        exact ⟨n, stands⟩
      · exact ⟨m, List.mem_singleton.mp last ▸ stands⟩
    obtain ⟨n, stands⟩ := old _ member
    exact absurd ((w.old.code.mem_order_iff _).mp (Array.mem_of_getElem? stands)) (Nat.lt_irrefl _)
  · rintro gated path h along ⟨n, s, stands, guards, behind⟩
    cases guards.symm.trans guarded
    have stands := Code.position?_eq_some_iff.mp stands
    cases splices.reaches_of_path fetches valid stays gated along with
    | behind entered => exact entered
    | before along' early =>
      obtain ⟨m, low, there⟩ := early h along'.mem
      have same := Code.order_inj stands (splices.order_of_early low there)
      simp only at behind
      omega
    | prologue inside come =>
      have same := Code.order_inj stands (splices.order_prologue inside)
      simp only at behind
      omega

end Splices

theorem protects_widen_iff : w.Protects new.widen.1 h ↔ w.Protects new h := by
  have alike : new.code.Alike new.widen.1.code := Code.alike_widen new.code
  simp only [Protects, Body.span?_of_alike alike, Code.position?_eq_some_iff, alike.order]

theorem entered_widen_iff : w.Entered new.widen.1 ↔ w.Entered new := by
  have alike : new.code.Alike new.widen.1.code := Code.alike_widen new.code
  have paths : ∀ {path h}, new.Path path h ↔ new.widen.1.Path path h := Body.path_iff_of_alike alike rfl
  simp only [Entered, protects_widen_iff, paths]

theorem Splices.protects (splices : w.Splices place new) (inside : n < w.tail.length) :
    w.Protects new ⟨w.places.epilogue.index + n⟩ := by
  refine ⟨_, _, Code.position?_eq_some_iff.mpr (splices.tail_order inside), splices.encloses_clause.guarded_eq, ?_⟩
  have := splices.place_lt
  simp only [epiloguePosition]
  omega

end Weave

/-! ### Decorated methods -/

section Decorated

variable {r : Resolver} {rows : ImportTable} {policy : Policy} {d woven : MethodDef} {kind : DecoratorKind}
  {declaringType : Token} {before behind : Workspace} {b : Body} {place : Nat} {constructor : Bool} {anchor : Handle}

/-- A constructor does not return before its anchor, and in other methods nothing comes before it. -/
theorem Body.staysBefore_of_findAnchor (found : findAnchor r rows b constructor = .ok anchor)
    (stands : b.code.order[place]? = some anchor) : b.StaysBefore place := by
  rcases findAnchor_cases found with starts | ⟨front, call, anchored⟩
  · obtain rfl := Code.order_inj starts stands
    rintro h i ⟨n, before, -⟩
    cases before
  · obtain ⟨called, there, here⟩ := anchored.order
    obtain rfl := Code.order_inj here stands
    rintro h i ⟨n, before, stands⟩ found
    by_cases last : n = front.length
    · obtain rfl := Option.some.inj (stands.symm.trans (last ▸ called))
      obtain rfl := Option.some.inj (found.symm.trans there)
      intro ret
      have calls := anchored.calls
      simp [callsConstructor, ret] at calls
    · obtain ⟨j, rest, whole⟩ := anchored.parts
      have entry := Code.getElem?_entries_eq_some_iff.mpr ⟨stands, found⟩
      rw [whole, List.getElem?_append_left (by omega)] at entry
      exact anchored.stays _ (List.mem_of_getElem? entry)

/-- The hooks of a decorator are called behind the whole prologue only, which ends with the call of the first
    one, exactly if a constructor does not jump past its anchor from code before it. -/
theorem entered_iff_of_decorate (body : d.body = some b) (valid : b.validate = .ok ())
    (done : decorate r policy d kind declaringType before = (.ok woven, behind)) :
    ∃ (w : Weave) (place : Nat) (new : Body), w.old = b ∧ woven = { d with body := some new } ∧ w.CallsHooks kind new ∧
      findAnchor r before.imports b d.isConstructor = .ok w.plan.anchor ∧
      b.code.position? w.plan.anchor = some place ∧ new.code.Holds place b.code.size w.prologue ∧
      w.entry.getLast? = some w.entryCall ∧ w.clause ∈ new.handlers ∧
      w.Protects new w.exitCall ∧ w.Protects new w.exceptionCall ∧
      (w.Entered new ↔ (d.isConstructor = true → b.Gated place)) := by
  obtain ⟨-, w, new, decorates, -, anchored⟩ := decorate_eq_ok done
  obtain rfl : b = w.old := Option.some.inj (body.symm.trans decorates.old)
  have called := decorates.callsHooks
  obtain ⟨place, spliced, splices, rfl⟩ := decorates.splices
  have valid := Body.validate_eq_ok_iff.mp valid
  have protects : ∀ {n}, n < w.tail.length → w.Protects spliced.widen.1 ⟨w.places.epilogue.index + n⟩ :=
    fun inside => Weave.protects_widen_iff.mpr (splices.protects inside)
  have long := w.length_tail
  have exits := w.epilogue_pos
  refine ⟨w, place, _, rfl, decorates.woven, called, anchored, Code.position?_eq_some_iff.mpr splices.anchor,
    (Code.alike_widen spliced.code).lists splices.prologue, ?_, ?_, protects ?_, ?_, ?_⟩
  · rw [List.getLast?_eq_getElem?, Weave.entry, List.length_map, List.length_range]
    exact Weave.getElem?_entry (Nat.sub_lt w.prologue_pos Nat.one_pos)
  · rw [show spliced.widen.1.handlers = spliced.handlers from rfl, splices.handlers]
    exact List.mem_append_right _ (List.mem_singleton_self _)
  · omega
  · rw [Weave.exceptionCall, w.places_handler, Nat.add_assoc]
    refine protects ?_
    rw [long, w.length_handler]
    omega
  · rw [Weave.entered_widen_iff,
      splices.entered_iff decorates.planned.fetches valid (Body.staysBefore_of_findAnchor anchored splices.anchor)]
    refine ⟨fun gated _ => gated, fun gated => ?_⟩
    by_cases constructor : d.isConstructor = true
    · exact gated constructor
    · have first := decorates.planned.anchor (Bool.not_eq_true _ ▸ constructor)
      rw [Code.order_inj splices.anchor first]
      exact Body.gated_zero

end Decorated

/-! ### Constructors that branch -/

namespace Sample

/-- A type to derive from. -/
def base : TypeDecl where
  name := ⟨"Sample", "Base"⟩
  methods := [{ name := constructorName, body := some { code := .ofList [⟨.ret, .none⟩] } }]

/-- A constructor that branches on its argument before it calls another constructor. -/
def branching (target : Handle) : MethodDef where
  name := constructorName
  parameters := [⟨"ready", .int32⟩]
  body := some
    { code := .ofList [⟨.ldarg1, .none⟩, ⟨.brtrueS, .target target⟩, ⟨.ldarg0, .none⟩,
        ⟨.call, .method (.ofParts Token.methodDef 4)⟩, ⟨.ret, .none⟩] }
  attributes := [{ type := .ofParts Token.typeDef 1 }]
  token := .ofParts Token.methodDef 5

/-- The module of the decorator and of the two types with constructors. -/
def widgets (target : Handle) : Module :=
  let start : Module := { name := "Sample", library := .standard, imports := rows }
  let widget : TypeDecl :=
    { name := ⟨"Sample", "Widget"⟩
      base := some (.definition (.ofParts Token.typeDef 2))
      methods := [(branching target).toMethod] }
  (((start.addType logger).1.addType base).1.addType widget).1

/-- The constructor with the decorator around it. -/
def wrapped (target : Handle) : Except Fault MethodDef × Workspace :=
  decorate (.ofModule (widgets target)) {} (branching target) kind (.ofParts Token.typeDef 3) { imports := rows }

private theorem order_branching {target : Handle} {n : Nat} :
    ((branching target).body.get rfl).code.order[n]? = if n < 5 then some ⟨n⟩ else none := by
  have order : ((branching target).body.get rfl).code.order = #[⟨0⟩, ⟨1⟩, ⟨2⟩, ⟨3⟩, ⟨4⟩] := rfl
  rw [order]
  by_cases inside : n < 5
  · interval_cases n <;> rfl
  · simp [inside]

private theorem early_branching_iff {target h : Handle} :
    ((branching target).body.get rfl).Early 4 h ↔ h.index < 4 := by
  simp only [Body.Early, order_branching]
  constructor
  · rintro ⟨n, before, stands⟩
    rw [if_pos (by omega)] at stands
    cases stands
    exact before
  · intro before
    exact ⟨h.index, before, if_pos (by omega)⟩

private theorem path_branching {target : Handle} : ((branching target).body.get rfl).Path [⟨0⟩, ⟨1⟩] ⟨1⟩ := by
  have start : ((branching target).body.get rfl).Path [⟨0⟩] ⟨0⟩ := .first rfl
  have behind : ((branching target).body.get rfl).code.next? ⟨0⟩ = some ⟨1⟩ :=
    Code.next?_eq_some_iff.mpr ⟨0, order_branching, order_branching⟩
  exact start.step (.next (i := ⟨.ldarg1, .none⟩) rfl rfl behind)

private theorem jumps_branching {target : Handle} : ((branching target).body.get rfl).Jumps ⟨1⟩ target :=
  .branch (i := ⟨.brtrueS, .target target⟩) rfl rfl

theorem branching_gated_iff {target : Handle} : ((branching target).body.get rfl).Gated 4 ↔ target.index < 4 := by
  constructor
  · intro gated
    exact early_branching_iff.mp (gated _ _ _ path_branching (by simp [early_branching_iff]) jumps_branching)
  · intro before path h g along early jumps
    have here := early_branching_iff.mp (early h along.mem)
    cases jumps with
    | raise member => cases member
    | @branch i _ found leads =>
      obtain ⟨n⟩ := h
      simp only at here
      interval_cases n <;> cases found <;> cases leads
      exact early_branching_iff.mpr before

/-- The prologue goes behind the call of the other constructor. -/
private theorem anchor_branching {target : Handle} {rows : ImportTable} {place : Nat} {anchor : Handle}
    (anchored : findAnchor (.ofModule (widgets target)) rows ((branching target).body.get rfl) true = .ok anchor)
    (stands : ((branching target).body.get rfl).code.order[place]? = some anchor) : place = 4 := by
  have found : findAnchor (.ofModule (widgets target)) rows ((branching target).body.get rfl) true = .ok ⟨4⟩ := rfl
  obtain rfl := Except.ok.inj (found.symm.trans anchored)
  exact Code.order_inj stands order_branching

/-- A branch that stays before the call of the other constructor leaves the prologue where it is met. -/
theorem branching_entered :
    ((branching ⟨2⟩).body.get rfl).validate = .ok () ∧
      ∃ (w : Weave) (new : Body) (woven : MethodDef), (wrapped ⟨2⟩).1 = .ok woven ∧ woven.body = some new ∧
        w.CallsHooks kind new ∧ w.Protects new w.exitCall ∧ w.Entered new := by
  have valid : ((branching ⟨2⟩).body.get rfl).validate = .ok () := isOk_eq_true_iff.mp (by decide +kernel)
  obtain ⟨woven, done⟩ := exists_ok_fst (show (wrapped ⟨2⟩).1.isOk = true by decide +kernel)
  obtain ⟨w, place, new, -, rfl, calls, anchored, stands, -, -, -, exits, -, entered⟩ :=
    entered_iff_of_decorate rfl valid done
  obtain rfl := anchor_branching anchored (Code.position?_eq_some_iff.mp stands)
  refine ⟨valid, w, new, _, congrArg Prod.fst done, rfl, calls, exits, entered.mpr fun _ => ?_⟩
  exact branching_gated_iff.mpr (by decide)

/-- A branch around the call of the other constructor leads to the protected code without the prologue. -/
theorem branching_bypasses :
    ((branching ⟨4⟩).body.get rfl).validate = .ok () ∧
      ∃ (w : Weave) (new : Body) (woven : MethodDef), (wrapped ⟨4⟩).1 = .ok woven ∧ woven.body = some new ∧
        w.CallsHooks kind new ∧ new.Path [⟨0⟩, ⟨1⟩, ⟨4⟩] ⟨4⟩ ∧ w.Protects new ⟨4⟩ ∧ ∀ h ∈ w.entry, h ∉ [⟨0⟩, ⟨1⟩, ⟨4⟩] := by
  have valid : ((branching ⟨4⟩).body.get rfl).validate = .ok () := isOk_eq_true_iff.mp (by decide +kernel)
  obtain ⟨woven, done⟩ := exists_ok_fst (show (wrapped ⟨4⟩).1.isOk = true by decide +kernel)
  obtain ⟨-, w, new, decorates, -, anchored⟩ := decorate_eq_ok done
  have called := decorates.callsHooks
  obtain ⟨place, spliced, splices, rfl⟩ := decorates.splices
  have old : w.old = (branching ⟨4⟩).body.get rfl := Option.some.inj (decorates.old.symm.trans rfl)
  have stays : w.old.StaysBefore place := Body.staysBefore_of_findAnchor anchored splices.anchor
  have stands := splices.anchor
  rw [old] at anchored stands
  obtain rfl := anchor_branching anchored stands
  have anchor : ⟨4⟩ = w.plan.anchor := Option.some.inj (order_branching.symm.trans stands)
  have fits : w.old.Valid := old ▸ Body.validate_eq_ok_iff.mp valid
  have before : w.old.Early 4 ⟨1⟩ := old ▸ early_branching_iff.mpr (by decide)
  have along : spliced.Path [⟨0⟩, ⟨1⟩] ⟨1⟩ := by
    refine splices.path_of_early fits stays (old ▸ path_branching) fun e member => ?_
    rw [old, early_branching_iff]
    simp only [List.mem_cons, List.not_mem_nil, or_false] at member
    rcases member with rfl | rfl <;> decide
  have jumps : spliced.Jumps ⟨1⟩ ⟨4⟩ := (splices.jumps_iff_of_early fits stays before).mpr (old ▸ jumps_branching)
  have alike : spliced.code.Alike spliced.widen.1.code := Code.alike_widen spliced.code
  have widened : spliced.widen.1.handlers = spliced.handlers := rfl
  refine ⟨valid, w, _, woven, congrArg Prod.fst done, decorates.woven ▸ rfl, called,
    (along.step (.jump jumps)).of_alike alike widened, ?_, fun h member => ?_⟩
  · rw [Weave.protects_widen_iff, anchor]
    exact ⟨_, _, Code.position?_eq_some_iff.mpr splices.order_anchor, splices.encloses_clause.guarded_eq, Nat.le_refl _⟩
  · obtain ⟨n, -, rfl⟩ := List.mem_map.mp member
    have size : w.old.code.size = 5 := old ▸ rfl
    simp only [List.mem_cons, List.not_mem_nil, or_false, Handle.mk.injEq, not_or]
    omega

end Sample

end AspectWeaving

import AspectWeaving.Proofs.Transparency

/-!
Calls around calls. A decorator calls one of its hooks before the old code and one behind it, the pair of which is a ring
(`Ring`). A course that repeats another one inside a ring, where that one repeats a third one inside further rings, repeats
the third inside all of them (`Course.Nests.around`): the maps of the objects are put one after another, and what the inner
hooks have been called with is found along the outer map.
-/
namespace AspectWeaving

/-! ### Maps one after another -/

/-- Where an object is found that has first gone along one map and then along another one. -/
def HeapMap.andThen (σ τ : HeapMap) : HeapMap := σ.map fun b => τ[b.id - 1]?.getD b

section Maps

variable {σ τ : HeapMap} {a b c : HeapRef} {h h' h'' : Heap}

theorem HeapMap.Takes.andThen (first : σ.Takes a b) (second : τ.Takes b c) : (σ.andThen τ).Takes a c := by
  refine ⟨first.1, ?_⟩
  rw [HeapMap.andThen, List.getElem?_map, first.2, Option.map_some, second.2]
  rfl

/-- Every object that is there goes along a map. -/
theorem Heap.Mapped.exists_takes (mapped : h.Mapped σ h') {o : HeapObject} (found : h.get? a = some o) : ∃ b, σ.Takes a b := by
  obtain ⟨positive, bound⟩ := Heap.le_size_of_get? found
  have inside : a.id - 1 < σ.length := by
    rw [mapped.size]
    omega
  exact ⟨_, positive, List.getElem?_eq_getElem inside⟩

/-- Where one map leads, another one leads on. -/
theorem Heap.Mapped.exists_further (mapped : h.Mapped σ h') (further : h'.Mapped τ h'') (member : b ∈ σ) : ∃ c, τ.Takes b c := by
  cases there : h'.get? b with
  | none => exact absurd member (mapped.not_mem there)
  | some o => exact further.exists_takes there

/-- What goes along both maps has gone along each of them. -/
theorem Heap.Mapped.exists_between (mapped : h.Mapped σ h') (further : h'.Mapped τ h'') (takes : (σ.andThen τ).Takes a c) :
    ∃ b, σ.Takes a b ∧ τ.Takes b c := by
  obtain ⟨some, found⟩ := takes
  rw [HeapMap.andThen, List.getElem?_map] at found
  obtain ⟨b, here, rfl⟩ := Option.map_eq_some_iff.mp found
  obtain ⟨c, onward⟩ := mapped.exists_further further (List.mem_of_getElem? here)
  refine ⟨b, ⟨some, here⟩, ?_⟩
  rwa [onward.2, Option.getD_some]

theorem Value.Mapped.andThen {u v w : Value} (first : u.Mapped σ v) (second : v.Mapped τ w) : u.Mapped (σ.andThen τ) w := by
  cases first with
  | ref takes =>
    obtain ⟨c, rfl, further⟩ := second.of_ref
    exact .ref (takes.andThen further)
  | plain none =>
    cases second with
    | ref takes => cases none
    | plain => exact .plain none

theorem Value.mapped_all_andThen {us vs ws : List Value} (first : List.Forall₂ (Value.Mapped σ) us vs)
    (second : List.Forall₂ (Value.Mapped τ) vs ws) : List.Forall₂ (Value.Mapped (σ.andThen τ)) us ws :=
  forall₂_trans (fun _ _ _ => .andThen) first second

theorem HeapObject.Mapped.andThen {o o' o'' : HeapObject} (first : o.Mapped σ o') (second : o'.Mapped τ o'') :
    o.Mapped (σ.andThen τ) o'' := by
  cases first with
  | boxed value => cases second with | boxed further => exact .boxed (value.andThen further)
  | array elements => cases second with | array further => exact .array (Value.mapped_all_andThen elements further)
  | string value => cases second; exact .string value
  | method token => cases second; exact .method token
  | type token => cases second; exact .type token
  | «instance» type => cases second; exact .instance type
  | exception typeName message => cases second; exact .exception typeName message

theorem Heap.Mapped.andThen (first : h.Mapped σ h') (second : h'.Mapped τ h'') : h.Mapped (σ.andThen τ) h'' where
  size := by rw [HeapMap.andThen, List.length_map, first.size]
  object takes := by
    obtain ⟨b, before, behind⟩ := first.exists_between second takes
    obtain ⟨o, o', here, there, same⟩ := first.object before
    obtain ⟨p, p', there', last, further⟩ := second.object behind
    obtain rfl : o' = p := Option.some.inj (there.symm.trans there')
    exact ⟨o, p', here, last, same.andThen further⟩
  nodup := by
    refine List.Nodup.map_on (fun b member c other same => ?_) first.nodup
    obtain ⟨b', takes⟩ := first.exists_further second member
    obtain ⟨c', takes'⟩ := first.exists_further second other
    rw [takes.2, takes'.2] at same
    obtain rfl : b' = c' := same
    exact takes.inj second.nodup takes'

theorem Outcome.Mapped.andThen {o o' o'' : Outcome} (first : o.Mapped σ o') (second : o'.Mapped τ o'') :
    o.Mapped (σ.andThen τ) o'' := by
  cases first with
  | returned value => cases second with | returned further => exact .returned (value.andThen further)
  | threw takes => cases second with | threw further => exact .threw (takes.andThen further)

theorem HostCall.Mapped.andThen {c d e : HostCall} (first : c.Mapped σ d) (second : d.Mapped τ e) : c.Mapped (σ.andThen τ) e :=
  ⟨second.method.trans first.method, Value.mapped_all_andThen first.arguments second.arguments⟩

theorem Visit.Mirrored.andThen {u v w : Visit} (first : u.Mirrored σ v) (second : v.Mirrored τ w) : u.Mirrored (σ.andThen τ) w :=
  ⟨second.place.trans first.place, Value.mapped_all_andThen first.stack second.stack,
    forall₂_trans (fun _ _ _ => .andThen) first.requests second.requests⟩

/-- Where objects stay where they are along both maps, they do so along both together. -/
theorem HeapMap.identity_andThen {size : Nat} (first : HeapMap.identity size <+: σ) (second : HeapMap.identity size <+: τ) :
    HeapMap.identity size <+: σ.andThen τ := by
  have stays : (HeapMap.identity size).map (fun b => τ[b.id - 1]?.getD b) = HeapMap.identity size := by
    refine List.map_congr_left (fun b member => ?_) |>.trans (List.map_id _)
    obtain ⟨n, inside, rfl⟩ := List.mem_map.mp member
    have own : (HeapMap.identity size)[n]? = some ⟨n + 1⟩ := by
      rw [identity, List.getElem?_map, List.getElem?_range (List.mem_range.mp inside)]
      rfl
    have takes : (HeapMap.identity size).Takes ⟨n + 1⟩ ⟨n + 1⟩ := ⟨Nat.succ_ne_zero n, own⟩
    rw [(takes.mono second).2]
    rfl
  obtain ⟨added, rfl⟩ := first
  unfold HeapMap.andThen
  rw [List.map_append, stays]
  exact List.prefix_append _ _

theorem Value.Mapped.unique {v w w' : Value} (mapped : v.Mapped σ w) (other : v.Mapped σ w') : w = w' := by
  cases mapped with
  | ref takes =>
    obtain ⟨c, rfl, takes'⟩ := other.of_ref
    rw [takes.unique takes']
  | plain none =>
    cases other with
    | ref takes => cases none
    | plain => rfl

theorem HostCall.Mapped.unique {c d d' : HostCall} (mapped : c.Mapped σ d) (other : c.Mapped σ d') : d = d' := by
  have arguments : d.arguments = d'.arguments :=
    List.right_unique_forall₂' (R := Value.Mapped σ) (fun _ _ _ => Value.Mapped.unique) mapped.arguments other.arguments
  cases d
  cases d'
  exact HostCall.mk.injEq .. |>.mpr ⟨mapped.method.trans other.method.symm, arguments⟩

/-! ### What hooks are called with -/

variable {start : Heap}

/-- An object that has not been there at the start goes to one that has not been there either. -/
theorem HeapMap.Takes.get?_eq_none (takes : τ.Takes a b) (nodup : τ.Nodup) (stays : HeapMap.identity start.size <+: τ)
    (missing : start.get? a = none) : start.get? b = none := by
  cases found : start.get? b with
  | none => rfl
  | some o =>
    have own : τ.Takes b b := (Heap.takes_identity_iff.mpr ⟨rfl, Option.isSome_of_eq_some found⟩).mono stays
    obtain rfl := takes.inj nodup own
    rw [missing] at found
    cases found

theorem Value.ToldAs.mapped {u u' v v' : Value} (told : v.ToldAs h u) (heap : h.Mapped τ h') (value : v.Mapped τ v')
    (same : u.Mapped τ u') : v'.ToldAs h' u' := by
  obtain rfl | ⟨r, rfl, box⟩ := told
  · exact .inl (same.unique value)
  · obtain ⟨r', rfl, takes⟩ := same.of_ref
    obtain ⟨o, o', here, there, object⟩ := heap.object takes
    cases here.symm.trans box
    cases object with
    | boxed inner =>
      obtain rfl := inner.unique value
      exact .inr ⟨r', rfl, there⟩

/-- What a value is told as is found in another heap. -/
theorem Value.ToldAs.exists_mapped {u v v' : Value} (told : v.ToldAs h u) (heap : h.Mapped τ h') (value : v.Mapped τ v') :
    ∃ u', u.Mapped τ u' := by
  obtain rfl | ⟨r, rfl, box⟩ := told
  · exact ⟨v', value⟩
  · obtain ⟨r', takes⟩ := heap.exists_takes box
    exact ⟨.ref r', .ref takes⟩

theorem Value.NewlyToldAs.mapped {u u' v : Value} (told : v.NewlyToldAs start h u) (has : start.Has v) (heap : h.Mapped τ h')
    (stays : HeapMap.identity start.size <+: τ) (same : u.Mapped τ u') : v.NewlyToldAs start h' u' := by
  have own : v.Mapped τ v := has.mapped.mono stays
  obtain rfl | ⟨r, rfl, missing, box⟩ := told
  · exact .inl (same.unique own)
  · obtain ⟨r', rfl, takes⟩ := same.of_ref
    obtain ⟨o, o', here, there, object⟩ := heap.object takes
    cases here.symm.trans box
    cases object with
    | boxed inner =>
      obtain rfl := inner.unique own
      exact .inr ⟨r', rfl, takes.get?_eq_none heap.nodup stays missing, there⟩

/-- What hooks have been called with is found in another heap. -/
theorem HookArguments.Tells.mapped {A : HookArguments} {type method : Token} {arguments : List Value}
    (tells : A.Tells type method start h arguments) (has : ∀ v ∈ arguments, start.Has v) (heap : h.Mapped τ h')
    (stays : HeapMap.identity start.size <+: τ) :
    ∃ A' : HookArguments, τ.Takes A.attr A'.attr ∧ τ.Takes A.method A'.method ∧ τ.Takes A.arguments A'.arguments ∧
      A'.Tells type method start h' arguments := by
  have follow : ∀ {r o}, h.get? r = some o → start.get? r = none →
      ∃ r' o', τ.Takes r r' ∧ start.get? r' = none ∧ h'.get? r' = some o' ∧ o.Mapped τ o' := by
    intro r o found missing
    obtain ⟨r', takes⟩ := heap.exists_takes found
    obtain ⟨p, p', here, there, object⟩ := heap.object takes
    cases here.symm.trans found
    exact ⟨r', p', takes, takes.get?_eq_none heap.nodup stays missing, there, object⟩
  obtain ⟨attr, _, first, new, made, object⟩ := follow tells.attr tells.fresh.1
  cases object
  obtain ⟨own, _, second, new', described, object⟩ := follow tells.method tells.fresh.2.1
  cases object
  obtain ⟨r, _, third, new'', array, object⟩ := follow tells.array tells.fresh.2.2
  cases object with
  | @array _ ys elements =>
    refine ⟨⟨attr, own, r, ys⟩, first, second, third, ⟨new, new', new''⟩, made, described, array, ?_⟩
    have both := (List.forall₂_and_left _ _).mpr ⟨has, tells.elements⟩
    exact forall₂_trans (fun _ _ _ told same => told.2.mapped told.1 heap stays same) both elements

end Maps

/-! ### Rings -/

/-- The two hooks that are called around old code: the decorator whose hooks they are, the type of its attribute, what they
    are called with, and what the one behind the code is told as the result. -/
structure Ring where
  kind : DecoratorKind
  type : Token
  given : HookArguments
  told : Value

/-- What a call is about: its method, whether that gives no result, the arguments that hooks are told, and the size of the
    code that is old. -/
structure Subject where
  method : Token
  void : Bool
  arguments : List Value
  size : Nat

namespace Ring

/-- The call before the old code. -/
def opening (ring : Ring) : HostCall :=
  ⟨ring.kind.onEntry, [.ref ring.given.attr, .ref ring.given.method, .ref ring.given.arguments]⟩

/-- The call behind the old code. -/
def closing (ring : Ring) : Outcome → HostCall
  | .returned _ => ⟨ring.kind.onExit, [.ref ring.given.attr, ring.told, .ref ring.given.method, .ref ring.given.arguments]⟩
  | .threw x => ⟨ring.kind.onException, [.ref ring.given.attr, .ref x, .ref ring.given.method, .ref ring.given.arguments]⟩

/-- The hooks get a new object of the attribute, a description of the method and its arguments, and are told the result. -/
structure Tells (ring : Ring) (subject : Subject) (h h' : Heap) (o : Outcome) : Prop where
  given : ring.given.Tells ring.type subject.method h h' subject.arguments
  told : ∀ v, o = .returned v → (if subject.void then .null else v).ToldAs h' ring.told

/-- The hooks of a ring and those of another one, which is the same along a map. -/
structure Follows (σ : HeapMap) (ring ring' : Ring) (o o' : Outcome) : Prop where
  kind : ring'.kind = ring.kind
  type : ring'.type = ring.type
  opening : ring.opening.Mapped σ ring'.opening
  closing : (ring.closing o).Mapped σ (ring'.closing o')

/-- A ring is found in another heap. -/
theorem Tells.mapped {ring : Ring} {subject : Subject} {start h h' : Heap} {o o' : Outcome} {τ : HeapMap}
    (tells : ring.Tells subject start h o) (has : ∀ v ∈ subject.arguments, start.Has v) (heap : h.Mapped τ h')
    (outcome : o.Mapped τ o') (stays : HeapMap.identity start.size <+: τ) :
    ∃ ring' : Ring, Follows τ ring ring' o o' ∧ ring'.Tells subject start h' o' := by
  obtain ⟨A, attr, method, array, given⟩ := tells.given.mapped has heap stays
  have opening : ring.opening.Mapped τ ⟨ring.kind.onEntry, [.ref A.attr, .ref A.method, .ref A.arguments]⟩ :=
    ⟨rfl, .cons (.ref attr) (.cons (.ref method) (.cons (.ref array) .nil))⟩
  cases outcome with
  | @returned v v' value =>
    have result : (if subject.void then .null else v).Mapped τ (if subject.void then .null else v') := by
      split
      · exact Value.mapped_null
      · exact value
    obtain ⟨told, same⟩ := (tells.told v rfl).exists_mapped heap result
    refine ⟨⟨ring.kind, ring.type, A, told⟩, ⟨rfl, rfl, opening, rfl, ?_⟩, given, ?_⟩
    · exact .cons (.ref attr) (.cons same (.cons (.ref method) (.cons (.ref array) .nil)))
    · rintro _ ⟨⟩
      exact (tells.told v rfl).mapped heap result same
  | threw takes =>
    refine ⟨⟨ring.kind, ring.type, A, .null⟩, ⟨rfl, rfl, opening, rfl, ?_⟩, given, nofun⟩
    exact .cons (.ref attr) (.cons (.ref takes) (.cons (.ref method) (.cons (.ref array) .nil)))

end Ring

/-! ### Courses inside rings -/

/-- A course does what another one does, inside the calls of hooks of some rings, the first of which is the innermost. -/
structure Course.Nests (subject : Subject) (σ : HeapMap) (rings : List Ring) (c c' : Course) : Prop where
  start : c'.start = c.start
  grows : HeapMap.identity c.start.heap.size <+: σ
  heap : c.finish.heap.Mapped σ c'.finish.heap
  outcome : c.outcome.Mapped σ c'.outcome
  tells : ∀ ring ∈ rings, ring.Tells subject c.start.heap c'.finish.heap c'.outcome
  calls : ∃ before old behind, c'.visits = before ++ old ++ behind ∧
    (∀ v ∈ visitsAt 0 (before ++ behind), subject.size ≤ v.frame.place.index) ∧
    (visitsAt 0 before).flatMap (·.requests) = rings.reverse.map (·.opening) ∧
    (visitsAt 0 behind).flatMap (·.requests) = rings.map (·.closing c'.outcome) ∧
    List.Forall₂ (Visit.Mirrored σ) (visitsAt 0 c.visits) (visitsAt 0 old)

section Nests

variable {subject : Subject} {σ τ : HeapMap} {rings rings' : List Ring} {c c₁ c₂ : Course} {level : Nat}
  {first second visits : List Visit}

/-- Visits that mirror two parts of others are in two parts. -/
theorem exists_visits_append (mirrored : List.Forall₂ (Visit.Mirrored σ) (visitsAt level (first ++ second)) (visitsAt level visits)) :
    ∃ front back, visits = front ++ back ∧ List.Forall₂ (Visit.Mirrored σ) (visitsAt level first) (visitsAt level front) ∧
      List.Forall₂ (Visit.Mirrored σ) (visitsAt level second) (visitsAt level back) := by
  rw [visitsAt_append] at mirrored
  have front := List.forall₂_take_append _ _ _ mirrored.flip
  have back := List.forall₂_drop_append _ _ _ mirrored.flip
  obtain ⟨x, y, rfl, here, there⟩ :=
    List.filter_eq_append_iff.mp (List.take_append_drop (visitsAt level first).length (visitsAt level visits)).symm
  rw [← here] at front
  rw [← there] at back
  exact ⟨x, y, rfl, front.flip, back.flip⟩

theorem requests_mapped (mirrored : List.Forall₂ (Visit.Mirrored σ) first second) :
    List.Forall₂ (HostCall.Mapped σ) (first.flatMap (·.requests)) (second.flatMap (·.requests)) :=
  List.rel_flatMap mirrored fun _ _ here => here.requests

/-- A course inside rings around a course inside rings is one inside all of them. -/
theorem Course.Nests.around (inner : c.Nests subject σ rings c₁) (outer : c₁.Nests subject τ rings' c₂)
    (has : ∀ v ∈ subject.arguments, c.start.heap.Has v) :
    ∃ rings₁ : List Ring, List.Forall₂ (fun ring ring' => ring'.kind = ring.kind ∧ ring'.type = ring.type) rings rings₁ ∧
      c.Nests subject (σ.andThen τ) (rings₁ ++ rings') c₂ := by
  have stays : HeapMap.identity c.start.heap.size <+: τ := inner.start ▸ outer.grows
  obtain ⟨rings₁, follow⟩ : ∃ rings₁, List.Forall₂ (fun ring ring' => Ring.Follows τ ring ring' c₁.outcome c₂.outcome ∧
      ring'.Tells subject c.start.heap c₂.finish.heap c₂.outcome) rings rings₁ :=
    exists_forall₂ fun ring member => (inner.tells ring member).mapped has outer.heap outer.outcome stays
  obtain ⟨before, old, behind, whole, added, opening, closing, along⟩ := inner.calls
  obtain ⟨before', old', behind', whole', added', opening', closing', along'⟩ := outer.calls
  rw [whole] at along'
  obtain ⟨rest, back, rfl, along', later⟩ := exists_visits_append along'
  obtain ⟨front, middle, rfl, first, along'⟩ := exists_visits_append along'
  have opens : (visitsAt 0 front).flatMap (·.requests) = rings₁.reverse.map (·.opening) := by
    refine List.right_unique_forall₂' (R := HostCall.Mapped τ) (fun _ _ _ => HostCall.Mapped.unique) (requests_mapped first) ?_
    rw [opening]
    refine List.forall₂_map_left_iff.mpr (List.forall₂_map_right_iff.mpr ?_)
    exact (List.forall₂_reverse_iff.mpr follow).imp fun _ _ here => here.1.opening
  have closes : (visitsAt 0 back).flatMap (·.requests) = rings₁.map (·.closing c₂.outcome) := by
    refine List.right_unique_forall₂' (R := HostCall.Mapped τ) (fun _ _ _ => HostCall.Mapped.unique) (requests_mapped later) ?_
    rw [closing]
    exact List.forall₂_map_left_iff.mpr (List.forall₂_map_right_iff.mpr (follow.imp fun _ _ here => here.1.closing))
  refine ⟨rings₁, follow.imp fun _ _ here => ⟨here.1.kind, here.1.type⟩, {
    start := outer.start.trans inner.start
    grows := HeapMap.identity_andThen inner.grows stays
    heap := inner.heap.andThen outer.heap
    outcome := inner.outcome.andThen outer.outcome
    tells := fun ring member => ?_
    calls := ⟨before' ++ front, middle, back ++ behind', by simp [whole'], fun v member => ?_, ?_, ?_,
      forall₂_trans (fun _ _ _ => .andThen) along along'⟩ }⟩
  · rcases List.mem_append.mp member with own | others
    · obtain ⟨ring', -, follows, tells⟩ := exists_paired_left follow ring own
      exact tells
    · exact inner.start ▸ outer.tells ring others
  · have mirrors : ∀ {x y}, List.Forall₂ (Visit.Mirrored τ) (visitsAt 0 x) (visitsAt 0 y) →
        (∀ u ∈ visitsAt 0 x, subject.size ≤ u.frame.place.index) → ∀ u ∈ visitsAt 0 y, subject.size ≤ u.frame.place.index := by
      intro x y mirrored behind u listed
      obtain ⟨u', own, same⟩ := exists_paired_left mirrored u listed
      exact same.place ▸ behind u' own
    simp only [visitsAt_append, List.mem_append] at member added added'
    rcases member with (first' | front) | back | last
    · exact added' v (.inl first')
    · exact mirrors first (fun u listed => added u (.inl listed)) v front
    · exact mirrors later (fun u listed => added u (.inr listed)) v back
    · exact added' v (.inr last)
  · rw [visitsAt_append, List.flatMap_append, opening', opens, List.reverse_append, List.map_append]
  · rw [visitsAt_append, List.flatMap_append, closing', closes, List.map_append]

/-- A course that repeats another one does so inside one ring. -/
theorem Decor.Repeats.nests {δ : Decor} {m : Module} {arguments : List Value} {A : HookArguments} {calls : List HostCall}
    {kind : DecoratorKind} {size : Nat} (repeats : δ.Repeats m (.identity c.start.heap.size) σ arguments A calls c c₁)
    (started : c₁.start = c.start) (onEntry : δ.weave.plan.onEntry = kind.onEntry) (onExit : δ.weave.plan.onExit = kind.onExit)
    (onException : δ.weave.plan.onException = kind.onException) (old : size ≤ δ.weave.old.code.size)
    (handles : ∀ x, c₁.outcome = .threw x → isInstance m c₁.finish.heap x δ.weave.plan.exception = .ok true) :
    ∃ told, c.Nests ⟨δ.weave.method, δ.weave.plan.result.isVoid, arguments, size⟩ σ [⟨kind, δ.type, A, told⟩] c₁ := by
  obtain ⟨told, closing, tells⟩ : ∃ told, calls = [Ring.closing ⟨kind, δ.type, A, told⟩ c₁.outcome] ∧
      ∀ v, c₁.outcome = .returned v → (if δ.weave.plan.result.isVoid then .null else v).ToldAs c₁.finish.heap told := by
    have closes := repeats.closes
    cases ended : c₁.outcome with
    | returned v =>
      rw [ended] at closes
      obtain ⟨u, rfl, told⟩ := closes
      refine ⟨u, by rw [Decor.exitCall, onExit]; rfl, ?_⟩
      rintro _ ⟨⟩
      exact told
    | threw x =>
      rw [ended] at closes
      obtain ⟨is, decided, rfl⟩ := closes
      obtain rfl : is = true := Except.ok.inj (decided.symm.trans (handles x ended))
      exact ⟨.null, by rw [if_pos rfl, Decor.exceptionCall, onException]; rfl, nofun⟩
  obtain ⟨before, middle, behind, whole, opens, closes, along⟩ := repeats.encloses
  refine ⟨told, started, repeats.grows, repeats.heap, repeats.outcome, fun ring member => ?_, before, middle, behind, whole, fun v member => ?_,
    ?_, ?_, along⟩
  · obtain rfl := List.mem_singleton.mp member
    exact ⟨started ▸ repeats.tells, tells⟩
  · rw [visitsAt_append] at member
    exact Nat.le_trans old ((List.mem_append.mp member).elim (opens.added v) (closes.added v))
  · rw [opens.requests, Decor.entryCall, onEntry]
    rfl
  · rw [closes.requests, closing]
    rfl

end Nests

end AspectWeaving

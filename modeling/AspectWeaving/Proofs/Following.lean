import AspectWeaving.Proofs.HeapMaps

/-!
Computations that follow one another. A machine tracks another one if it makes the same objects along a map that
grows meanwhile, and leaves alone what further objects it has (`Machine.Tracks`). A computation follows another one
(`Running.Follows`) if, whenever that one succeeds or fails with a fault that the program sees, it does so as well
and tracks it; nothing is asked where the other one fails for good. A computation that only reads echoes another
one (`Running.Echoes`).
-/
namespace AspectWeaving

open Running (compute fail allocate modifyObject note callHost)

/-! ### Machines -/

/-- Calls of the host that are the same along a map. -/
structure HostCall.Mapped (σ : HeapMap) (c d : HostCall) : Prop where
  method : d.method = c.method
  arguments : List.Forall₂ (Value.Mapped σ) c.arguments d.arguments

/-- A machine goes from `t` to `t'`, until it has the objects of a heap along a map that has grown meanwhile. What further
    objects it had are as they were. -/
structure Machine.Shadows (σ τ : HeapMap) (h : Heap) (t t' : Machine) : Prop where
  grows : σ <+: τ
  heap : h.Mapped τ t'.heap
  spares : ∀ {r o}, r ∉ σ → t.heap.get? r = some o → r ∉ τ ∧ t'.heap.get? r = some o

/-- While a machine goes from `s` to `s'`, another one goes from `t` to `t'` and does the same. -/
structure Machine.Tracks (σ τ : HeapMap) (s s' t t' : Machine) : Prop extends Machine.Shadows σ τ s'.heap t t' where
  calls : ∃ made made', s'.hostCalls.toList = s.hostCalls.toList ++ made ∧
    t'.hostCalls.toList = t.hostCalls.toList ++ made' ∧ List.Forall₂ (HostCall.Mapped τ) made made'

namespace Machine

variable {σ τ υ : HeapMap} {s s' s'' t t' t'' : Machine} {h h' : Heap}

theorem Shadows.refl (mapped : h.Mapped σ t.heap) : Machine.Shadows σ σ h t t :=
  ⟨List.prefix_refl σ, mapped, fun outside found => ⟨outside, found⟩⟩

theorem Shadows.trans (first : Machine.Shadows σ τ h t t') (second : Machine.Shadows τ υ h' t' t'') :
    Machine.Shadows σ υ h' t t'' :=
  ⟨first.grows.trans second.grows, second.heap, fun outside found =>
    have kept := first.spares outside found
    second.spares kept.1 kept.2⟩

theorem Tracks.refl (mapped : s.heap.Mapped σ t.heap) : Machine.Tracks σ σ s s t t :=
  ⟨.refl mapped, [], [], by simp, by simp, .nil⟩

theorem Tracks.trans (first : Machine.Tracks σ τ s s' t t') (second : Machine.Tracks τ υ s' s'' t' t'') :
    Machine.Tracks σ υ s s'' t t'' where
  toShadows := first.toShadows.trans second.toShadows
  calls := by
    obtain ⟨made, made', here, there, same⟩ := first.calls
    obtain ⟨more, more', behind, beside, alike⟩ := second.calls
    refine ⟨made ++ more, made' ++ more', by rw [behind, here, List.append_assoc],
      by rw [beside, there, List.append_assoc], ?_⟩
    exact List.rel_append (same.imp fun _ _ both =>
      ⟨both.method, Value.mapped_all_mono both.arguments second.grows⟩) alike

/-- Counts and notes do not matter. -/
theorem Tracks.of_heaps (mapped : s'.heap.Mapped σ t'.heap) (own : s'.hostCalls = s.hostCalls) (other : t'.hostCalls = t.hostCalls)
    (spares : ∀ {r o}, r ∉ σ → t.heap.get? r = some o → t'.heap.get? r = some o) : Machine.Tracks σ σ s s' t t' :=
  ⟨⟨List.prefix_refl σ, mapped, fun outside found => ⟨outside, spares outside found⟩⟩, [], [], by simp [own],
    by simp [other], .nil⟩

end Machine

/-! ### Computations -/

namespace Running

variable {α β γ δ : Type}

/-- What a computation and another one that follows it come to. -/
inductive Tracked (σ : HeapMap) (R : HeapMap → α → β → Prop) (s t : Machine) :
    EStateM.Result Fault Machine α → EStateM.Result Fault Machine β → Prop
  | ok {τ : HeapMap} {a : α} {b : β} {s' t' : Machine} (tracks : Machine.Tracks σ τ s s' t t') (both : R τ a b) :
    Tracked σ R s t (.ok a s') (.ok b t')
  | error {τ : HeapMap} {fault : Fault} {s' t' : Machine} (tracks : Machine.Tracks σ τ s s' t t') :
    Tracked σ R s t (.error fault s') (.error fault t')
  | fatal {fault : Fault} {s' : Machine} {r : EStateM.Result Fault Machine β} (unseen : fault.exceptionName? = none) :
    Tracked σ R s t (.error fault s') r

/-- A computation does what another one does, along a map. -/
def Follows (σ : HeapMap) (R : HeapMap → α → β → Prop) (x : Running α) (y : Running β) : Prop :=
  ∀ s t, s.heap.Mapped σ t.heap → Tracked σ R s t (x s) (y t)

/-- A computation that changes nothing gives what another one gives, along a map. -/
inductive Echoed (P : α → β → Prop) (s t : Machine) :
    EStateM.Result Fault Machine α → EStateM.Result Fault Machine β → Prop
  | ok {a : α} {b : β} (both : P a b) : Echoed P s t (.ok a s) (.ok b t)
  | error {fault : Fault} : Echoed P s t (.error fault s) (.error fault t)
  | fatal {fault : Fault} {s' : Machine} {r : EStateM.Result Fault Machine β} (unseen : fault.exceptionName? = none) :
    Echoed P s t (.error fault s') r

/-- A computation that changes nothing reads what another one reads, along a map. -/
def Echoes (σ : HeapMap) (P : α → β → Prop) (x : Running α) (y : Running β) : Prop :=
  ∀ s t, s.heap.Mapped σ t.heap → Echoed P s t (x s) (y t)

section Follows

variable {σ : HeapMap} {R : HeapMap → α → β → Prop} {S : HeapMap → γ → δ → Prop} {P : α → β → Prop} {Q : γ → δ → Prop}
  {x : Running α} {y : Running β} {f : α → Running γ} {g : β → Running δ}

theorem Follows.pure {a : α} {b : β} (both : R σ a b) : Follows σ R (pure a) (pure b) :=
  fun _ _ mapped => .ok (.refl mapped) both

theorem Follows.fatal {fault : Fault} (unseen : fault.exceptionName? = none) (y : Running β) :
    Follows σ R (throw fault) y := fun _ _ _ => .fatal unseen

theorem Follows.unseen {cause : ExecutionFault} (unseen : cause.exceptionName? = none) (y : Running β) :
    Follows σ R (fail cause) y := .fatal (show (Fault.execution cause).exceptionName? = none from unseen) y

theorem Follows.throw (fault : Fault) : Follows σ R (throw fault) (throw fault) :=
  fun _ _ mapped => .error (.refl mapped)

theorem Follows.fail (cause : ExecutionFault) : Follows σ R (fail cause) (fail cause) := .throw _

theorem Follows.bind (first : Follows σ R x y) (second : ∀ τ a b, σ <+: τ → R τ a b → Follows τ S (f a) (g b)) :
    Follows σ S (x >>= f) (y >>= g) := by
  intro s t mapped
  have start := first s t mapped
  change Tracked σ S s t (EStateM.bind x f s) (EStateM.bind y g t)
  unfold EStateM.bind
  generalize x s = r, y t = r' at start
  cases start with
  | ok tracks both =>
    rename_i τ a b s' t'
    have rest := second τ a b tracks.grows both s' t' tracks.heap
    dsimp only
    generalize f a s' = q, g b t' = q' at rest
    cases rest with
    | ok onward both => exact .ok (tracks.trans onward) both
    | error onward => exact .error (tracks.trans onward)
    | fatal unseen => exact .fatal unseen
  | error tracks => exact .error tracks
  | fatal unseen => exact .fatal unseen

theorem Echoes.pure {a : α} {b : β} (both : P a b) : Echoes σ P (pure a) (pure b) := fun _ _ _ => .ok both

theorem Echoes.fatal {fault : Fault} (unseen : fault.exceptionName? = none) (y : Running β) :
    Echoes σ P (throw fault) y := fun _ _ _ => .fatal unseen

theorem Echoes.unseen {cause : ExecutionFault} (unseen : cause.exceptionName? = none) (y : Running β) :
    Echoes σ P (fail cause) y := .fatal (show (Fault.execution cause).exceptionName? = none from unseen) y

theorem Echoes.throw (fault : Fault) : Echoes σ P (throw fault) (throw fault) := fun _ _ _ => .error

theorem Echoes.fail (cause : ExecutionFault) : Echoes σ P (fail cause) (fail cause) := .throw _

theorem Echoes.heap : Echoes σ (Heap.Mapped σ) Running.heap Running.heap := fun _ _ mapped => .ok mapped

theorem Echoes.bind (first : Echoes σ P x y) (second : ∀ a b, P a b → Echoes σ Q (f a) (g b)) :
    Echoes σ Q (x >>= f) (y >>= g) := by
  intro s t mapped
  have start := first s t mapped
  change Echoed Q s t (EStateM.bind x f s) (EStateM.bind y g t)
  unfold EStateM.bind
  generalize x s = r, y t = r' at start
  cases start with
  | ok both => exact second _ _ both s t mapped
  | error => exact .error
  | fatal unseen => exact .fatal unseen

/-- What is read is used. -/
theorem Echoes.follows (first : Echoes σ P x y) (second : ∀ a b, P a b → Follows σ S (f a) (g b)) :
    Follows σ S (x >>= f) (y >>= g) := by
  intro s t mapped
  have start := first s t mapped
  change Tracked σ S s t (EStateM.bind x f s) (EStateM.bind y g t)
  unfold EStateM.bind
  generalize x s = r, y t = r' at start
  cases start with
  | ok both => exact second _ _ both s t mapped
  | error => exact .error (.refl mapped)
  | fatal unseen => exact .fatal unseen

/-! ### Results that are computed -/

/-- Two results that are the same along a map; nothing is asked where the first is a fault that ends the run. -/
inductive Computed (P : α → β → Prop) : Except ExecutionFault α → Except ExecutionFault β → Prop
  | ok {a : α} {b : β} (both : P a b) : Computed P (.ok a) (.ok b)
  | error {cause : ExecutionFault} : Computed P (.error cause) (.error cause)
  | fatal {cause : ExecutionFault} {e : Except ExecutionFault β} (unseen : cause.exceptionName? = none) :
    Computed P (.error cause) e

variable {e : Except ExecutionFault α} {e' : Except ExecutionFault β}

theorem Computed.self {P : α → α → Prop} {e e' : Except ExecutionFault α} (same : e' = e) (holds : ∀ a, e = .ok a → P a a) :
    Computed P e e' := by
  subst same
  cases e' with
  | ok a => exact .ok (holds a rfl)
  | error cause => exact .error

theorem Computed.bind {c : α → Except ExecutionFault γ} {d : β → Except ExecutionFault δ} (first : Computed P e e')
    (second : ∀ a b, P a b → Computed Q (c a) (d b)) : Computed Q (e >>= c) (e' >>= d) := by
  cases first with
  | ok both => exact second _ _ both
  | error => exact .error
  | fatal unseen => exact .fatal unseen

theorem Computed.map {c : α → γ} {d : β → δ} (first : Computed P e e') (second : ∀ a b, P a b → Q (c a) (d b)) :
    Computed Q (e.map c) (e'.map d) := by
  cases first with
  | ok both => exact .ok (second _ _ both)
  | error => exact .error
  | fatal unseen => exact .fatal unseen

theorem Computed.echoes (computed : Computed P e e') : Echoes σ P (compute e) (compute e') := by
  cases computed with
  | ok both => exact .pure both
  | error => exact .throw _
  | fatal unseen => exact .unseen unseen _

end Follows

/-! ### Objects -/

section Objects

variable {σ : HeapMap} {o o' : HeapObject}

theorem follows_allocate (object : o.Mapped σ o') : Follows σ HeapMap.Takes (allocate o) (allocate o') := by
  intro s t mapped
  have pushed := mapped.push object
  refine show Tracked σ _ s t (.ok _ { s with heap := s.heap.push o }) (.ok _ { t with heap := t.heap.push o' }) from
    .ok ⟨⟨List.prefix_append _ _, pushed, fun {r p} outside found => ⟨?_, Heap.get?_push found o'⟩⟩, [], [], by simp, by simp, .nil⟩
    mapped.takes_nextRef
  have other : r ≠ t.heap.nextRef := by
    rintro rfl
    rw [Heap.get?_nextRef_eq_none] at found
    cases found
  simp [outside, other]

theorem follows_modifyObject {a b : HeapRef} (takes : σ.Takes a b) {f g : HeapObject → HeapObject}
    (both : ∀ o o', o.Mapped σ o' → (f o).Mapped σ (g o')) :
    Follows σ (fun _ _ _ => True) (modifyObject a f) (modifyObject b g) := by
  intro s t mapped
  refine show Tracked σ _ s t (.ok _ { s with heap := s.heap.modify a f }) (.ok _ { t with heap := t.heap.modify b g }) from
    .ok (.of_heaps (mapped.modify takes both) rfl rfl fun {r o} outside found => ?_) trivial
  have other : r ≠ b := fun same => outside (same ▸ takes.mem)
  exact (Heap.get?_modify_of_ne other g).trans found

theorem follows_note (event event' : TraceEvent) : Follows σ (fun _ _ _ => True) (note event) (note event') :=
  fun _ _ mapped => .ok (.of_heaps mapped rfl rfl fun _ found => found) trivial

end Objects

end Running

end AspectWeaving

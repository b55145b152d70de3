import AspectWeaving.Proofs.Tandem

/-!
Runs in tandem. A run of the first of two programs up to its end is mirrored by a run of the second one
(`Tandem.Sound.run`): until the frame at the bottom returns or an exception leaves it, the same instructions are executed
at the bottom, with the same values and the same calls of the host along a map (`Visit.Mirrored`). What the woven code of
frames above does stays above.
-/
namespace AspectWeaving

open Running (compute)

/-! ### Visits -/

/-- The same instruction is executed, with the same values and the same calls of the host along a map. -/
structure Visit.Mirrored (τ : HeapMap) (v w : Visit) : Prop where
  place : w.frame.place = v.frame.place
  stack : List.Forall₂ (Value.Mapped τ) v.frame.stack w.frame.stack
  requests : List.Forall₂ (HostCall.Mapped τ) v.requests w.requests

section Visits

variable {σ τ : HeapMap} {s s' t t' : Machine} {v w : Visit} {i j : Instruction} {level : Nat}

theorem HostCall.Mapped.mono {c d : HostCall} (mapped : c.Mapped σ d) (grows : σ <+: τ) : c.Mapped τ d :=
  ⟨mapped.method, Value.mapped_all_mono mapped.arguments grows⟩

theorem Visit.Mirrored.mono (mirrored : v.Mirrored σ w) (grows : σ <+: τ) : v.Mirrored τ w :=
  ⟨mirrored.place, Value.mapped_all_mono mirrored.stack grows, mirrored.requests.imp fun _ _ here => here.mono grows⟩

theorem Machine.callsSince_eq {s t : Machine} {made : List HostCall} (whole : t.hostCalls.toList = s.hostCalls.toList ++ made) :
    t.callsSince s = made := by
  unfold Machine.callsSince
  rw [whole, ← Array.length_toList, List.drop_left]

/-- Calls of instructions that are the same but for the length of their encoding are named in the same way. -/
theorem Visit.requests_mapped (own : v.frame.activation.body.code.get? v.frame.place = some i)
    (other : w.frame.activation.body.code.get? w.frame.place = some j) (alike : i.Alike j)
    (calls : List.Forall₂ (HostCall.Mapped σ) v.calls w.calls) : List.Forall₂ (HostCall.Mapped σ) v.requests w.requests := by
  unfold Visit.requests
  rw [own, other]
  refine List.forall₂_map_left_iff.mpr (List.forall₂_map_right_iff.mpr (calls.imp fun c d same => ⟨?_, same.arguments⟩))
  simp only [Option.bind_some, same.method, alike.token?]

theorem visitsAt_append (level : Nat) (visits visits' : List Visit) :
    visitsAt level (visits ++ visits') = visitsAt level visits ++ visitsAt level visits' := List.filter_append ..

theorem visitsAt_above (level : Nat) {visits : List Visit} (above : ∀ v ∈ visits, level < v.callers.length) : visitsAt level visits = [] := by
  refine List.filter_eq_nil_iff.mpr fun v member => ?_
  have := above v member
  simp only [beq_iff_eq]
  omega

end Visits

namespace Tandem

variable {T : Tandem} {σ τ : HeapMap} {f g : Frame} {cs ds : List Frame} {s s' t t' : Machine} {h : Heap}
  {visits front visits' : List Visit} {o : Outcome} {r r' : Stage}

/-- While the first program has executed instructions, the second one has come along. -/
structure Along (T : Tandem) (σ τ : HeapMap) (h : Heap) (t t' : Machine) (visits visits' : List Visit) : Prop where
  shadows : Machine.Shadows σ τ h t t'
  visits : List.Forall₂ (Visit.Mirrored τ) (visitsAt 0 visits) (visitsAt T.base.length visits')
  above : ∀ v ∈ visits', T.base.length ≤ v.callers.length

/-- Where the first program comes to its end, the second one has come along up to a return of the frame at the bottom, or
    up to an exception that leaves it. -/
inductive Arrives (T : Tandem) (σ : HeapMap) (t : Machine) (visits : List Visit) (o : Outcome) (s' : Machine) (r : Stage) : Prop
  | returns {τ : HeapMap} {f g : Frame} {i : Instruction} {s t' : Machine} {front rest visits' : List Visit}
      (whole : visits = front ++ T.left.visit f [] s :: rest) (found : f.activation.body.code.get? f.place = some i)
      (ret : i.opcode = .ret) (onward : T.left.Leads (T.left.after f [] s) rest (.ok (.finished o) s'))
      (leads : T.right.Leads r visits' (.ok (.running g T.base) t')) (along : T.Along σ τ s.heap t t' front visits')
      (frame : f.Mirrored T.decor? τ t'.heap (some T.ends) T.bottom g) : Arrives T σ t visits o s' r
  | escapes {τ : HeapMap} {x y : HeapRef} {f g : Frame} {t' : Machine} {visits' : List Visit} (threw : o = .threw x)
      (leads : T.right.Leads r visits' (unwind T.right.module y (g :: T.base) t')) (along : T.Along σ τ s'.heap t t' visits visits')
      (takes : τ.Takes x y) (frame : f.Mirrored T.decor? τ t'.heap (some T.ends) T.bottom g)
      (declined : f.catch? T.left.module s'.heap x = .ok none) : Arrives T σ t visits o s' r

theorem Along.trans {υ : HeapMap} {h' : Heap} {t'' : Machine} {others others' : List Visit} (first : T.Along σ τ h t t' visits visits')
    (second : T.Along τ υ h' t' t'' others others') : T.Along σ υ h' t t'' (visits ++ others) (visits' ++ others') where
  shadows := first.shadows.trans second.shadows
  visits := by
    rw [visitsAt_append, visitsAt_append]
    exact List.rel_append (first.visits.imp fun _ _ here => here.mono second.shadows.grows) second.visits
  above v member := (List.mem_append.mp member).elim (first.above v) (second.above v)

theorem Arrives.prepend (arrives : T.Arrives τ t' visits o s' r') (leads : T.right.Leads r visits' r')
    (along : T.Along σ τ h t t' front visits') : T.Arrives σ t (front ++ visits) o s' r := by
  cases arrives with
  | returns whole found ret onward leads' along' frame =>
    exact .returns (by rw [whole, List.append_assoc]) found ret onward (leads.trans leads') (along.trans along') frame
  | escapes threw leads' along' takes frame declined =>
    exact .escapes threw (leads.trans leads') (along.trans along') takes frame declined

/-- The second program goes on above. -/
theorem Along.further {υ : HeapMap} {h' : Heap} {t'' : Machine} {more : List Visit} (along : T.Along σ τ h t t' visits visits')
    (above : ∀ v ∈ more, T.base.length < v.callers.length) (shadows : Machine.Shadows τ υ h' t' t'') :
    T.Along σ υ h' t t'' visits (visits' ++ more) := by
  have onward : T.Along τ υ h' t' t'' [] more := ⟨shadows, by rw [visitsAt_above _ above]; exact .nil, fun v member => Nat.le_of_lt (above v member)⟩
  simpa using along.trans onward

/-- What the first program has come to by an instruction, the second one has come to as well. -/
theorem Reaches.arrives {l r : Stage} (reaches : T.Reaches τ t' l r) (leads : T.left.Leads l visits (.ok (.finished o) s'))
    (start : T.right.Leads r' visits' r) (along : T.Along σ τ h t t' front visits')
    (running : ∀ {υ f g cs ds s t}, T.Mirrors υ t.heap (f :: cs) (g :: ds) → s.heap.Mapped υ t.heap → cs.length < T.left.limits.callDepth →
      T.left.Leads (.ok (.running f cs) s) visits (.ok (.finished o) s') → T.Arrives υ t visits o s' (.ok (.running g ds) t)) :
    T.Arrives σ t (front ++ visits) o s' r' := by
  cases reaches with
  | failed fault s => cases leads
  | running onward above shadows frames room =>
    exact (running frames shadows.heap room leads).prepend (start.trans onward) (along.further above shadows)
  | escapes onward above shadows takes frame declined =>
    cases leads
    rw [List.append_nil]
    exact .escapes rfl (start.trans onward) (along.further above shadows) takes frame declined

/-- An instruction above the bottom. -/
theorem Along.inside (frames : T.Mirrors σ t.heap (f :: cs) (g :: ds)) (shadows : Machine.Shadows σ τ h t t') (above : cs ≠ []) :
    T.Along σ τ h t t' [T.left.visit f cs s] [T.right.visit g ds t] := by
  have deeper : T.base.length < ds.length := by
    have length := frames.length_eq.1
    have := List.length_pos_of_ne_nil above
    simp only [List.length_cons] at length
    omega
  refine ⟨shadows, ?_, fun v member => ?_⟩
  · rw [visitsAt_above 0, visitsAt_above T.base.length]
    · exact .nil
    · rintro v member
      obtain rfl := List.mem_singleton.mp member
      exact deeper
    · rintro v member
      obtain rfl := List.mem_singleton.mp member
      exact List.length_pos_of_ne_nil above
  · obtain rfl := List.mem_singleton.mp member
    exact Nat.le_of_lt deeper

/-- An instruction at the bottom. -/
theorem Along.bottom (frames : T.Mirrors σ t.heap [f] (g :: ds)) {i : Instruction}
    (found : f.activation.body.code.get? f.place = some i) (stays : i.opcode ≠ .ret) (shadows : Machine.Shadows σ τ h t t')
    (calls : List.Forall₂ (HostCall.Mapped τ) (T.left.visit f [] s).calls (T.right.visit g ds t).calls) :
    T.Along σ τ h t t' [T.left.visit f [] s] [T.right.visit g ds t] := by
  obtain ⟨ends?, k, frame⟩ := frames.top
  obtain ⟨j, there, alike⟩ := frame.housed.houses.instruction found
  rw [Instruction.redirected_of_ne stays] at alike
  rw [← frame.housed.place] at there
  have mirrored : (T.left.visit f [] s).Mirrored τ (T.right.visit g ds t) :=
    ⟨frame.housed.place, Value.mapped_all_mono frame.housed.values.stack shadows.grows, Visit.requests_mapped found there alike calls⟩
  have level : ds.length = T.base.length := by
    have := frames.length_eq.1
    simp only [List.length_cons, List.length_nil] at this
    omega
  refine ⟨shadows, ?_, fun v member => ?_⟩
  · simp only [visitsAt, Program.visit, List.filter_cons, level, List.length_nil, beq_self_eq_true, if_true, List.filter_nil]
    exact .cons mirrored .nil
  · obtain rfl := List.mem_singleton.mp member
    exact Nat.le_of_eq level.symm

/-- A run of the first program to its end is mirrored by one of the second program. -/
theorem Sound.run (sound : T.Sound) (frames : T.Mirrors σ t.heap (f :: cs) (g :: ds)) (mapped : s.heap.Mapped σ t.heap)
    (room : cs.length < T.left.limits.callDepth) (leads : T.left.Leads (.ok (.running f cs) s) visits (.ok (.finished o) s')) :
    T.Arrives σ t visits o s' (.ok (.running g ds) t) := by
  induction visits generalizing σ f cs g ds s t with
  | nil => cases leads
  | cons v visits ih =>
    obtain - | ⟨rest⟩ := leads
    cases found : f.activation.body.code.get? f.place with
    | none =>
      have failed : T.left.after f cs s = .error (.execution .invalidBranchTarget) s.counted := advance_of_missing found _
      rw [failed] at rest
      cases rest
    | some i =>
      have first := T.right.leads_after g ds t
      by_cases ret : i.opcode = .ret
      · by_cases bottom : cs = []
        · subst bottom
          cases frames with
          | last frame => exact .returns (List.nil_append _).symm found ret rest (.stay _) ⟨.refl mapped, .nil, nofun⟩ frame
          | above k frame below => exact absurd below.length_eq.2 (Nat.lt_irrefl 0)
        · exact (sound.returns frames mapped room bottom found ret).arrives rest first (.inside frames (.refl mapped) bottom) ih
      · -- The instruction does the same in both programs.
        generalize stage : T.left.after f cs s = l at rest
        generalize stage' : T.right.after g ds t = r at first
        have steps := sound.step frames mapped room found ret
        rw [stage, stage'] at steps
        cases steps with
        | failed => cases rest
        | @goes τ s₁ t₁ l r tracks reaches own other =>
          obtain ⟨made, made', here, there, same⟩ := tracks.calls
          have calls : List.Forall₂ (HostCall.Mapped τ) (T.left.visit f cs s).calls (T.right.visit g ds t).calls := by
            unfold Program.visit
            rw [stage, stage', Machine.callsSince_eq ((congrArg _ own).trans here), Machine.callsSince_eq ((congrArg _ other).trans there)]
            exact same
          have along : T.Along σ τ s₁.heap t t₁ [T.left.visit f cs s] [T.right.visit g ds t] := by
            by_cases bottom : cs = []
            · subst bottom
              exact .bottom frames found ret tracks.toShadows calls
            · exact .inside frames tracks.toShadows bottom
          exact reaches.arrives rest first along ih

end Tandem

end AspectWeaving

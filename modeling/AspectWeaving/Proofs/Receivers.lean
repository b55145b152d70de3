import AspectWeaving.Proofs.LookupSteps
import AspectWeaving.Proofs.Passages

/-!
Receivers. An activation of a body with a layer looks the attribute of the layer up before it calls a hook, and
keeps it in its slot and, while a hook is being called, on the stack (`Serves`). So a hook is called on an object
that the activation has made of the attribute that is found first (`Weave.Site.actsOn`).
-/
namespace AspectWeaving

/-- A place that nothing relies on what is done at. -/
structure Weave.Apart (w : Weave) (place : Handle) : Prop where
  looking : ∀ n < 12, place ≠ ⟨w.old.code.size + n⟩
  loading : ∀ hook, ∀ n ≤ (w.passage hook).loads.length, place ≠ ⟨(w.passage hook).start + n⟩

/-- A frame at an instruction: what is looked up or loaded is there. -/
structure Weave.Standing (w : Weave) (made : HeapRef → Prop) (type : Token) (h : Heap) (f : Frame) : Prop where
  attr : ∃ v, f.slot w.slots.attr.toNat = .ok v ∧ Held made type h v
  looking : ∀ {n}, n ≤ 12 → f.place = ⟨w.old.code.size + n⟩ → w.Looking made type h f n
  loaded : ∀ {hook n}, n ≤ (w.passage hook).loads.length → f.place = ⟨(w.passage hook).start + (n + 1)⟩ →
    ∃ v, f.stack[(w.passage hook).depth n]? = some v ∧ Held made type h v

/-- A frame that has called something: if it looks the attributes up, they are being made. -/
structure Weave.Paused (w : Weave) (made : HeapRef → Prop) (type : Token) (h : Heap) (f : Frame) (pending : List Pending) :
    Prop where
  attr : ∃ v, f.slot w.slots.attr.toNat = .ok v ∧ Held made type h v
  gathers : f.place = w.lookupCall → ∃ v, Gathers v pending ∧ Held made type h v
  apart : f.place ≠ w.lookupCall → w.Apart f.place

/-- How far an activation of a body with a layer has got. -/
inductive Serves (w : Weave) (a : Activation) (cs : List Frame) (made : HeapRef → Prop) (type : Token)
    (visits : List Visit) : Stage → Prop
  | top {f : Frame} {s : Machine} (activation : f.activation = a) (standing : w.Standing made type s.heap f) :
      Serves w a cs made type visits (.ok (.running f cs) s)
  | waiting {top c f : Frame} {callers : List Frame} (above : List Frame) {s : Machine} (whole : top :: callers = above ++ c :: f :: cs)
      (activation : f.activation = a) (paused : w.Paused made type s.heap f c.pending) :
      Serves w a cs made type visits (.ok (.running top callers) s)
  | finished {r : Stage} (closed : (∃ v ∈ visits, v.ends cs.length = true) ∨ r.Below cs.length) :
      Serves w a cs made type visits r

section Serves

open Instruction (loadSlot)

variable {p : Program} {w : Weave} {kind : DecoratorKind} {new : Body} {own : Attribute} {made : HeapRef → Prop}
  {type : Token} {a : Activation} {f g : Frame} {cs : List Frame} {visits : List Visit} {s t : Machine} {r : Stage}

/-- The slot of the attribute holds it, or nothing yet. -/
def Weave.Keeps (w : Weave) (made : HeapRef → Prop) (type : Token) (h : Heap) (f : Frame) : Prop :=
  ∃ v, f.slot w.slots.attr.toNat = .ok v ∧ Held made type h v

/-- Jumps and exceptions get to no place where something is looked up or loaded. -/
theorem Weave.Standing.of_outside {h : Heap} (attr : w.Keeps made type h f)
    (outside : ∀ hook, ¬ f.place.Inside (w.passage hook).first (w.passageRow hook).length) :
    w.Standing made type h f := by
  refine ⟨attr, fun {n} early place => ?_, fun {hook n} within place => ?_⟩
  · cases n with
    | zero => trivial
    | succ n =>
      refine absurd ?_ (outside .onEntry)
      have long := w.length_prologue
      rw [passageRow_onEntry, place]
      exact ⟨Nat.lt_add_of_pos_right (Nat.succ_pos n), by simp only [passage]; omega⟩
  · refine absurd ?_ (outside hook)
    have inside := w.passage_inside hook within
    rw [place]
    simp only [Handle.Inside, Passage.start]
    omega

/-- What is looked up or loaded at a place is there when control comes from the place before. -/
theorem Weave.Standing.of_next {h : Heap} {place : Handle} (layer : w.Layer new) (body : g.activation.body = new)
    (behind : g.activation.next g.place = .ok place) (attr : w.Keeps made type h g)
    (looking : ∀ n < 12, g.place = ⟨w.old.code.size + n⟩ → w.Looking made type h g (n + 1))
    (loaded : ∀ hook, ∀ n ≤ (w.passage hook).loads.length, g.place = ⟨(w.passage hook).start + n⟩ →
      ∃ v, g.stack[(w.passage hook).depth n]? = some v ∧ Held made type h v) :
    w.Standing made type h { g with place } := by
  obtain ⟨k, here, there⟩ := Activation.next_eq_ok behind
  rw [body] at here there
  refine ⟨attr, fun {n} early at_ => ?_, fun {hook n} within at_ => ?_⟩
  · cases n with
    | zero => trivial
    | succ n =>
      have long := w.length_prologue
      have stands := layer.prologue.before (k := k) (n := n) (by omega) (there.trans (congrArg some at_))
      have looks := looking n (by omega) (Option.some.inj (here.symm.trans stands))
      exact looks
  · have same : (⟨(w.passage hook).start + (n + 1)⟩ : Handle) =
        ⟨(w.passage hook).first + ((w.passage hook).front.length + n + 1)⟩ := by
      rw [Handle.eq_iff]
      simp only [Passage.start]
      omega
    have stands := (layer.seals hook).before (k := k) (n := (w.passage hook).front.length + n)
      (w.passage_inside hook within) (there.trans (congrArg some (at_.trans same)))
    refine loaded hook n within (Option.some.inj (here.symm.trans (stands.trans ?_)))
    rw [Passage.start, Nat.add_assoc]

/-- Control goes on behind an instruction. -/
theorem Serves.onward (layer : w.Layer new) (body : a.body = new) (activation : g.activation = a)
    (attr : w.Keeps made type t.heap g)
    (looking : ∀ n < 12, g.place = ⟨w.old.code.size + n⟩ → w.Looking made type t.heap g (n + 1))
    (loaded : ∀ hook, ∀ n ≤ (w.passage hook).loads.length, g.place = ⟨(w.passage hook).start + n⟩ →
      ∃ v, g.stack[(w.passage hook).depth n]? = some v ∧ Held made type t.heap v) :
    Serves w a cs made type visits (goAhead g cs t) := by
  rcases Program.goAhead_cases g cs t with ⟨fault, failed⟩ | ⟨place, behind, goes⟩
  · rw [failed]
    exact .finished (.inr (below_error _ _ _))
  · rw [goes]
    exact .top activation (.of_next layer (activation ▸ body) behind attr looking loaded)

theorem Serves.onward_apart (layer : w.Layer new) (body : a.body = new) (activation : g.activation = a)
    (attr : w.Keeps made type t.heap g) (apart : w.Apart g.place) : Serves w a cs made type visits (goAhead g cs t) :=
  .onward layer body activation attr (fun n early place => absurd place (apart.looking n early))
    fun hook n within place => absurd place (apart.loading hook n within)

/-- An exception is caught or leaves. -/
theorem Serves.unwound (layer : w.Layer new) (body : a.body = new) (activation : f.activation = a)
    (attr : w.Keeps made type t.heap f) (m : Module) (x : HeapRef) :
    Serves w a cs made type visits (unwind m x (f :: cs) t) := by
  rw [unwind_cons]
  split
  · rename_i handling caught
    obtain ⟨clause, index, active, member, rfl⟩ := Frame.catch?_eq_some caught
    rw [activation, body] at member
    exact .top activation (.of_outside attr fun hook inside => (layer.seals hook).handling member inside)
  · exact .finished (.inr (below_unwind m x cs t))
  · exact .finished (.inr (below_error _ _ _))

theorem Serves.faulted (layer : w.Layer new) (body : a.body = new) (activation : f.activation = a)
    (attr : w.Keeps made type r.machine.heap f) (faults : p.Faults f cs r) : Serves w a cs made type visits r := by
  rcases faults with ⟨fault, t, rfl⟩ | ⟨stack, x, t, rfl⟩
  · exact .finished (.inr (below_error _ _ _))
  · rw [machine_unwind] at attr
    exact .unwound layer body (f := { f with stack }) activation attr _ _

/-- A call is over, or a body is entered. -/
theorem Serves.settled (layer : w.Layer new) (body : a.body = new) (activation : f.activation = a)
    (attr : w.Keeps made type t.heap f) (apart : w.Apart f.place) (other : f.place ≠ w.lookupCall) (m : Module)
    (progress : Progress) : Serves w a cs made type visits (settle m (f :: cs) progress t) := by
  cases progress with
  | enter callee =>
    exact .waiting [] rfl activation ⟨attr, fun place => absurd place other, fun _ => apart⟩
  | done outcome =>
    cases outcome with
    | threw x => exact .unwound layer body activation attr m x
    | returned value =>
      have beside := f.beside_receive value
      refine .onward_apart layer body (beside.activation.trans activation) ?_ (beside.place ▸ apart)
      obtain ⟨v, held⟩ := attr
      exact ⟨v, by cases value <;> exact held.1, held.2⟩

/-- An instruction where nothing is looked up or loaded. -/
theorem Serves.apart_step (site : w.Site p kind new own) (body : a.body = new) (activation : f.activation = a)
    (attr : w.Keeps made own.type s.heap f) (apart : w.Apart f.place) (store : f.place ≠ w.attrStore) :
    Serves w a cs made own.type (visits ++ [p.visit f cs s]) (p.after f cs s) := by
  have other : f.place ≠ w.lookupCall := apart.looking 8 (by omega)
  have layer := site.layer
  have code : f.activation.body = new := by rw [activation, body]
  cases found : f.activation.body.code.get? f.place with
  | none =>
    unfold Program.after
    rw [advance_of_missing found]
    exact .finished (.inr (below_error _ _ _))
  | some i =>
    have turn := p.turn cs found s
    have kept : w.Keeps made own.type (p.after f cs s).machine.heap f := by
      obtain ⟨v, held⟩ := attr
      exact ⟨v, held.1, held.2.keeps (p.after_keeps site.spares f cs s)⟩
    rw [code] at found
    generalize p.after f cs s = r at turn kept
    cases turn with
    | failed fault t => exact .finished (.inr (below_error _ _ _))
    | @next stack t stepped =>
      rw [machine_goAhead] at kept
      exact .onward_apart layer body (g := { f with stack }) activation kept apart
    | @store stack slot value t stepped =>
      rw [machine_goAhead] at kept
      obtain ⟨index, used, rfl⟩ := store_of_step stepped
      have stores : ∃ fixed, i.opcode.action = .storeLocal fixed := ensures_step p.module f i _ _ _ stepped
      have differs : index.toNat ≠ w.slots.attr.toNat := by
        intro same
        exact layer.spares found store stores (used.trans (congrArg some (UInt16.toNat_inj.mp same)))
      obtain ⟨v, held⟩ := kept
      exact .onward_apart layer body (g := { f with stack }.store index.toNat value) activation
        ⟨v, (Frame.slot_store_of_ne _ differs value).trans held.1, held.2⟩ apart
    | jump leads =>
      exact .top activation (.of_outside kept fun hook inside => (layer.seals hook).target found leads inside)
    | exit exits =>
      have ret : i.opcode = .ret := Opcode.action_eq_exit_iff.mp exits
      have ends : (p.visit f cs s).ends cs.length = true := by
        simp [Visit.ends, Visit.returns, Program.visit, code, found, ret]
      exact .finished (.inl ⟨_, List.mem_append_right _ (List.mem_singleton.mpr rfl), ends⟩)
    | @call stack target arguments dynamic progress t u stepped came =>
      rw [machine_settle] at kept
      exact .settled layer body (f := { f with stack }) activation kept apart other _ _
    | @construct stack progress u constructs =>
      rw [machine_settle] at kept
      exact .settled layer body (f := { f with stack }) activation kept apart other _ _
    | @throw stack x t =>
      rw [machine_unwind] at kept
      exact .unwound layer body (f := { f with stack }) activation kept _ _

/-- Looking the attribute up goes on. -/
theorem Serves.looked {n : Nat} (layer : w.Layer new) (body : a.body = new) (activation : f.activation = a)
    (place : f.place = ⟨w.old.code.size + n⟩) (early : n < 12) (attr : w.Keeps made type r.machine.heap f)
    (looks : w.LooksOn made type f cs (n + 1) r) : Serves w a cs made type visits r := by
  obtain ⟨g, t, beside, slot, looking, rfl⟩ := looks
  rw [machine_goAhead] at attr
  obtain ⟨v, held⟩ := attr
  refine .onward layer body (beside.activation.trans activation) ⟨v, slot.trans held.1, held.2⟩ ?_ ?_
  · intro k _ at_
    have same : k = n := by
      have indices := Handle.eq_iff.mp (at_.symm.trans (beside.place.trans place))
      simpa using indices
    exact same ▸ looking
  · intro hook k _ at_
    have behind := w.behind_start hook
    have indices := Handle.eq_iff.mp (at_.symm.trans (beside.place.trans place))
    simp only at indices
    omega

/-- An instruction of a look-up. -/
theorem Serves.looking_step {n : Nat} (site : w.Site p kind new own) (body : a.body = new) (activation : f.activation = a)
    (standing : w.Standing made own.type s.heap f) (place : f.place = ⟨w.old.code.size + n⟩) (early : n < 12)
    (fetched : f.place = w.lookupCall → ∀ x, p.Makes w f cs own { s with executed := s.executed + 1 } x → made x) :
    Serves w a cs made own.type visits (p.after f cs s) := by
  have code : f.activation.body = new := by rw [activation, body]
  have looking := standing.looking (by omega) place
  obtain ⟨v, held⟩ := standing.attr
  have kept : w.Keeps made own.type (p.after f cs s).machine.heap f :=
    ⟨v, held.1, held.2.keeps (p.after_keeps site.spares f cs s)⟩
  by_cases eight : n = 8
  · subst eight
    rcases site.finds code place looking (fetched place) with looks | faults | ⟨stack, c, v, t, after, gathers, first⟩
    · exact .looked site.layer body activation place early kept looks
    · exact .faulted site.layer body activation kept faults
    · rw [after] at kept ⊢
      exact .waiting [] rfl activation
        ⟨kept, fun _ => ⟨v, gathers, first⟩, fun other => absurd place other⟩
  · by_cases eleven : n = 11
    · subst eleven
      rcases site.casts code place looking with looks | faults
      · exact .looked site.layer body activation place early kept looks
      · exact .faulted site.layer body activation kept faults
    · exact .looked site.layer body activation place early kept
        (site.looks code place (by omega) eight ⟨v, held.1⟩ looking)

/-- An instruction that stores the attribute. -/
theorem Serves.storing_step (site : w.Site p kind new own) (body : a.body = new) (activation : f.activation = a)
    (standing : w.Standing made own.type s.heap f) (place : f.place = w.attrStore) :
    Serves w a cs made own.type visits (p.after f cs s) := by
  obtain ⟨old, held⟩ := standing.attr
  obtain ⟨g, t, v, beside, slot, first, after⟩ := site.stores (by rw [activation, body]) place ⟨old, held.1⟩
    (standing.looking (Nat.le_refl 12) place)
  have keeps := p.after_keeps site.spares f cs s
  rw [after] at keeps ⊢
  rw [machine_goAhead] at keeps
  have index : g.place.index = w.old.code.size + 12 := by
    rw [beside.place, place]
    rfl
  refine .onward_apart site.layer body (beside.activation.trans activation) ⟨v, slot, first.keeps keeps⟩ ?_
  refine ⟨fun n early at_ => ?_, fun hook n within at_ => ?_⟩
  · rw [at_] at index
    simp only at index
    omega
  · have behind := w.behind_start hook
    rw [at_] at index
    simp only at index
    omega

/-- An instruction that loads the attribute or what the hook gets with it. -/
theorem Serves.loading_step {hook : HookCall} {n : Nat} (site : w.Site p kind new own) (body : a.body = new)
    (activation : f.activation = a) (standing : w.Standing made own.type s.heap f)
    (within : n ≤ (w.passage hook).loads.length) (place : f.place = ⟨(w.passage hook).start + n⟩) :
    Serves w a cs made own.type visits (p.after f cs s) := by
  have code : f.activation.body = new := by rw [activation, body]
  obtain ⟨v, held⟩ := standing.attr
  have keeps := p.after_keeps site.spares f cs s
  have kept : w.Keeps made own.type (p.after f cs s).machine.heap f := ⟨v, held.1, held.2.keeps keeps⟩
  -- One of the instructions of the passage goes on with the attribute where it belongs.
  have goes : ∀ (g : Frame) (t : Machine) (v : Value), f.Beside g → g.slots = f.slots → Held made own.type s.heap v →
      g.stack[(w.passage hook).depth n]? = some v → p.after f cs s = goAhead g cs t →
        Serves w a cs made own.type visits (p.after f cs s) := by
    intro g t v beside slots held there after
    rw [after, machine_goAhead] at keeps kept
    rw [after]
    obtain ⟨u, slot, stored⟩ := kept
    refine .onward site.layer body (beside.activation.trans activation) ⟨u, ?_, stored⟩ ?_ ?_
    · unfold Frame.slot at slot ⊢
      rw [slots]
      exact slot
    · intro k early at_
      have behind := w.behind_start hook
      have indices := Handle.eq_iff.mp (at_.symm.trans (beside.place.trans place))
      simp only at indices
      omega
    · intro hook' k within' at_
      have indices := Handle.eq_iff.mp (at_.symm.trans (beside.place.trans place))
      obtain ⟨same, rfl⟩ := w.passage_inj within' within indices
      exact ⟨v, same ▸ there, held.keeps keeps⟩
  have fetch : ∀ i, (loadSlot w.slots.attr :: (w.passage hook).loads)[n]? = some i →
      ∃ j, f.activation.body.code.get? f.place = some j ∧ i.Alike j := by
    intro i listed
    rw [code, place, Passage.start, Nat.add_assoc]
    refine (site.layer.seals hook).fetch ?_
    rw [Weave.passageRow, List.getElem?_append_right (Nat.le_add_right _ _), Nat.add_sub_cancel_left, ← List.cons_append,
      List.getElem?_append_left (by simp only [List.length_cons]; omega)]
    exact listed
  cases n with
  | zero =>
    obtain ⟨j, found, alike⟩ := fetch _ rfl
    exact goes { f with stack := v :: f.stack } _ v (f.beside_stack _) rfl held.2 (by simp [Passage.depth])
      (Program.after_loadSlot found alike held.1 cs s)
  | succ n =>
    have listed := List.getElem?_eq_getElem (show n < (w.passage hook).loads.length by omega)
    obtain ⟨j, found, alike⟩ := fetch _ listed
    obtain ⟨v, there, receiver⟩ := standing.loaded (by omega) place
    have plain : v = .null ∨ ∃ x, v = .ref x := by
      rcases receiver with none | ⟨x, same, -⟩
      · exact .inl none
      · exact .inr ⟨x, same⟩
    rcases p.after_load found alike (w.loads_passage hook _ (List.mem_of_getElem? listed)) there plain with
      ⟨g, t, beside, slots, still, after⟩ | faults
    · exact goes g t v beside slots receiver (Passage.depth_succ listed ▸ still) after
    · exact .faulted site.layer body activation kept faults

/-- An instruction of the activation. -/
theorem Serves.top_step (site : w.Site p kind new own) (body : a.body = new) (activation : f.activation = a)
    (standing : w.Standing made own.type s.heap f)
    (fetched : f.place = w.lookupCall → ∀ x, p.Makes w f cs own { s with executed := s.executed + 1 } x → made x) :
    Serves w a cs made own.type (visits ++ [p.visit f cs s]) (p.after f cs s) := by
  by_cases looking : ∃ n < 12, f.place = ⟨w.old.code.size + n⟩
  · obtain ⟨n, early, place⟩ := looking
    exact .looking_step site body activation standing place early fetched
  · by_cases store : f.place = w.attrStore
    · exact .storing_step site body activation standing store
    · by_cases loading : ∃ hook, ∃ n ≤ (w.passage hook).loads.length, f.place = ⟨(w.passage hook).start + n⟩
      · obtain ⟨hook, n, within, place⟩ := loading
        exact .loading_step site body activation standing within place
      · exact .apart_step site body activation standing.attr
          ⟨fun n early place => looking ⟨n, early, place⟩, fun hook n within place => loading ⟨hook, n, within, place⟩⟩ store

/-- An instruction of what the activation has called. -/
theorem Serves.waiting_step {top c : Frame} {callers above : List Frame} (site : w.Site p kind new own) (body : a.body = new)
    (whole : top :: callers = above ++ c :: f :: cs) (activation : f.activation = a)
    (paused : w.Paused made own.type s.heap f c.pending) :
    Serves w a cs made own.type visits (p.after top callers s) := by
  have layer := site.layer
  have keeps := p.after_keeps site.spares top callers s
  have comes := p.over whole s
  generalize p.after top callers s = r at comes keeps
  obtain ⟨v, held⟩ := paused.attr
  have kept : w.Keeps made own.type r.machine.heap f := ⟨v, held.1, held.2.keeps keeps⟩
  cases comes with
  | failed fault t => exact .finished (.inr (below_error _ _ _))
  | below above whole pending =>
    refine .waiting above whole activation ⟨kept, fun place => ?_, paused.apart⟩
    obtain ⟨v, gathers, first⟩ := paused.gathers place
    exact ⟨v, pending ▸ gathers, first.keeps keeps⟩
  | @throw x t =>
    rw [machine_unwind] at kept
    exact .unwound layer body activation kept _ _
  | @exit value t =>
    rw [settleAttempt_eq] at keeps kept ⊢
    cases came : complete p (cs.length + 1) c.pending (.returned value) t with
    | error fault u =>
      rw [came] at kept
      exact .faulted layer body activation kept (p.faults_raise f f.stack cs fault u)
    | ok progress u =>
      rw [came] at keeps kept
      dsimp only at keeps kept ⊢
      rw [machine_settle] at keeps kept
      by_cases place : f.place = w.lookupCall
      · obtain ⟨v, gathers, first⟩ := paused.gathers place
        have first := first.keeps keeps
        cases found_complete site.spares site.distinct gathers came with
        | threw y => exact .unwound layer body activation kept _ _
        | @array r elements _ made listed =>
          refine .looked (n := 8) layer body activation place (by omega) ?_
            ⟨{ f with stack := .ref r :: f.stack }, u, f.beside_stack _, rfl, ⟨r, elements, v, f.stack, rfl, made, listed, first⟩, rfl⟩
          rw [machine_settle]
          exact kept
        | enters _ gathers =>
          exact .waiting [] rfl activation ⟨kept, fun _ => ⟨v, gathers, first⟩, fun other => absurd place other⟩
      · exact .settled layer body activation kept (paused.apart place) place _ _

/-- An object that an activation has made of an attribute when it looked the attribute of a layer up. -/
def Program.Fetched (p : Program) (w : Weave) (a : Activation) (cs : List Frame) (start : Stage) (own : Attribute)
    (visits : List Visit) (x : HeapRef) : Prop :=
  ∃ before f s behind, visits = before ++ p.visit f cs s :: behind ∧ p.Leads start before (.ok (.running f cs) s) ∧
    f.activation = a ∧ f.place = w.lookupCall ∧ p.Makes w f cs own { s with executed := s.executed + 1 } x

/-- One instruction keeps the attribute where it belongs. -/
theorem Serves.step {start : Stage} {top : Frame} {callers : List Frame} {all rest : List Visit} (site : w.Site p kind new own)
    (body : a.body = new) (leads : p.Leads start visits (.ok (.running top callers) s))
    (part : all = visits ++ p.visit top callers s :: rest)
    (state : Serves w a cs (p.Fetched w a cs start own all) own.type visits (.ok (.running top callers) s)) :
    Serves w a cs (p.Fetched w a cs start own all) own.type (visits ++ [p.visit top callers s]) (p.after top callers s) := by
  cases state with
  | top activation standing =>
    exact .top_step site body activation standing fun place x makes =>
      ⟨visits, top, s, rest, part, leads, activation, place, makes⟩
  | waiting above whole activation paused => exact .waiting_step site body whole activation paused
  | finished closed =>
    refine .finished (.inl ?_)
    rcases closed with ⟨v, member, ended⟩ | below
    · exact ⟨v, List.mem_append_left _ member, ended⟩
    · have lower : callers.length < cs.length := below top callers s rfl
      exact ⟨p.visit top callers s, by simp, by simp [Visit.ends, Program.visit, lower]⟩

/-- A run keeps the attribute where it belongs. -/
theorem Serves.run {start r r' : Stage} {all rest : List Visit} (site : w.Site p kind new own) (body : a.body = new)
    (leads : p.Leads start visits r) (onward : p.Leads r rest r') (whole : all = visits ++ rest)
    (state : Serves w a cs (p.Fetched w a cs start own all) own.type visits r) :
    Serves w a cs (p.Fetched w a cs start own all) own.type all r' := by
  induction onward generalizing visits with
  | stay =>
    rw [List.append_nil] at whole
    exact whole ▸ state
  | @step f callers s rest r' onward ih =>
    exact ih (leads.trans (p.leads_after f callers s)) (by simp [whole]) (state.step site body leads whole)

/-- An activation starts without an attribute. -/
theorem Serves.first (layer : w.Layer new) (body : a.body = new) (pending : List Pending) {first : Handle}
    (begins : new.code.first? = some first) : Serves w a cs made type visits (.entering a pending first cs s) := by
  refine .top rfl (.of_outside ⟨.null, ?_, .inl rfl⟩ fun hook inside => ?_)
  · obtain ⟨added, slots⟩ := layer.slots
    obtain ⟨-, attr, -⟩ := WovenSlots.toNat_startingAt layer.slotsFit
    have place : w.slots.attr.toNat = w.old.slots.size + 1 := attr
    have listed : new.slots[w.slots.attr.toNat]? = some ⟨some "__fody$attribute", .classType w.plan.attributeType⟩ := by
      rw [← Array.getElem?_toList, slots, List.append_assoc, place, List.getElem?_append_right (by simp)]
      simp [WeavePlan.slots]
    unfold Frame.slot
    simp only [Frame.start, Activation.slots, body, layer.initSlots, if_true, Array.getElem?_map, listed, Option.map_some]
    rfl
  · exact (layer.seals hook).not_inside_first begins inside

/-- In its runs a layer calls its hooks on objects that the activation at work has made of an attribute. -/
def Weave.ActsOn (w : Weave) (p : Program) (new : Body) (own : Attribute) : Prop :=
  ∀ (a : Activation) (pending : List Pending) (first : Handle) (cs : List Frame) (s : Machine) (visits : List Visit)
    (f : Frame) (t : Machine) (hook : HookCall) (i : Instruction) (stack : List Value) (target : Token)
    (arguments : List Value) (u : Machine),
    a.body = new → new.code.first? = some first →
    p.Leads (.entering a pending first cs s) visits (.ok (.running f cs) t) → (∀ v ∈ visits, v.ends cs.length = false) →
    w.hookCall? f = some hook → f.activation.body.code.get? f.place = some i →
    step p.module f i { t with executed := t.executed + 1 } = .ok (stack, .call target arguments true) u →
    ∃ x, arguments.head? = some (.ref x) ∧ t.heap.get? x = some (.instance own.type) ∧
      p.Fetched w a cs (.entering a pending first cs s) own visits x

/-- A layer calls its hooks on objects made of the attribute that is found first. -/
theorem Weave.Site.actsOn (site : w.Site p kind new own) (objects : kind.ActsOnObjects p.module) : w.ActsOn p new own := by
  intro a pending first cs s visits f t hook i stack target arguments u body begins leads going called found stepped
  have state : Serves w a cs (p.Fetched w a cs (.entering a pending first cs s) own visits) own.type visits _ :=
    .run site body (.stay _) leads rfl (.first site.layer body pending begins)
  generalize same : (EStateM.Result.ok (Execution.running f cs) t : Stage) = r at state
  cases state with
  | @top _ _ activation standing =>
    cases same
    obtain ⟨v, there, held⟩ := standing.loaded (Nat.le_refl _) (w.place_of_hookCall? called)
    rw [w.depth_passage] at there
    obtain ⟨shape, token, shaped, enough, rfl, object, rfl⟩ := call_of_step stepped
    -- The hook takes the object and what lies above it.
    have full : shape.argumentCount = hook.parameters + 1 := by
      rw [activation, body, site.calls.fetch called] at found
      cases found
      obtain rfl : kind.hook hook = target := Option.some.inj token
      obtain ⟨own, known, parameters, this⟩ := objects hook
      rw [known] at shaped
      cases shaped
      simp [CallShape.argumentCount, parameters, this]
    have head : (f.stack.take shape.argumentCount).reverse.head? = some v := by
      rw [full] at enough ⊢
      rw [List.head?_reverse, List.getLast?_eq_getElem?, List.length_take, Nat.min_eq_left enough, Nat.add_sub_cancel,
        List.getElem?_take_of_lt (Nat.lt_succ_self _), there]
    rw [head] at object ⊢
    rcases held with rfl | ⟨x, rfl, fetched, found⟩
    · cases object
    · exact ⟨x, rfl, found, fetched⟩
  | @waiting top c g callers above _ whole activation paused =>
    cases same
    have lengths := congrArg List.length whole
    simp only [List.length_cons, List.length_append] at lengths
    omega
  | finished closed =>
    subst same
    rcases closed with ⟨v, member, ended⟩ | below
    · rw [going v member] at ended
      cases ended
    · exact absurd (below f cs t rfl) (Nat.lt_irrefl _)

end Serves

end AspectWeaving

import AspectWeaving.Proofs.Regimes

/-!
Runs in a regime. Where the host methods keep to a regime (`Program.Abides`), each instruction of a run does
(`obeys_advance`). With it goes what holds in any case: a body is entered only where there is room for it, and is refused for
its depth only where there is none.
-/
namespace AspectWeaving

open Running (compute fail allocate modifyObject note callHost attempt)

/-! ### Calls -/

/-- The host methods keep to a regime. -/
def Program.Abides (p : Program) (D : Regime) : Prop :=
  ∀ host ∈ p.hostMethods, ∀ s arguments, D.sound s → (∀ v ∈ arguments, D.admits s v) →
    Running.Obeys D s (callHost host arguments) fun t o => o.Admitted D t

/-- What a call comes to may be in use, and a body is entered only where there is room for it. -/
def Progress.Admitted (D : Regime) (p : Program) (depth : Nat) (s : Machine) : Progress → Prop
  | .done outcome => outcome.Admitted D s
  | .enter f => f.Admitted D s ∧ depth < p.limits.callDepth

/-- A body may be refused where there is no room for it. -/
def Regime.Refuses (D : Regime) (p : Program) (depth : Nat) : Prop :=
  p.limits.callDepth ≤ depth → ∀ limit, D.fails (.execution (.callDepthExceeded limit))

section Calls

open Running (Obeys)

variable {D : Regime} {p : Program} (L : D.Lawful p.module) (abides : p.Abides D) {depth : Nat} (refuses : D.Refuses p depth)
  {s : Machine} (sound : D.sound s) {arguments : List Value}
include L sound

theorem obeys_andThen {progress : Progress} {next : Pending} {finish : Value → Running Progress}
    (admitted : progress.Admitted D p depth s) (waits : next.Admitted D s)
    (finished : ∀ v, D.admits s v → Obeys D s (finish v) (Progress.Admitted D p depth)) :
    Obeys D s (progress.andThen next finish) (Progress.Admitted D p depth) := by
  cases progress with
  | enter f =>
    refine .pure L sound ⟨{ admitted.1 with pending := fun other member => ?_ }, admitted.2⟩
    rcases List.mem_append.mp member with before | last
    · exact admitted.1.pending other before
    · obtain rfl := List.mem_singleton.mp last
      exact waits
  | done outcome =>
    cases outcome with
    | returned value => exact finished value admitted
    | threw x => exact .pure L sound admitted

include refuses

theorem obeys_enterBody (d : MethodDef) (body : Body) (admits : ∀ v ∈ arguments, D.admits s v) :
    Obeys D s (enterBody p depth d body arguments) (Progress.Admitted D p depth) := by
  unfold enterBody
  dsimp only
  split
  · split
    · rename_i room
      refine .bind L (.note L sound) fun _ t sound becomes _ => ?_
      split
      · exact .fail L sound rfl
      · refine .pure L sound ⟨{
          arguments := fun v member => L.mono becomes (admits v (by simpa [Frame.start, Activation.ofMethod] using member))
          slots := fun v member => ?_
          stack := nofun
          active := nofun
          pending := nofun }, room⟩
        obtain ⟨slot, -, same⟩ := Array.mem_map.mp (show some v ∈ body.slots.map _ from member)
        split at same
        · cases same
          exact L.plain (by cases slot.sig <;> rfl)
        · cases same
    · rename_i full
      exact .throw L sound (refuses (Nat.le_of_not_lt full) _)
  · exact .fail L sound rfl

include abides

theorem obeys_callDefinition (token : Token) (admits : ∀ v ∈ arguments, D.admits s v) :
    Obeys D s (callDefinition p depth token arguments) (Progress.Admitted D p depth) := by
  unfold callDefinition
  split
  · rename_i host found
    exact .bind L (abides host (List.mem_of_find?_eq_some found) s arguments sound admits) fun o t sound _ admitted =>
      .pure L sound admitted
  · split
    · exact .fail L sound rfl
    · split
      · exact .fail L sound rfl
      · exact obeys_enterBody L refuses sound _ _ admits

theorem obeys_constructDefinition (token : Token) (admits : ∀ v ∈ arguments, D.admits s v) :
    Obeys D s (constructDefinition p depth token arguments) (Progress.Admitted D p depth) := by
  unfold constructDefinition
  split
  · exact .fail L sound rfl
  · refine .bind L (.allocate L sound nofun) fun object t sound becomes made => ?_
    refine .bind L (obeys_callDefinition L abides refuses sound token ?_) fun call u sound later entered => ?_
    · exact List.forall_mem_cons.mpr ⟨made, fun v member => L.mono becomes (admits v member)⟩
    · exact obeys_andThen L sound entered (L.mono later made) fun _ _ => .pure L sound (L.mono later made)

omit abides refuses in
theorem obeys_toValue (argument : AttributeArgument) : Obeys D s argument.toValue fun t v => D.admits t v := by
  cases argument with
  | string text => exact .bind L (.allocate L sound nofun) fun r t sound _ made => .pure L sound made
  | _ => exact .pure L sound (L.plain rfl)

omit abides refuses in
theorem obeys_mapM_toValue (arguments : List AttributeArgument) :
    Obeys D s (arguments.mapM (·.toValue)) fun t values => ∀ v ∈ values, D.admits t v := by
  induction arguments generalizing s with
  | nil => exact .pure L sound nofun
  | cons argument arguments ih =>
    rw [List.mapM_cons]
    refine .bind L (obeys_toValue L sound argument) fun v t sound _ first => .bind L (ih sound) fun rest u sound becomes others => ?_
    exact .pure L sound (List.forall_mem_cons.mpr ⟨L.mono becomes first, others⟩)

theorem obeys_instantiate (a : Attribute) : Obeys D s (instantiate p depth a) (Progress.Admitted D p depth) := by
  refine .bind L (obeys_mapM_toValue L sound a.arguments) fun arguments t sound _ admits => ?_
  dsimp only
  split
  · exact obeys_constructDefinition L abides refuses sound _ admits
  · split
    · exact .bind L (.allocate L sound nofun) fun r u sound _ made => .pure L sound made
    · exact .compute L sound (lets_naming L a.type) fun _ _ => .throw L sound (L.ordinary rfl)

theorem obeys_collect {objects : Array Value} (admits : ∀ v ∈ objects, D.admits s v) (attributes : List Attribute) :
    Obeys D s (collect p depth objects attributes) (Progress.Admitted D p depth) := by
  induction attributes generalizing s objects with
  | nil =>
    refine .bind L (.allocate L sound fun v member => admits v ?_) fun r u sound _ made => .pure L sound made
    exact Array.mem_toList_iff.mp member
  | cons a rest ih =>
    refine .bind L (obeys_instantiate L abides refuses sound a) fun call t sound becomes entered => ?_
    have kept : ∀ v ∈ objects, D.admits t v := fun v member => L.mono becomes (admits v member)
    refine obeys_andThen L sound entered kept fun object made => ih sound fun v member => ?_
    rcases Array.mem_push.mp member with old | rfl
    · exact kept v old
    · exact made

omit abides refuses sound in
theorem lets_selectAttributes (method : Token) (type : Option Token) : D.Lets (selectAttributes p.module method type) := by
  unfold selectAttributes
  split
  · split
    · exact .pure
    · exact (lets_naming L _).bind fun _ _ => .pure
  · exact .pure

omit abides refuses in
theorem obeys_initializeLibrary (admits : ∀ v ∈ arguments, D.admits s v) :
    Obeys D s (initializeLibrary arguments) (Progress.Admitted D p depth) := by
  unfold initializeLibrary
  cases arguments with
  | nil => exact .throw L sound (L.ordinary rfl)
  | cons this rest =>
    have admitsMessage : D.Lets (messageArgument s.heap (this :: rest)[1]?) := by
      unfold messageArgument
      split
      · exact .ok
      · exact .ok
      · rename_i v _ named
        exact (lets_string L (admits v (List.mem_of_getElem? named))).map
    show Obeys D s (compute (messageArgument s.heap (this :: rest)[1]?) >>= _) _
    refine .compute L sound admitsMessage fun message _ => ?_
    cases this with
    | ref r =>
      show Obeys D s (compute (s.heap.get r) >>= _) _
      refine .compute L sound (lets_get L (admits _ List.mem_cons_self)) fun _ _ => ?_
      refine .bind L (.modifyObject L sound fun o found => ?_) fun _ t sound _ _ => .pure L sound (L.plain rfl)
      have held := L.held sound found
      cases o with
      | «exception» typeName before => exact ⟨.message typeName before message, nofun⟩
      | _ => exact ⟨.same _, held⟩
    | _ => exact .fail L sound rfl

omit abides refuses in
theorem obeys_thisObject {β : Type} {Q : Machine → β → Prop} (admits : ∀ v ∈ arguments, D.admits s v) {f : HeapObject → Running β}
    (next : ∀ o, Obeys D s (f o) Q) : Obeys D s (compute (thisObject s.heap arguments) >>= f) Q := by
  refine .compute L sound ?_ fun o _ => next o
  cases arguments with
  | nil => exact .error (L.ordinary rfl)
  | cons this rest => exact lets_object L (admits this List.mem_cons_self)

theorem obeys_callLibrary (token : Token) (admits : ∀ v ∈ arguments, D.admits s v) :
    Obeys D s (callLibrary p depth token arguments) (Progress.Admitted D p depth) := by
  have results : ∀ {t : Machine} {o : HeapObject}, D.sound t → (∀ v ∈ o.values, D.admits t v) →
      Obeys D t (do return .result (.ref (← allocate o))) (Progress.Admitted D p depth) :=
    fun sound values => .bind L (.allocate L sound values) fun r u sound _ made => .pure L sound made
  unfold callLibrary
  split
  · split
    · split
      · exact results sound nofun
      · exact .fail L sound rfl
    · split
      · exact results sound nofun
      · exact .fail L sound rfl
    · refine obeys_thisObject L sound admits fun o => .compute L sound ?_ fun method _ => ?_
      · cases o with
        | method token => exact .ok
        | _ => exact .error (L.ordinary rfl)
      · show Obeys D s (compute (describedType s.heap arguments[1]?) >>= _) _
        refine .compute L sound ?_ fun type _ => .compute L sound (lets_selectAttributes L method type) fun _ _ =>
          obeys_collect L abides refuses sound (by simp) _
        unfold describedType
        split
        · exact .ok
        · exact .ok
        · rename_i v _ named
          refine (lets_object L (admits v (List.mem_of_getElem? named))).bind fun o _ => ?_
          split
          · exact .pure
          · exact .error (L.ordinary rfl)
    · refine obeys_thisObject L sound admits fun o => .compute L sound ?_ fun name _ => results sound nofun
      cases o with
      | method token => exact (lets_callShape L token).map
      | type token => exact (lets_naming L token).map
      | _ => exact .error (L.ordinary rfl)
    · refine obeys_thisObject L sound admits fun o => .compute L sound ?_ fun message _ => ?_
      · cases o with
        | «exception» typeName message => exact .ok
        | _ => exact .error (L.ordinary rfl)
      · split
        · exact results sound nofun
        · exact .pure L sound (L.plain rfl)
    · exact obeys_initializeLibrary L sound admits
    · exact .fail L sound rfl
  · exact .fail L sound rfl

theorem obeys_call (target : Token) (admits : ∀ v ∈ arguments, D.admits s v) (dynamic : Bool) :
    Obeys D s (call p depth target arguments dynamic) (Progress.Admitted D p depth) := by
  unfold call
  extract_lets onward
  have resolves : ∀ resolved, Obeys D s (onward resolved) (Progress.Admitted D p depth) := by
    intro resolved
    dsimp only [onward]
    split
    · rename_i host found
      exact .bind L (abides host (p.mem_of_hostMethod?_or found) s arguments sound admits) fun o t sound _ admitted =>
        .pure L sound admitted
    · split
      · exact obeys_callDefinition L abides refuses sound resolved admits
      · split
        · exact obeys_callLibrary L abides refuses sound resolved admits
        · exact .fail L sound rfl
  cases dynamic with
  | false => exact resolves target
  | true =>
    show Obeys D s (compute (dispatch p.module s.heap target arguments.head?) >>= _) _
    refine .compute L sound ?_ fun resolved _ => resolves resolved
    unfold dispatch
    split
    · rename_i r first
      refine (lets_get L (admits _ (List.mem_of_mem_head? first))).bind fun o _ => ?_
      split
      · exact (lets_callShape L target).bind fun _ _ => .pure
      · exact .pure
    · exact .pure

theorem obeys_constructException (token : Token) (admits : ∀ v ∈ arguments, D.admits s v) :
    Obeys D s (constructException p depth token arguments) (Progress.Admitted D p depth) := by
  unfold constructException
  split
  · exact .fail L sound rfl
  · refine .compute L sound (lets_naming L _) fun typeName _ => ?_
    split
    · split
      · refine .bind L (.allocate L sound nofun) fun object t sound becomes made => ?_
        refine .bind L (obeys_call L abides refuses sound token ?_ false) fun call u sound later entered => ?_
        · exact List.forall_mem_cons.mpr ⟨made, fun v member => L.mono becomes (admits v member)⟩
        · exact obeys_andThen L sound entered (L.mono later made) fun _ _ => .pure L sound (L.mono later made)
      · exact .throw L sound (L.ordinary rfl)
    · exact .fail L sound rfl

theorem obeys_construct (token : Token) (admits : ∀ v ∈ arguments, D.admits s v) :
    Obeys D s (construct p depth token arguments) (Progress.Admitted D p depth) := by
  unfold construct
  split
  · exact obeys_constructDefinition L abides refuses sound token admits
  · split
    · exact obeys_constructException L abides refuses sound token admits
    · exact .fail L sound rfl

theorem obeys_complete {pending : List Pending} (waits : ∀ next ∈ pending, next.Admitted D s) {outcome : Outcome}
    (admitted : outcome.Admitted D s) : Obeys D s (complete p depth pending outcome) (Progress.Admitted D p depth) := by
  induction pending generalizing s outcome with
  | nil => exact .pure L sound admitted
  | cons next rest ih =>
    obtain ⟨first, others⟩ := List.forall_mem_cons.mp waits
    cases outcome with
    | threw x => exact .pure L sound admitted
    | returned value =>
      cases next with
      | construct object => exact ih sound others first
      | collect objects attributes =>
        refine .bind L (obeys_collect L abides refuses sound (fun v member => ?_) attributes) fun progress t sound becomes entered => ?_
        · rcases Array.mem_push.mp member with old | rfl
          · exact first v old
          · exact admitted
        · have later : ∀ next ∈ rest, next.Admitted D t := fun next member => (others next member).mono L becomes
          cases progress with
          | done outcome => exact ih sound later entered
          | enter f =>
            refine .pure L sound ⟨{ entered.1 with pending := fun other member => ?_ }, entered.2⟩
            rcases List.mem_append.mp member with before | behind
            · exact entered.1.pending other before
            · exact later other behind

end Calls

/-! ### Executions -/

/-- What an execution has come to may be in use, and there are no more bodies under execution than a bound. -/
def Execution.Admitted (D : Regime) (bound : Nat) (s : Machine) : Execution → Prop
  | .finished outcome => outcome.Admitted D s
  | .running top callers => (∀ f ∈ top :: callers, f.Admitted D s) ∧ callers.length < bound

section Frames

variable {D : Regime} {s : Machine} {f g : Frame}

theorem Frame.Admitted.store {index : Nat} {v : Value} (admitted : f.Admitted D s) (admits : D.admits s v) :
    (f.store index v).Admitted D s where
  arguments := admitted.arguments
  slots w member := by
    have member : some w ∈ f.slots.toList.set index (some v) := by
      simpa only [Frame.store, Array.mem_def, Array.toList_setIfInBounds] using member
    rcases List.mem_or_eq_of_mem_set member with old | new
    · exact admitted.slots w (Array.mem_toList_iff.mp old)
    · exact Option.some.inj new ▸ admits
  stack := admitted.stack
  active := admitted.active
  pending := admitted.pending

theorem Frame.Admitted.receive {v : Value} (admitted : f.Admitted D s) (admits : D.admits s v) :
    (f.receive v).Admitted D s := by
  cases v with
  | void => exact admitted
  | _ => exact { admitted with stack := List.forall_mem_cons.mpr ⟨admits, admitted.stack⟩ }

theorem Frame.Admitted.ahead (admitted : f.Admitted D s) (ahead : f.ahead = .ok g) : g.Admitted D s := by
  unfold Frame.ahead at ahead
  cases behind : f.activation.next f.place with
  | ok place =>
    rw [behind] at ahead
    cases ahead
    exact { admitted with }
  | error cause =>
    rw [behind] at ahead
    cases ahead

theorem mem_of_stillActive {a : Activation} {position : Nat} {active still : List ActiveClause}
    (found : Frame.stillActive a position active = .ok still) : ∀ c ∈ still, c ∈ active := by
  induction active generalizing still with
  | nil =>
    cases found
    exact nofun
  | cons first rest ih =>
    obtain ⟨holds, -, found⟩ := bind_eq_ok_iff.mp found
    obtain ⟨others, behind, same⟩ := bind_eq_ok_iff.mp found
    have among : ∀ c ∈ others, c ∈ first :: rest := fun c member => List.mem_cons_of_mem _ (ih behind c member)
    cases holds with
    | false =>
      cases same
      exact among
    | true =>
      cases same
      exact List.forall_mem_cons.mpr ⟨List.mem_cons_self, among⟩

theorem Frame.Admitted.leave {target : Handle} (admitted : f.Admitted D s) (left : f.leave target = .ok g) :
    g.Admitted D s := by
  obtain ⟨position, -, left⟩ := bind_eq_ok_iff.mp left
  obtain ⟨active, still, same⟩ := bind_eq_ok_iff.mp left
  cases same
  exact { admitted with stack := nofun, active := fun c member => admitted.active c (mem_of_stillActive still c member) }

end Frames

section Executions

open Running (Obeys)

variable {D : Regime} {p : Program} {m : Module} (L : D.Lawful m) {s : Machine} (sound : D.sound s) {f g : Frame}
  {frames callers : List Frame} {bound : Nat}
include L

theorem lets_position (a : Activation) (h : Handle) : D.Lets (a.position h) := by
  unfold Activation.position
  split
  · exact .ok
  · exact .error (L.ordinary rfl)

theorem lets_regionHolds (a : Activation) (r : Region) (position : Nat) : D.Lets (a.regionHolds r position) := by
  refine (lets_position L a _).bind fun start _ => ?_
  split
  · refine Regime.Lets.bind ?_ fun _ _ => .pure
    unfold Activation.stopPosition
    split
    · exact lets_position L a _
    · exact .ok
  · exact .pure

theorem lets_stillActive (a : Activation) (position : Nat) (active : List ActiveClause) :
    D.Lets (Frame.stillActive a position active) := by
  induction active with
  | nil => exact .ok
  | cons c rest ih =>
    refine Regime.Lets.bind ?_ fun holds _ => ih.bind fun others _ => .pure
    unfold Activation.handlesAt
    split
    · exact lets_regionHolds L a _ _
    · exact .ok

/-- Looking for the clause of an exception fails for nothing else than a regime lets it. -/
theorem fails_of_catches {x : HeapRef} {a : Activation} {position : Nat} {c : Handler} {fault : Fault}
    (admits : D.admits s (.ref x)) (failed : Frame.catches m s.heap a position x c = .error fault) : D.fails fault := by
  unfold Frame.catches at failed
  split at failed
  · rename_i cause held
    cases failed
    exact lets_regionHolds L a _ _ cause held
  · cases failed
  · split at failed
    · cases failed
      exact L.ordinary rfl
    · split at failed
      · cases failed
      · rename_i type _
        cases decided : isInstance m s.heap x type with
        | ok holds =>
          rw [decided] at failed
          cases failed
        | error cause =>
          rw [decided] at failed
          cases failed
          exact lets_isInstance L admits type cause decided

theorem fails_of_findClause {x : HeapRef} {a : Activation} {position index : Nat} {clauses : List Handler} {fault : Fault}
    (admits : D.admits s (.ref x)) (failed : Frame.findClause m s.heap a position x index clauses = .error fault) :
    D.fails fault := by
  induction clauses generalizing index with
  | nil => cases failed
  | cons c clauses ih =>
    rw [Frame.findClause] at failed
    cases taken : Frame.catches m s.heap a position x c with
    | error cause =>
      rw [taken] at failed
      cases failed
      exact fails_of_catches L admits taken
    | ok takes =>
      rw [taken] at failed
      cases takes with
      | true => cases failed
      | false => exact ih failed

/-- A frame that catches an exception has no other values than before and the exception. -/
theorem Frame.Admitted.catch? {x : HeapRef} (admitted : f.Admitted D s) (admits : D.admits s (.ref x)) :
    match f.catch? m s.heap x with
    | .ok (some g) => g.Admitted D s
    | .ok none => True
    | .error fault => D.fails fault := by
  have lets := lets_position L f.activation f.place
  simp only [Frame.catch?]
  cases stands : f.activation.position f.place with
  | error cause => exact lets cause stands
  | ok position =>
    have lets := lets_stillActive L f.activation position f.active
    cases still : Frame.stillActive f.activation position f.active with
    | error cause =>
      simp only [still, bind, Except.bind, Except.mapError]
      exact lets cause still
    | ok active =>
      simp only [still, bind, Except.bind, Except.mapError]
      cases looked : Frame.findClause m s.heap f.activation position x 0 f.activation.body.handlers with
      | error fault => exact fails_of_findClause L admits looked
      | ok found =>
        cases found with
        | none => trivial
        | some entered =>
          exact { admitted with
            stack := List.forall_mem_cons.mpr ⟨admits, nofun⟩
            active := List.forall_mem_cons.mpr
              ⟨admits, fun c member => admitted.active c (mem_of_stillActive still c member)⟩ }

include sound

theorem obeys_unwind {x : HeapRef} (admits : D.admits s (.ref x)) (admitted : ∀ f ∈ frames, f.Admitted D s)
    (few : frames.length ≤ bound) : Obeys D s (unwind m x frames) (Execution.Admitted D bound) := by
  induction frames with
  | nil => exact .pure L sound admits
  | cons f callers ih =>
    obtain ⟨first, others⟩ := List.forall_mem_cons.mp admitted
    have caught := first.catch? L (m := m) admits
    unfold Obeys
    rw [unwind_cons]
    cases looked : f.catch? m s.heap x with
    | error fault =>
      rw [looked] at caught
      exact ⟨sound, L.refl s, caught⟩
    | ok found =>
      rw [looked] at caught
      cases found with
      | none => exact ih others (Nat.le_of_succ_le few)
      | some handling => exact ⟨sound, L.refl s, List.forall_mem_cons.mpr ⟨caught, others⟩, few⟩

theorem obeys_raise {fault : Fault} (fails : D.fails fault) (admitted : ∀ f ∈ frames, f.Admitted D s)
    (few : frames.length ≤ bound) : Obeys D s (raise m fault frames) (Execution.Admitted D bound) := by
  unfold raise
  split
  · exact .throw L sound fails
  · split
    · refine .bind L (.note L sound) fun _ t sound becomes _ => .bind L (.allocate L sound nofun) fun x u sound later made => ?_
      exact obeys_unwind L sound made (fun f member => (admitted f member).mono L (L.trans becomes later)) few
    · exact .throw L sound fails

theorem obeys_goAhead (admitted : ∀ g ∈ f :: callers, g.Admitted D s) (few : callers.length < bound) :
    Obeys D s (goAhead f callers) (Execution.Admitted D bound) := by
  obtain ⟨first, others⟩ := List.forall_mem_cons.mp admitted
  refine .compute L sound ?_ fun g ahead => .pure L sound ⟨List.forall_mem_cons.mpr ⟨first.ahead ahead, others⟩, few⟩
  unfold Frame.ahead Activation.next
  refine Regime.Lets.map ?_
  split
  · exact .ok
  · exact .error (L.ordinary rfl)

theorem obeys_settle {progress : Progress} (entered : progress.Admitted D p frames.length s)
    (admitted : ∀ f ∈ frames, f.Admitted D s) (few : frames.length ≤ bound) (room : p.limits.callDepth ≤ bound) :
    Obeys D s (settle m frames progress) (Execution.Admitted D bound) := by
  cases progress with
  | enter callee => exact .pure L sound ⟨List.forall_mem_cons.mpr ⟨entered.1, admitted⟩, Nat.lt_of_lt_of_le entered.2 room⟩
  | done outcome =>
    cases outcome with
    | threw x => exact obeys_unwind L sound entered admitted few
    | returned value =>
      cases frames with
      | nil => exact .pure L sound entered
      | cons f callers =>
        obtain ⟨first, others⟩ := List.forall_mem_cons.mp admitted
        exact obeys_goAhead L sound (List.forall_mem_cons.mpr ⟨first.receive entered, others⟩) few

omit sound in
theorem obeys_settleAttempt {call : Running Progress} (called : Obeys D s call (Progress.Admitted D p frames.length))
    (admitted : ∀ f ∈ frames, f.Admitted D s) (few : frames.length ≤ bound) (room : p.limits.callDepth ≤ bound) :
    Obeys D s (settleAttempt m frames call) (Execution.Admitted D bound) := by
  refine .bind L called.attempt fun result t sound becomes tried => ?_
  have kept : ∀ f ∈ frames, f.Admitted D t := fun f member => (admitted f member).mono L becomes
  cases result with
  | ok progress => exact obeys_settle L sound (tried.1 progress rfl) kept few room
  | error fault => exact obeys_raise L sound (tried.2 fault rfl) kept few

omit L sound in
/-- An instruction of a frame keeps to a regime, and no more bodies are under execution behind it than a bound that is not
    below the limit. A body may be refused where as many are under execution as the limit says. -/
theorem obeys_advance (L : D.Lawful p.module) (sound : D.sound s) (abides : p.Abides D) (refuses : ∀ depth, depth ≤ callers.length + 1 → D.Refuses p depth)
    (admitted : ∀ g ∈ f :: callers, g.Admitted D s) (few : callers.length < bound) (room : p.limits.callDepth ≤ bound) :
    Obeys D s (advance p f callers) (Execution.Admitted D bound) := by
  unfold advance
  refine .compute L sound ?_ fun i _ => ?_
  · unfold Activation.fetch
    split
    · exact .ok
    · exact .error (L.ordinary rfl)
  obtain ⟨first, below⟩ := List.forall_mem_cons.mp admitted
  refine .bind L (obeys_step L sound first i).attempt fun result t sound becomes tried => ?_
  have others : ∀ g ∈ callers, g.Admitted D t := fun g member => (below g member).mono L becomes
  have kept := first.mono L becomes
  cases result with
  | error fault => exact obeys_raise L sound (tried.2 fault rfl) (List.forall_mem_cons.mpr ⟨kept, others⟩) few
  | ok result =>
    obtain ⟨stack, effect⟩ := result
    obtain ⟨left, fits⟩ := tried.1 _ rfl
    have moved : ({ f with stack } : Frame).Admitted D t := { kept with stack := left }
    have all : ∀ g ∈ { f with stack } :: callers, g.Admitted D t := List.forall_mem_cons.mpr ⟨moved, others⟩
    cases effect with
    | next => exact obeys_goAhead L sound all few
    | store slot value => exact obeys_goAhead L sound (List.forall_mem_cons.mpr ⟨moved.store fits, others⟩) few
    | jump target => exact .pure L sound ⟨List.forall_mem_cons.mpr ⟨{ moved with }, others⟩, few⟩
    | leave target =>
      refine .compute L sound ?_ fun g left => .pure L sound ⟨List.forall_mem_cons.mpr ⟨moved.leave left, others⟩, few⟩
      exact (lets_position L _ _).bind fun position _ => (lets_stillActive L _ _ _).bind fun _ _ => .pure
    | exit value =>
      refine obeys_settleAttempt L ?_ others (Nat.le_of_lt few) room
      exact obeys_complete L abides (refuses _ (Nat.le_succ _)) sound kept.pending fits
    | throw x => exact obeys_unwind L sound fits all few
    | call target arguments dynamic =>
      exact obeys_settleAttempt L (obeys_call L abides (refuses _ (Nat.le_refl _)) sound target fits dynamic) all few room
    | construct target arguments =>
      exact obeys_settleAttempt L (obeys_construct L abides (refuses _ (Nat.le_refl _)) sound target fits) all few room

end Executions

/-! ### Stages -/

/-- What a stage has come to may be in use. -/
def Stage.Allowed (D : Regime) (bound : Nat) : Stage → Prop
  | .ok e s => D.sound s ∧ e.Admitted D bound s
  | .error fault s => D.sound s ∧ D.fails fault

section Stages

variable {D : Regime} {bound : Nat}

theorem Running.Obeys.allowed {x : Running Execution} {s : Machine} (obeys : Obeys D s x (Execution.Admitted D bound)) :
    D.becomes s (Stage.machine (x s)) ∧ Stage.Allowed D bound (x s) := by
  cases came : x s with
  | ok e t =>
    obtain ⟨sound, becomes, admitted⟩ := obeys.ok came
    exact ⟨becomes, sound, admitted⟩
  | error fault t =>
    obtain ⟨sound, becomes, fails⟩ := obeys.error came
    exact ⟨becomes, sound, fails⟩

/-- A run keeps to a regime that does not mind what is counted, wherever bodies may be refused. -/
theorem Program.Leads.allowed {p : Program} (L : D.Lawful p.module) (abides : p.Abides D) (refuses : ∀ depth, D.Refuses p depth)
    (counts : ∀ s : Machine, D.sound s →
      D.sound { s with executed := s.executed + 1 } ∧ D.becomes s { s with executed := s.executed + 1 })
    (room : p.limits.callDepth ≤ bound) {r r' : Stage} {visits : List Visit} (leads : p.Leads r visits r')
    (start : r.Allowed D bound) : D.becomes r.machine r'.machine ∧ r'.Allowed D bound := by
  induction leads with
  | stay r => exact ⟨L.refl _, start⟩
  | @step f callers s visits r rest ih =>
    obtain ⟨sound, admitted, few⟩ := start
    obtain ⟨sound, counted⟩ := counts s sound
    have kept : ∀ g ∈ f :: callers, g.Admitted D { s with executed := s.executed + 1 } :=
      fun g member => (admitted g member).mono L counted
    obtain ⟨becomes, next⟩ := (obeys_advance L sound abides (fun depth _ => refuses depth) kept few room).allowed
    obtain ⟨later, last⟩ := ih next
    exact ⟨L.trans counted (L.trans becomes later), last⟩

end Stages

/-! ### Changes of the heap -/

/-- A relation between heaps that allows for what programs do to objects. -/
structure Heap.Allows (R : Heap → Heap → Prop) : Prop where
  refl (h : Heap) : R h h
  trans {h h' h'' : Heap} : R h h' → R h' h'' → R h h''
  push (h : Heap) (o : HeapObject) : R h (h.push o)
  modify (h : Heap) {r : HeapRef} {f : HeapObject → HeapObject} :
    (∀ o, h.get? r = some o → o.Becomes (f o)) → R h (h.modify r f)

/-- A host method changes the heap as a relation says. -/
structure HostMethod.Within (R : Heap → Heap → Prop) (method : HostMethod) : Prop where
  ok : ∀ {arguments heap outcome heap'}, method arguments heap = .ok outcome heap' → R heap heap'
  error : ∀ {arguments heap fault heap'}, method arguments heap = .error fault heap' → R heap heap'

/-- The heap changes as a relation says. -/
def Regime.heap (R : Heap → Heap → Prop) : Regime where
  sound _ := True
  becomes s t := R s.heap t.heap
  admits _ _ := True
  fails _ := True

section Heaps

variable {R : Heap → Heap → Prop} {p : Program} {depth : Nat}

theorem lawful_heap (allows : Heap.Allows R) {m : Module} : (Regime.heap R).Lawful m where
  refl s := allows.refl s.heap
  trans := allows.trans
  mono _ _ := trivial
  plain _ := trivial
  held _ _ _ _ := trivial
  ordinary _ := trivial
  endless _ := trivial
  dangling _ _ := trivial
  push {s o} _ _ := ⟨trivial, allows.push s.heap o, trivial⟩
  modify {s _ _} _ changes := ⟨trivial, allows.modify s.heap fun o found => (changes o found).1⟩
  note {s _} _ := ⟨trivial, allows.refl s.heap⟩

theorem refuses_heap : (Regime.heap R).Refuses p depth := fun _ _ => trivial

theorem abides_heap (hosts : ∀ host ∈ p.hostMethods, HostMethod.Within R host.2) : p.Abides (.heap R) := by
  intro host among s arguments _ _
  have within := hosts host among
  unfold Running.Obeys callHost
  cases called : host.2 arguments s.heap with
  | ok outcome heap =>
    refine ⟨trivial, within.ok called, ?_⟩
    cases outcome <;> trivial
  | error fault heap => exact ⟨trivial, within.error called, trivial⟩

theorem Frame.admitted_heap (f : Frame) (s : Machine) : f.Admitted (.heap R) s where
  arguments _ _ := trivial
  slots _ _ := trivial
  stack _ _ := trivial
  active _ _ := trivial
  pending next _ := by cases next <;> simp [Pending.Admitted, Regime.heap]

theorem Running.Obeys.heap {α : Type} {x : Running α} {Q : Machine → α → Prop} {s t : Machine} {a : α}
    (obeys : Obeys (.heap R) s x Q) (done : x s = .ok a t) : R s.heap t.heap := (obeys.ok done).2.1

theorem Program.after_heap (allows : Heap.Allows R) (hosts : ∀ host ∈ p.hostMethods, HostMethod.Within R host.2) (f : Frame)
    (callers : List Frame) (s : Machine) : R s.heap (p.after f callers s).machine.heap := by
  have room := Nat.le_max_right p.limits.callDepth (callers.length + 1)
  exact (obeys_advance (s := { s with executed := s.executed + 1 }) (lawful_heap allows) trivial (abides_heap hosts)
    (fun _ _ => refuses_heap) (fun g (_ : g ∈ f :: callers) => g.admitted_heap _) (Nat.lt_of_succ_le room) (Nat.le_max_left _ _)).allowed.1

theorem Program.Leads.heap (allows : Heap.Allows R) (hosts : ∀ host ∈ p.hostMethods, HostMethod.Within R host.2) {r r' : Stage}
    {visits : List Visit} (leads : p.Leads r visits r') : R r.machine.heap r'.machine.heap := by
  induction leads with
  | stay r => exact allows.refl _
  | step _ ih => exact allows.trans (p.after_heap allows hosts _ _ _) ih

end Heaps

end AspectWeaving

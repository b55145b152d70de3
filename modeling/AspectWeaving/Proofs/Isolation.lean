import AspectWeaving.Proofs.WeaveJobs

/-!
Isolation. A method that is woven stands in the place of the old one (`Module.lastMethod?_commit`), and nothing
else of a module is touched (`Module.Revised`, `Module.revised_commit`): weaving gives each method with a target
all of its decorators or leaves it as it was, whatever becomes of the others (`weaveModule_isolated`).
-/
namespace AspectWeaving

/-! ### Results -/

section Results

variable {m : Module} {results : List (Token × Except Fault MethodDef)} {token : Token} {fault : Fault}
  {woven : MethodDef}

theorem mem_wovenAmong : token ∈ wovenAmong results ↔ ∃ woven, (token, Except.ok woven) ∈ results := by
  unfold wovenAmong
  rw [List.mem_filterMap]
  constructor
  · rintro ⟨⟨own, result⟩, member, chosen⟩
    cases result with
    | error fault => cases chosen
    | ok woven =>
      cases chosen
      exact ⟨woven, member⟩
  · rintro ⟨woven, member⟩
    exact ⟨_, member, rfl⟩

theorem mem_failedAmong : (token, fault) ∈ failedAmong results ↔ (token, Except.error fault) ∈ results := by
  unfold failedAmong
  rw [List.mem_filterMap]
  constructor
  · rintro ⟨⟨own, result⟩, member, chosen⟩
    cases result with
    | ok woven => cases chosen
    | error fault =>
      cases chosen
      exact member
  · intro member
    exact ⟨_, member, rfl⟩

/-- Every result is that of a woven method or of one that failed, and both kinds keep their order. -/
theorem results_parted (results : List (Token × Except Fault MethodDef)) :
    (wovenAmong results ++ (failedAmong results).map (·.1)).Perm (results.map (·.1)) ∧
      (wovenAmong results).Sublist (results.map (·.1)) ∧ ((failedAmong results).map (·.1)).Sublist (results.map (·.1)) := by
  induction results with
  | nil => exact ⟨.nil, .slnil, .slnil⟩
  | cons e rest ih =>
    obtain ⟨all, woven, failed⟩ := ih
    obtain ⟨token, fault | d⟩ := e
    · exact ⟨List.perm_middle.trans (all.cons token), woven.cons token, failed.cons_cons token⟩
    · exact ⟨all.cons token, woven.cons_cons token, failed.cons token⟩

/-- What is woven of a method of a module differs from it in its body at most. -/
def Module.Fits (m : Module) (results : List (Token × Except Fault MethodDef)) : Prop :=
  ∀ token woven, (token, Except.ok woven) ∈ results →
    ∃ d, m.lastMethod? token = some d ∧ woven = { d with body := woven.body }

theorem Module.Fits.head (fits : m.Fits ((token, .ok woven) :: results)) :
    ∃ d, m.lastMethod? token = some d ∧ woven = { d with body := woven.body } :=
  fits token woven List.mem_cons_self

theorem Module.Fits.keepsToken (fits : m.Fits ((token, .ok woven) :: results)) : woven.token = token := by
  obtain ⟨d, known, frame⟩ := fits.head
  rw [frame]
  exact (of_lastMethod? known).1

theorem Module.Fits.tail {e : Token × Except Fault MethodDef} (fits : m.Fits (e :: results)) : m.Fits results :=
  fun token woven member => fits token woven (List.mem_cons_of_mem _ member)

/-- What is woven of the other methods is no worse for one that is put in place. -/
theorem Module.Fits.modifyLastMethod (fits : m.Fits ((token, .ok woven) :: results)) (unique : token ∉ results.map (·.1)) :
    (m.modifyLastMethod token fun _ => woven).Fits results := by
  intro method later member
  have other : method ≠ token := fun same => unique (same ▸ List.mem_map_of_mem member)
  rw [lastMethod?_modifyLastMethod (fun _ _ => fits.keepsToken) other]
  exact fits.tail method later member

end Results

/-! ### What stays of a module -/

/-- A method as it was, but for its body if it is one of the woven ones. -/
structure MethodDef.Revised (woven : List Token) (d d' : MethodDef) : Prop where
  frame : d' = { d with body := d'.body }
  kept : d.token ∉ woven → d' = d

/-- A type as it was, but for the bodies of the woven methods. -/
structure TypeDef.Revised (woven : List Token) (t t' : TypeDef) : Prop where
  frame : t' = { t with methods := t'.methods }
  methods : List.Forall₂ (MethodDef.Revised woven) t.methods t'.methods

/-- A module as it was, but for the bodies of the woven methods and for rows that are imported in addition. -/
structure Module.Revised (woven : List Token) (m m' : Module) : Prop where
  frame : m' = { m with types := m'.types, imports := m'.imports }
  types : List.Forall₂ (TypeDef.Revised woven) m.types m'.types
  imports : m.imports.Grows m'.imports

section Revised

variable {woven : List Token} {m m₁ m₂ : Module} {t t₁ t₂ : TypeDef} {d d₁ d₂ : MethodDef}

theorem MethodDef.Revised.refl (woven : List Token) (d : MethodDef) : d.Revised woven d := ⟨rfl, fun _ => rfl⟩

theorem MethodDef.Revised.trans (first : d.Revised woven d₁) (second : d₁.Revised woven d₂) : d.Revised woven d₂ := by
  have frame := second.frame
  rw [first.frame] at frame
  refine ⟨frame, fun other => ?_⟩
  obtain rfl := first.kept other
  exact second.kept other

theorem TypeDef.Revised.refl (woven : List Token) (t : TypeDef) : t.Revised woven t :=
  ⟨rfl, List.forall₂_same.mpr fun d _ => .refl woven d⟩

theorem TypeDef.Revised.trans (first : t.Revised woven t₁) (second : t₁.Revised woven t₂) : t.Revised woven t₂ := by
  have frame := second.frame
  rw [first.frame] at frame
  exact ⟨frame, forall₂_trans (R := MethodDef.Revised woven) (T := MethodDef.Revised woven) (fun _ _ _ => .trans) first.methods second.methods⟩

theorem Module.Revised.refl (woven : List Token) (m : Module) : m.Revised woven m :=
  ⟨rfl, List.forall₂_same.mpr fun t _ => .refl woven t, .refl m.imports⟩

theorem Module.Revised.trans (first : m.Revised woven m₁) (second : m₁.Revised woven m₂) : m.Revised woven m₂ := by
  have frame := second.frame
  rw [first.frame] at frame
  exact ⟨frame, forall₂_trans (R := TypeDef.Revised woven) (T := TypeDef.Revised woven) (fun _ _ _ => .trans) first.types second.types, first.imports.trans second.imports⟩

/-- Putting one woven method in the place of the old one. -/
theorem Module.revised_modifyLastMethod {new : MethodDef} (member : d.token ∈ woven) (known : m.lastMethod? d.token = some d)
    (frame : new = { d with body := new.body }) : m.Revised woven (m.modifyLastMethod d.token fun _ => new) := by
  refine ⟨rfl, ?_, .refl m.imports⟩
  apply forall₂_modifyLast (TypeDef.Revised.refl woven)
  intro t last
  refine ⟨rfl, ?_⟩
  apply forall₂_modifyLast (MethodDef.Revised.refl woven)
  intro e found
  have same : m.lastMethod? d.token = some e := Option.bind_eq_some_iff.mpr ⟨t, last, found⟩
  obtain rfl : d = e := Option.some.inj (known.symm.trans same)
  exact ⟨frame, fun other => absurd member other⟩

theorem Module.Revised.tokens (revised : m.Revised woven m₁) :
    m₁.types.map (fun t => (t.token, t.methods.map (·.token))) = m.types.map fun t => (t.token, t.methods.map (·.token)) := by
  have methods : ∀ {l l₁ : List MethodDef}, List.Forall₂ (MethodDef.Revised woven) l l₁ →
      l₁.map (·.token) = l.map (·.token) := by
    intro l l₁ all
    induction all with
    | nil => rfl
    | cons here _ ih => rw [List.map_cons, List.map_cons, ih, here.frame]
  have types := revised.types
  generalize m.types = l, m₁.types = l₁ at types
  induction types with
  | nil => rfl
  | cons here _ ih => rw [List.map_cons, List.map_cons, ih, methods here.methods, here.frame]

/-- Tokens that stand for one type or one method each go on to do so. -/
theorem Module.Distinct.revised (distinct : m.Distinct) (revised : m.Revised woven m₁) : m₁.Distinct := by
  have tokens := revised.tokens
  have types := congrArg (List.map Prod.fst) tokens
  have methods := congrArg (List.flatMap Prod.snd) tokens
  simp only [List.map_map, List.flatMap_map, Function.comp_def] at types methods
  constructor
  · rw [types]
    exact distinct.types
  · rw [methods]
    exact distinct.methods

end Revised

/-! ### Putting methods in place -/

section Commit

variable {m : Module} {results : List (Token × Except Fault MethodDef)} {token method : Token} {d new : MethodDef}

theorem Module.commit_ok :
    m.commit ((token, .ok new) :: results) = (m.modifyLastMethod token fun _ => new).commit results := rfl

/-- Only the methods that were woven change, and only in their bodies. -/
theorem Module.revised_commit {woven : List Token} (among : ∀ token ∈ wovenAmong results, token ∈ woven)
    (fits : m.Fits results) (unique : (results.map (·.1)).Nodup) : m.Revised woven (m.commit results) := by
  induction results generalizing m with
  | nil => exact .refl woven m
  | cons e rest ih =>
    rw [List.map_cons, List.nodup_cons] at unique
    obtain ⟨token, fault | new⟩ := e
    · exact ih among fits.tail unique.2
    · obtain ⟨d, known, frame⟩ := fits.head
      obtain ⟨rfl, -⟩ := of_lastMethod? known
      have member := among d.token List.mem_cons_self
      exact (revised_modifyLastMethod member known frame).trans
        (ih (fun token later => among token (List.mem_cons_of_mem _ later)) (fits.modifyLastMethod unique.1) unique.2)

theorem Module.lastMethod?_commit_of_not_mem (fits : m.Fits results) (unique : (results.map (·.1)).Nodup)
    (other : method ∉ results.map (·.1)) : (m.commit results).lastMethod? method = m.lastMethod? method := by
  induction results generalizing m with
  | nil => rfl
  | cons e rest ih =>
    rw [List.map_cons, List.nodup_cons] at unique
    rw [List.map_cons, List.mem_cons, not_or] at other
    obtain ⟨token, fault | new⟩ := e
    · exact ih fits.tail unique.2 other.2
    · rw [commit_ok, ih (fits.modifyLastMethod unique.1) unique.2 other.2]
      exact lastMethod?_modifyLastMethod (fun _ _ => fits.keepsToken) other.1

/-- A woven method stands in the place of the old one. -/
theorem Module.lastMethod?_commit (fits : m.Fits results) (unique : (results.map (·.1)).Nodup)
    (member : (method, .ok new) ∈ results) : (m.commit results).lastMethod? method = some new := by
  induction results generalizing m with
  | nil => cases member
  | cons e rest ih =>
    rw [List.map_cons, List.nodup_cons] at unique
    rcases List.mem_cons.mp member with rfl | later
    · obtain ⟨d, known, -⟩ := fits.head
      rw [commit_ok, lastMethod?_commit_of_not_mem (fits.modifyLastMethod unique.1) unique.2 unique.1,
        lastMethod?_modifyLastMethod_self fun _ _ => fits.keepsToken, known]
      rfl
    · obtain ⟨token, fault | first⟩ := e
      · exact ih fits.tail unique.2 later
      · exact ih (fits.modifyLastMethod unique.1) unique.2 later

end Commit

/-! ### The woven module -/

section Woven

variable {m : Module} {policy : Policy} {results : List (Token × Except Fault MethodDef)} {start final : ImportTable}

theorem fits_of_gives {jobs : List WeaveJob}
    (gives : List.Forall₂ (fun job e => job.Gives m (.ofModule m) policy start final e) jobs results) : m.Fits results := by
  intro token new member
  induction gives with
  | nil => cases member
  | cons here _ ih =>
    rcases List.mem_cons.mp member with rfl | later
    · obtain ⟨d, before, behind, known, -, decorated, -⟩ := here.runs
      rw [← here.method] at known
      exact ⟨d, known, frame_decorateAll decorated⟩
    · exact ih later

theorem methods_of_gives {jobs : List WeaveJob}
    (gives : List.Forall₂ (fun job e => job.Gives m (.ofModule m) policy start final e) jobs results) :
    results.map (·.1) = jobs.map (·.method) := by
  induction gives with
  | nil => rfl
  | cons here _ ih => rw [List.map_cons, List.map_cons, here.method, ih]

/-- The decorators that a method is to be woven with. -/
def Module.decorationsOf (m : Module) (policy : Policy) (method : Token) : List Decoration :=
  ((m.targets policy).filter (·.method == method)).map (·.decoration)

/-- What comes of the decorators of a method that is to be woven, put around it one after another while the module
    imports rows. -/
def Module.Decorated (m : Module) (policy : Policy) (final : ImportTable) (method : Token)
    (result : Except Fault MethodDef) : Prop :=
  ∃ d declaringType before behind, m.lastMethod? method = some d ∧ m.imports.Grows before.imports ∧
    decorateAll (.ofModule m) policy declaringType (m.decorationsOf policy method) d before = (result, behind) ∧
      behind.imports.Grows final

/-- The results of a weave are what comes of the decorators of each method. -/
theorem decorated_of_gives {e : Token × Except Fault MethodDef} (member : e ∈ results)
    (gives : List.Forall₂ (fun job e => job.Gives m (.ofModule m) policy m.imports final e)
      (jobsOf (m.targets policy)) results) :
    m.Decorated policy final e.1 e.2 := by
  obtain ⟨job, own, gives⟩ := exists_paired_left gives e member
  obtain ⟨d, before, behind, known, grows, decorated, finish⟩ := gives.runs
  rw [decorations_of_job own] at decorated
  rw [gives.method]
  exact ⟨d, job.declaringType, before, behind, known, grows, decorated, finish⟩

/-- Weaving a module tells of every method with a target once whether it was woven or not, in the order of the
    targets. A method is woven with all its decorators or stays as it was, for a fault that one of them met. Of a
    woven method only the body changes, and nothing else in the module does but that rows are imported in addition. -/
theorem weaveModule_isolated (m : Module) (policy : Policy) (s : Schedule) :
    let found := ((m.targets policy).map (·.method)).eraseDups
    let (m', report) := weaveModule m policy s
    (report.woven ++ report.failed.map (·.1)).Perm found ∧ found.Nodup ∧
      report.woven.Sublist found ∧ (report.failed.map (·.1)).Sublist found ∧
      m.Revised report.woven m' ∧
      (∀ method ∈ report.woven, ∃ d, m.Decorated policy m'.imports method (.ok d) ∧ m'.lastMethod? method = some d) ∧
      ∀ failure ∈ report.failed, m.Decorated policy m'.imports failure.1 (.error failure.2) := by
  cases came : weaveTargets m (.ofModule m) policy s (m.workspace policy) with
  | mk results final =>
    have gives := weaveTargets_gives came
    have fits := fits_of_gives gives
    have methods := (methods_of_gives gives).trans (methods_jobsOf (m.targets policy))
    have unique : (results.map (·.1)).Nodup := by
      rw [methods_of_gives gives]
      exact unique_jobsOf _
    have grows := (composed_weaveTargets (.ofModule m) policy m s).grows (m.workspace policy)
    rw [came] at grows
    obtain ⟨all, woven, failed⟩ := results_parted results
    have whole := weaveModule_eq m policy s
    rw [came] at whole
    rw [whole, ← methods]
    refine ⟨all, unique, woven, failed, ?_, ?_, ?_⟩
    · have revised := m.revised_commit (fun token member => member) fits unique
      have frame := revised.frame
      exact ⟨by rw [frame], revised.types, grows⟩
    · intro method member
      obtain ⟨d, listed⟩ := mem_wovenAmong.mp member
      exact ⟨d, decorated_of_gives listed gives, Module.lastMethod?_commit fits unique listed⟩
    · intro failure member
      exact decorated_of_gives (mem_failedAmong.mp member) gives

end Woven

end AspectWeaving

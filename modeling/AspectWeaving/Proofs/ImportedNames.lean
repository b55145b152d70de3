import AspectWeaving.Proofs.HookDiscipline
import AspectWeaving.Proofs.NamingEnds

/-!
Names of imported types. The token that a signature is imported with denotes it (`ImportTable.Denotes`), and does so for ever: it is
named by what the signature is named by (`Module.nameToken_of_denotes`). A name that a signature has stays when rows are added
(`Module.sigName?_mono`), and naming a signature ends, whatever rows are added, where the rows were in order
(`ImportTable.Ordered.acc_grown`). So an imported type has the name of its signature, now and later (`imported_types_keep_names`).
-/
namespace AspectWeaving

/-! ### Names while rows are added -/

theorem TypeSig.nameWith_mono {f g : Token → Option String} (more : ∀ token name, f token = some name → g token = some name)
    {sig : TypeSig} {name : String} (named : sig.nameWith f = some name) : sig.nameWith g = some name := by
  induction sig generalizing name with
  | classType token | valueType token => exact more token name named
  | array element ih | byRef element ih =>
    obtain ⟨inner, found, rfl⟩ := Option.map_eq_some_iff.mp named
    simp [nameWith, ih found]
  | _ => exact named

namespace ImportTable

variable {t u : ImportTable} {token : Token} {sig : TypeSig} {name : TypeName}

theorem Grows.size_typeSpecs (grows : t.Grows u) : t.typeSpecs.size ≤ u.typeSpecs.size := by
  by_contra fewer
  have last := grows.typeSpecs (Array.getElem?_eq_getElem (i := u.typeSpecs.size) (by omega))
  exact absurd (Array.getElem?_eq_some_iff.mp last).1 (Nat.lt_irrefl _)

theorem Grows.getTypeRef? (grows : t.Grows u) (here : t.getTypeRef? token = some name) : u.getTypeRef? token = some name := by
  unfold ImportTable.getTypeRef? rowOf? at here ⊢
  split at here
  · rename_i own
    rw [if_pos own]
    exact grows.typeRefs here
  · cases here

theorem Grows.getTypeSpec? (grows : t.Grows u) (here : t.getTypeSpec? token = some sig) : u.getTypeSpec? token = some sig := by
  rw [getTypeSpec?_eq_some_iff] at here ⊢
  exact ⟨here.1, here.2.1, grows.typeSpecs here.2.2⟩

/-- Where rows were in order, the signatures that mention them can be named whatever rows are added. -/
theorem Ordered.acc_grown (ordered : t.Ordered) (grows : t.Grows u) (among : sig.MentionsAmong t.typeSpecs.size) :
    Acc u.Asks (.sig sig) := by
  apply acc_sig_iff.mpr
  intro token mentions
  have before (i : Nat) (x : TypeSig) (inside : i < t.typeSpecs.size) (here : u.typeSpecs[i]? = some x) :
      x.MentionsAmong i := by
    have old := Array.getElem?_eq_getElem inside
    cases here.symm.trans (grows.typeSpecs old)
    exact ordered i _ old
  exact EndsWithin.acc (endsWithin_of_before before (among token mentions))

end ImportTable

namespace Module

variable {m n : Module} {token : Token} {sig : TypeSig} {name : String} {depth more : Nat}

theorem tokenNameWithin_mono {u : ImportTable} (grows : m.imports.Grows u) (deeper : depth ≤ more)
    (named : m.tokenNameWithin depth token = some name) : { m with imports := u }.tokenNameWithin more token = some name := by
  induction depth generalizing token name more with
  | zero => cases named
  | succ depth ih =>
    obtain ⟨more, rfl⟩ := Nat.exists_eq_add_one.mpr (Nat.lt_of_lt_of_le (Nat.succ_pos depth) deeper)
    unfold tokenNameWithin at named ⊢
    split at named
    · rename_i defined
      rw [if_pos defined]
      exact named
    · rename_i undefined
      rw [if_neg undefined]
      split at named
      · rename_i imported
        obtain ⟨row, here, rfl⟩ := Option.map_eq_some_iff.mp named
        simp [imported, grows.getTypeRef? here]
      · rename_i other
        rw [if_neg other]
        split at named
        · rename_i constructed
          obtain ⟨sig, here, named⟩ := Option.bind_eq_some_iff.mp named
          rw [if_pos constructed, grows.getTypeSpec? here]
          exact TypeSig.nameWith_mono (fun token name => ih (Nat.le_of_succ_le_succ deeper)) named
        · cases named

/-- A name that a signature has stays when rows are added. -/
theorem sigName?_mono {u : ImportTable} (grows : m.imports.Grows u) (named : m.sigName? sig = some name) :
    { m with imports := u }.sigName? sig = some name :=
  TypeSig.nameWith_mono (fun _ _ => tokenNameWithin_mono grows (Nat.succ_le_succ grows.size_typeSpecs)) named

end Module

/-! ### What an imported token denotes -/

namespace ImportTable

/-- A token stands for a signature: it is the one that is written there, or that of a row of the type. -/
inductive Denotes (t : ImportTable) : Token → TypeSig → Prop
  | classType (token : Token) : t.Denotes token (.classType token)
  | valueType (token : Token) : t.Denotes token (.valueType token)
  | builtin {token : Token} {sig : TypeSig} {name : TypeName} (known : sig.builtinName? = some name) (names : t.NamesType token name) :
    t.Denotes token sig
  | constructed {sig : TypeSig} {i : Nat} (here : t.typeSpecs[i]? = some sig) : t.Denotes (.ofParts Token.typeSpec (i + 1)) sig

variable {t u : ImportTable} {token : Token} {sig : TypeSig}

theorem Denotes.mono (denotes : t.Denotes token sig) (grows : t.Grows u) : u.Denotes token sig := by
  cases denotes with
  | classType => exact .classType token
  | valueType => exact .valueType token
  | builtin known names => exact .builtin known (names.mono grows)
  | constructed here => exact .constructed (grows.typeSpecs here)

end ImportTable

/-- Naming a token goes on as naming the signature it stands for. -/
theorem Module.nameToken_of_denotes {m : Module} {token : Token} {sig : TypeSig} (denotes : m.imports.Denotes token sig)
    (room : ∀ kind, m.imports.count kind ≤ ImportTable.maxRows) : m.nameToken token = m.nameSig sig := by
  cases denotes with
  | classType | valueType => rw [nameSig.eq_def]
  | builtin known names =>
    have own : token.table ≠ Token.typeDef := by rw [names.table]; decide
    rw [nameToken.eq_def, if_neg own, if_pos names.table, names.getTypeRef? (room .type), nameSig.eq_def]
    cases sig <;> cases known <;> rfl
  | @constructed _ i here =>
    have inside := (Array.getElem?_eq_some_iff.mp here).1
    have few : m.imports.typeSpecs.size ≤ ImportTable.maxRows := room .spec
    unfold ImportTable.maxRows at few
    have table : (Token.ofParts Token.typeSpec (i + 1)).table = Token.typeSpec := Token.table_ofParts ..
    have row : (Token.ofParts Token.typeSpec (i + 1)).row = i + 1 := by
      rw [Token.row_ofParts]
      omega
    have found : m.imports.getTypeSpec? (.ofParts Token.typeSpec (i + 1)) = some sig := by
      apply ImportTable.getTypeSpec?_eq_some_iff.mpr
      rw [row]
      exact ⟨table, Nat.succ_pos i, here⟩
    rw [nameToken.eq_def, if_neg (by rw [table]; decide), if_neg (by rw [table]; decide), if_pos table, found]

namespace Resolver

variable {r : Resolver} {sig : TypeSig} {t u : ImportTable} {token : Token} {fault : Fault}

theorem importType_denotes (done : r.importType sig t = .ok token u) : u.Denotes token sig := by
  have builtin : ∀ name, r.resolveType (.external name) t = .ok token u → u.NamesType token name :=
    fun _ found => (resolveType_external found).2
  cases sig with
  | classType => cases done; exact .classType _
  | valueType => cases done; exact .valueType _
  | array | byRef =>
    cases done
    exact .constructed (getElem?_intern_self ..)
  | _ => exact .builtin rfl (builtin _ done)

/-- A signature is imported unless it is that of a built-in type which the library has not. -/
theorem importType_cases (r : Resolver) (sig : TypeSig) (t : ImportTable) :
    ((∀ name ∈ sig.builtinName?, r.library.contains name = true) ∧ ∃ token u, r.importType sig t = .ok token u) ∨
      ∃ name ∈ sig.builtinName?, r.library.contains name = false ∧ r.importType sig t = .error (.typeNotFound name.fullName) t := by
  have builtin : ∀ name, (r.library.contains name = true ∧ ∃ token u, r.resolveType (.external name) t = .ok token u) ∨
      r.library.contains name = false ∧ r.resolveType (.external name) t = .error (.typeNotFound name.fullName) t := by
    intro name
    simp only [resolveType]
    cases known : r.library.contains name with
    | true => exact .inl ⟨rfl, _, _, rfl⟩
    | false => exact .inr ⟨rfl, rfl⟩
  cases sig with
  | classType | valueType | array | byRef =>
    refine .inl ⟨?_, _, _, rfl⟩
    intro name known
    cases known
  | _ =>
    rcases builtin _ with ⟨known, done⟩ | ⟨unknown, failed⟩
    · exact .inl ⟨fun name same => Option.some.inj same ▸ known, done⟩
    · exact .inr ⟨_, rfl, unknown, failed⟩

end Resolver

/-- A signature is imported beside answers that are kept, after any calls that leave rows of constructed types which mention only rows
    before them, and mentions only such rows itself. This fails just for a built-in type that the library has not, and then adds nothing.
    Otherwise, whatever calls are made later, as long as tokens can tell all rows apart: naming the token and naming the signature both
    end, with the same name, which is the one that the signature had before if it had any; and importing it again gives the same token,
    without a new row. -/
theorem imported_types_keep_names (m : Module) (r : Resolver) (before : List ImportCall) (sig : TypeSig) :
    let s := (inTurn r.perform before { imports := m.imports }).2
    s.imports.Ordered → sig.MentionsAmong s.imports.typeSpecs.size →
      ((∃ token s', r.rememberSignature sig s = .ok token s') ↔ ∀ name ∈ sig.builtinName?, r.library.contains name = true) ∧
      (∀ fault s', r.rememberSignature sig s = .error fault s' → s'.imports = s.imports ∧
        ∃ name ∈ sig.builtinName?, r.library.contains name = false ∧ fault = .typeNotFound name.fullName) ∧
      ∀ token s' later, r.rememberSignature sig s = .ok token s' →
        let u := (inTurn r.perform later s').2
        let n := { m with imports := u.imports }
        (∀ kind, u.imports.count kind ≤ ImportTable.maxRows) →
          (∃ name, (n.nameToken token = some name ∧ n.nameSig sig = some name) ∧ (n.tokenName? token = name ∧ n.sigName? sig = name) ∧
            ∀ known, { m with imports := s.imports }.sigName? sig = some known → name = some known) ∧
          ∃ v, r.rememberSignature sig u = .ok token v ∧ v.imports = u.imports := by
  intro s ordered among
  have sound : s.Sound r := (r.inTurn_perform before (r.sound_fresh m.imports)).2
  have follows : Remembering.Follows r (r.rememberSignature sig) (r.importType sig) := r.remember_follows (.signature sig)
  rcases r.importType_cases sig s.imports with ⟨known, token, t, done⟩ | ⟨name, builtin, unknown, failed⟩
  · obtain ⟨s', came, rfl, sound'⟩ := follows.ok sound done
    refine ⟨⟨fun _ => known, fun _ => ⟨token, s', came⟩⟩, fun fault v failed => (by cases came.symm.trans failed),
      fun other v later again => ?_⟩
    cases came.symm.trans again
    intro u n room
    obtain ⟨rows, sound''⟩ := r.inTurn_perform later sound'
    have onward : s'.imports.Grows u.imports := by
      rw [rows]
      exact r.grows_calls later s'.imports
    have grows : s.imports.Grows u.imports := (r.grows_importType done).trans onward
    have same : n.nameToken token = n.nameSig sig := Module.nameToken_of_denotes ((Resolver.importType_denotes done).mono onward) room
    have named : n.nameSig sig = some (n.sigName? sig) := Module.nameOf_of_acc (x := .sig sig) (ordered.acc_grown grows among)
    have bounded : n.tokenName? token = n.sigName? sig :=
      (Module.nameOf_eq_some_iff (x := .token token).mp (same.trans named)).2
    refine ⟨⟨n.sigName? sig, ⟨same.trans named, named⟩, ⟨bounded, rfl⟩, fun known before => ?_⟩, ?_⟩
    · exact Module.sigName?_mono (m := { m with imports := s.imports }) grows before
    · obtain ⟨w, found, kept, -⟩ := follows.ok sound'' ((settles_importType r sig).again done onward)
      exact ⟨w, found, kept⟩
  · obtain ⟨s', came, rows, -⟩ := follows.error sound failed
    refine ⟨⟨?_, fun known => ?_⟩, fun fault v again => ?_, fun token v later done => (by cases came.symm.trans done)⟩
    · rintro ⟨token, v, done⟩
      cases came.symm.trans done
    · cases (known name builtin).symm.trans unknown
    · cases came.symm.trans again
      exact ⟨rows, name, builtin, unknown, rfl⟩

namespace Sample

/-- References to arrays of arrays of a type, of which there is a row for the inner arrays. -/
def matrixSig : TypeSig := .byRef (.array (.classType (.ofParts Token.typeSpec 1)))

/-- A row that mentions itself, behind the rows for these. -/
def circularCall : ImportCall := .row (.spec (.array (.classType (.ofParts Token.typeSpec 4))))

theorem matrix_keeps_name :
    let r := Resolver.ofModule blank
    let s := (inTurn r.perform nestedCalls { imports := blank.imports }).2
    s.imports.Ordered ∧ matrixSig.MentionsAmong s.imports.typeSpecs.size ∧
      ∃ s', r.rememberSignature matrixSig s = .ok (.ofParts Token.typeSpec 3) s' ∧
        let n : Module := { blank with imports := (inTurn r.perform [circularCall] s').2.imports }
        (∀ kind, n.imports.count kind ≤ ImportTable.maxRows) ∧
        n.nameToken (.ofParts Token.typeSpec 3) = some (some "System.Object[][]&") ∧
        n.nameToken (.ofParts Token.typeSpec 3) = n.nameSig matrixSig := by
  intro r s
  have rows : s.imports.typeSpecs = #[.array (.classType (.ofParts Token.typeRef 1)), .byRef (.classType (.ofParts Token.typeSpec 1))] := by
    decide +kernel
  have ordered : s.imports.Ordered := by
    intro i sig here
    rw [rows] at here
    match i with
    | 0 | 1 =>
      cases here
      decide
    | _ + 2 => simp at here
  have among : matrixSig.MentionsAmong s.imports.typeSpecs.size := by
    rw [rows]
    decide
  have third : (s.imports.typeSpec matrixSig).2 = .ofParts Token.typeSpec 3 := by decide +kernel
  have came : r.rememberSignature matrixSig s = .ok (.ofParts Token.typeSpec 3) { s with imports := (s.imports.typeSpec matrixSig).1 } := by
    rw [← third]
    rfl
  obtain ⟨-, -, all⟩ := imported_types_keep_names blank r nestedCalls matrixSig ordered among
  refine ⟨ordered, among, _, came, ?_⟩
  intro n
  have room : ∀ kind, n.imports.count kind ≤ ImportTable.maxRows := by
    intro kind
    cases kind <;> decide +kernel
  obtain ⟨⟨name, ⟨token, sig⟩, ⟨-, bounded⟩, -⟩, -⟩ := all (.ofParts Token.typeSpec 3) _ [circularCall] came room
  have known : n.sigName? matrixSig = some "System.Object[][]&" := by decide +kernel
  refine ⟨room, ?_, token.trans sig.symm⟩
  rw [token, ← bounded, known]

end Sample

end AspectWeaving

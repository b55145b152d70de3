import AspectWeaving.Calls

/-!
What comes of naming in a run. A name that is found at all is found by naming (`Module.naming_of_tokenName?`), and naming ends for
every token but those of constructed types (`Module.naming_of_table`). So the attributes of a type that is defined or imported can
always be selected (`selectAttributes_of_naming`).
-/
namespace AspectWeaving

variable {m : Module} {token next : Token} {sig : TypeSig} {name : String} {name? : Token → Option String} {depth : Nat}

/-- A signature with a name mentions no token without one. -/
theorem TypeSig.nameWith_of_mentioned? (named : sig.nameWith name? = some name) (mentions : sig.mentioned? = some next) :
    ∃ inner, name? next = some inner := by
  induction sig generalizing name with
  | classType token | valueType token =>
    cases mentions
    exact ⟨name, named⟩
  | array element ih | byRef element ih =>
    obtain ⟨inner, found, -⟩ := Option.map_eq_some_iff.mp named
    exact ih found mentions
  | _ => cases mentions

namespace ImportTable

variable {t : ImportTable}

theorem leadsBeyond_of_onward? (stops : t.onward? token = none) : t.leadsBeyond depth token = false := by
  cases depth <;> simp [leadsBeyond, stops]

/-- Only rows of constructed types lead on. -/
theorem onward?_of_table (table : token.table ≠ Token.typeSpec) : t.onward? token = none := by
  simp [onward?, getTypeSpec?, rowOf?, table]

end ImportTable

namespace Module

/-- What the row of a named token leads on to is named, through one row less. -/
theorem tokenNameWithin_of_onward? (named : m.tokenNameWithin (depth + 1) token = some name)
    (leads : m.imports.onward? token = some next) : ∃ inner, m.tokenNameWithin depth next = some inner := by
  obtain ⟨sig, row, mentions⟩ := Option.bind_eq_some_iff.mp leads
  have table : token.table = Token.typeSpec := by
    apply Decidable.byContradiction
    intro other
    rw [ImportTable.onward?_of_table other] at leads
    cases leads
  rw [tokenNameWithin, if_neg (by rw [table]; decide), if_neg (by rw [table]; decide), if_pos table, row] at named
  exact TypeSig.nameWith_of_mentioned? named mentions

/-- Where rows lead on too often there is no name. -/
theorem leadsBeyond_of_tokenNameWithin (named : m.tokenNameWithin (depth + 1) token = some name) :
    m.imports.leadsBeyond depth token = false := by
  induction depth generalizing token name with
  | zero =>
    cases leads : m.imports.onward? token with
    | none => exact ImportTable.leadsBeyond_of_onward? leads
    | some next =>
      obtain ⟨inner, named⟩ := tokenNameWithin_of_onward? named leads
      cases named
  | succ depth ih =>
    cases leads : m.imports.onward? token with
    | none => exact ImportTable.leadsBeyond_of_onward? leads
    | some next =>
      obtain ⟨inner, named⟩ := tokenNameWithin_of_onward? named leads
      simp only [ImportTable.leadsBeyond, leads, Option.any_some]
      exact ih named

/-- Naming ends for what is defined or imported. -/
theorem naming_of_table (table : token.table ≠ Token.typeSpec) : m.naming token = .ok (m.tokenName? token) := by
  simp [naming, isEndless, ImportTable.leadsBeyond_of_onward? (ImportTable.onward?_of_table table)]

theorem naming_of_tokenName? (named : m.tokenName? token = some name) : m.naming token = .ok (some name) := by
  simp [naming, isEndless, leadsBeyond_of_tokenNameWithin named, named]

theorem naming_cases (m : Module) (token : Token) :
    m.naming token = .ok (m.tokenName? token) ∨ m.naming token = .error (.endlessName token) := by
  unfold naming
  split
  · exact .inr rfl
  · exact .inl rfl

end Module

/-! ### Attributes that are selected -/

theorem selectAttributes_of_naming {method : Token} {name? : Option String} (named : m.naming token = .ok name?) :
    selectAttributes m method (some token) = .ok (attributesOf m method (some token)) := by
  simp only [selectAttributes, named]
  split <;> rfl

theorem selectAttributes_cases (m : Module) (method : Token) (type : Option Token) :
    selectAttributes m method type = .ok (attributesOf m method type) ∨ ∃ cause, selectAttributes m method type = .error cause := by
  cases type with
  | none => exact .inl rfl
  | some type =>
    rcases m.naming_cases type with named | endless
    · exact .inl (selectAttributes_of_naming named)
    · simp only [selectAttributes, endless]
      split
      · exact .inl rfl
      · exact .inr ⟨_, rfl⟩

end AspectWeaving

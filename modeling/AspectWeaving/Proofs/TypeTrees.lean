import AspectWeaving.ModuleTree
import AspectWeaving.Proofs.InternedRows
import AspectWeaving.Proofs.ModuleMethods
import AspectWeaving.Proofs.Planning
import Mathlib.Data.List.Range

/-!
Trees of types. What is proved of trees follows the first of them: the types inside it, then the other trees (`forest_induction`).
A type is known by its row (`TypeTree.row`), which has the tokens of the types directly inside it; a change of one type changes its
row, and puts what is new in it among the rows (`rows_changeFirstAmong?`). The searches through trees are searches through the list
of all types.
-/
namespace AspectWeaving

/-! ### Changing the first item of a list -/

section Modify

variable {α β : Type} {p : α → Bool} {f : α → α} {g : α → List β} {l l' : List α} {extra : List β}

theorem modifyFirst_cons_of_pos {a : α} (first : p a) : modifyFirst p f (a :: l) = f a :: l := if_pos first

theorem modifyFirst_cons_of_neg {a : α} (other : ¬p a) : modifyFirst p f (a :: l) = a :: modifyFirst p f l := if_neg other

theorem modifyFirst_append_left (here : ∃ a ∈ l, p a) : modifyFirst p f (l ++ l') = modifyFirst p f l ++ l' := by
  induction l with
  | nil => simp at here
  | cons a rest ih =>
    by_cases first : p a
    · rw [List.cons_append, modifyFirst_cons_of_pos first, modifyFirst_cons_of_pos first, List.cons_append]
    · have later : ∃ a ∈ rest, p a := by simpa [first] using here
      rw [List.cons_append, modifyFirst_cons_of_neg first, modifyFirst_cons_of_neg first, List.cons_append, ih later]

theorem modifyFirst_append_right (missing : ∀ a ∈ l, ¬p a) : modifyFirst p f (l ++ l') = l ++ modifyFirst p f l' := by
  induction l with
  | nil => rfl
  | cons a rest ih =>
    obtain ⟨other, missing⟩ := List.forall_mem_cons.mp missing
    rw [List.cons_append, modifyFirst_cons_of_neg other, ih missing, List.cons_append]

theorem mem_modifyFirst (here : ∃ a ∈ l, p a) : ∃ a ∈ l, p a ∧ f a ∈ modifyFirst p f l := by
  induction l with
  | nil => simp at here
  | cons a rest ih =>
    by_cases first : p a
    · exact ⟨a, List.mem_cons_self, first, by simp [modifyFirst_cons_of_pos first]⟩
    · obtain ⟨b, member, own, changed⟩ := ih (by simpa [first] using here)
      exact ⟨b, List.mem_cons_of_mem _ member, own, by simp [modifyFirst_cons_of_neg first, changed]⟩

/-- What is read off all items grows by what is read off the changed one. -/
theorem flatMap_modifyFirst (here : ∃ a ∈ l, p a) (more : ∀ a, p a → (g (f a)).Perm (g a ++ extra)) :
    ((modifyFirst p f l).flatMap g).Perm (l.flatMap g ++ extra) := by
  induction l with
  | nil => simp at here
  | cons a rest ih =>
    by_cases first : p a
    · rw [modifyFirst_cons_of_pos first, List.flatMap_cons, List.flatMap_cons]
      refine ((more a first).append_right _).trans ?_
      simpa [List.append_assoc] using List.perm_append_comm.append_left (g a)
    · have later : ∃ a ∈ rest, p a := by simpa [first] using here
      simpa [modifyFirst_cons_of_neg first, List.append_assoc] using (ih later).append_left (g a)

end Modify

/-! ### Trees and declarations one after another -/

/-- What holds of no trees, and of some trees if it does of those in the first and of the others, holds of all. -/
theorem forest_induction {P : List TypeTree → Prop} (nil : P []) (cons : ∀ t rest, P t.nested → P rest → P (t :: rest)) :
    ∀ trees, P trees :=
  @TypeTree.rec_1 (fun t => P t.nested) P (fun _ _ _ _ _ _ inner => inner) nil cons

/-- What holds of no declarations, and of some if it does of those in the first and of the others, holds of all. -/
theorem declarations_induction {P : List TypeDecl → Prop} (nil : P [])
    (cons : ∀ decl rest, P decl.nested → P rest → P (decl :: rest)) : ∀ decls, P decls :=
  @TypeDecl.rec_1 (fun decl => P decl.nested) P (fun _ _ _ _ _ inner => inner) nil cons

/-- Trees in which the first type with a token is changed. -/
def changeAmong? (token : Token) (f : TypeTree → TypeTree) : List TypeTree → Option (List TypeTree) :=
  changeFirstAmong? fun t => if t.token = token then some (f t) else none

section Forests

variable {t u : TypeTree} {rest trees trees' : List TypeTree} {token : Token} {taken : RowCounts}

theorem TypeTree.all_eq (t : TypeTree) : t.all = t :: allTypes t.nested := by
  cases t
  simp [TypeTree.all]

theorem allTypes_cons (t : TypeTree) (rest : List TypeTree) : allTypes (t :: rest) = t :: (allTypes t.nested ++ allTypes rest) := by
  simp [allTypes, TypeTree.all_eq]

theorem allTypes_eq_flatMap (trees : List TypeTree) : allTypes trees = trees.flatMap (·.all) := by
  induction trees with
  | nil => simp [allTypes]
  | cons t rest ih => simp [allTypes, ih]

theorem allTypes_append (trees trees' : List TypeTree) : allTypes (trees ++ trees') = allTypes trees ++ allTypes trees' := by
  simp [allTypes_eq_flatMap]

theorem findAmong?_cons (token : Token) (t : TypeTree) (rest : List TypeTree) :
    findAmong? token (t :: rest) = if t.token = token then some t else (findAmong? token t.nested).or (findAmong? token rest) := by
  cases t
  simp only [findAmong?, TypeTree.find?]
  split <;> simp

theorem changeAmong?_cons (token : Token) (f : TypeTree → TypeTree) (t : TypeTree) (rest : List TypeTree) :
    changeAmong? token f (t :: rest) =
      if t.token = token then some (f t :: rest)
      else ((changeAmong? token f t.nested).map fun nested => { t with nested } :: rest).or ((changeAmong? token f rest).map (t :: ·)) := by
  obtain ⟨own, name, flags, base, methods, nested⟩ := t
  simp only [changeAmong?, changeFirstAmong?, TypeTree.changeFirst?]
  by_cases first : own = token
  · simp [first]
  · cases changeFirstAmong? (fun t => if t.token = token then some (f t) else none) nested <;> simp [first]

theorem numberAll_cons (taken : RowCounts) (decl : TypeDecl) (rest : List TypeDecl) :
    numberAll taken (decl :: rest) =
      ((decl.number taken).1 :: (numberAll (decl.number taken).2 rest).1, (numberAll (decl.number taken).2 rest).2) := by
  simp [numberAll]

theorem TypeDecl.number_eq (taken : RowCounts) (decl : TypeDecl) :
    decl.number taken =
      let inner := numberAll ⟨taken.types + 1, taken.methods + decl.methods.length⟩ decl.nested
      (⟨.ofParts Token.typeDef (taken.types + 1), decl.name, decl.flags, decl.base, numberMethods taken.methods decl.methods, inner.1⟩,
        inner.2) := by
  cases decl
  simp [TypeDecl.number]

theorem TypeDecl.token_number (taken : RowCounts) (decl : TypeDecl) :
    (decl.number taken).1.token = .ofParts Token.typeDef (taken.types + 1) := by
  rw [TypeDecl.number_eq]

/-- The search through trees comes to the first type with the token in the list of all types. -/
theorem findAmong?_eq (token : Token) (trees : List TypeTree) :
    findAmong? token trees = (allTypes trees).find? (·.token == token) := by
  induction trees using forest_induction with
  | nil => simp [findAmong?, allTypes]
  | cons t rest inner others =>
    rw [findAmong?_cons, allTypes_cons, inner, others, ← List.find?_append]
    by_cases own : t.token = token
    · rw [if_pos own, List.find?_cons_of_pos (by simpa using own)]
    · rw [if_neg own, List.find?_cons_of_neg (by simpa using own)]

/-- The types of some trees are those at the top and those directly inside one of them. -/
theorem mem_allTypes_iff : u ∈ allTypes trees ↔ u ∈ trees ∨ ∃ t ∈ allTypes trees, u ∈ t.nested := by
  induction trees using forest_induction with
  | nil => simp [allTypes]
  | cons t rest inner others =>
    simp only [allTypes_cons, List.mem_cons, List.mem_append, or_and_right, exists_or, exists_eq_left]
    rw [inner, others]
    simp only [or_assoc, or_left_comm]

/-- A type stands before those directly inside it. -/
theorem sublist_allTypes (member : t ∈ allTypes trees) (inside : u ∈ t.nested) : [t, u].Sublist (allTypes trees) := by
  induction trees using forest_induction with
  | nil => simp [allTypes] at member
  | cons first rest inner others =>
    rw [allTypes_cons] at member ⊢
    rcases List.mem_cons.mp member with rfl | later
    · refine .cons_cons _ (List.singleton_sublist.mpr (List.mem_append_left _ ?_))
      exact mem_allTypes_iff.mpr (.inl inside)
    · refine .cons _ ?_
      rcases List.mem_append.mp later with here | there
      · exact (inner here).trans (List.sublist_append_left ..)
      · exact (others there).trans (List.sublist_append_right ..)

/-- A change is made just if there is a type with the token. -/
theorem isSome_changeAmong?_iff {f : TypeTree → TypeTree} :
    (changeAmong? token f trees).isSome ↔ token ∈ (allTypes trees).map (·.token) := by
  induction trees using forest_induction with
  | nil => simp [changeAmong?, changeFirstAmong?, allTypes]
  | cons t rest inner others =>
    rw [changeAmong?_cons, allTypes_cons, List.map_cons, List.map_append, List.mem_cons, List.mem_append, ← inner, ← others]
    by_cases own : t.token = token
    · simp [own]
    · simp [own, Ne.symm own]

/-- A change is made at the first tree, inside it, or behind it where there is no type with the token inside. -/
theorem changeAmong?_cons_cases {f : TypeTree → TypeTree} (changed : changeAmong? token f (t :: rest) = some trees') :
    (t.token = token ∧ trees' = f t :: rest) ∨
      t.token ≠ token ∧
        ((token ∈ (allTypes t.nested).map (·.token) ∧
            ∃ nested, changeAmong? token f t.nested = some nested ∧ trees' = { t with nested } :: rest) ∨
          (token ∉ (allTypes t.nested).map (·.token) ∧ ∃ rest', changeAmong? token f rest = some rest' ∧ trees' = t :: rest')) := by
  have listed : (changeAmong? token f t.nested).isSome ↔ token ∈ (allTypes t.nested).map (·.token) := isSome_changeAmong?_iff
  rw [changeAmong?_cons] at changed
  by_cases own : t.token = token
  · rw [if_pos own] at changed
    exact .inl ⟨own, (Option.some.inj changed).symm⟩
  · rw [if_neg own] at changed
    cases inside : changeAmong? token f t.nested with
    | some nested =>
      rw [inside] at changed listed
      exact .inr ⟨own, .inl ⟨listed.mp rfl, nested, rfl, (Option.some.inj changed).symm⟩⟩
    | none =>
      rw [inside] at changed listed
      obtain ⟨rest', later, same⟩ := Option.map_eq_some_iff.mp changed
      exact .inr ⟨own, .inr ⟨fun member => Bool.false_ne_true (listed.mpr member), rest', later, same.symm⟩⟩

end Forests

/-! ### Rows -/

/-- A type as it stands in its row, with the tokens of the types directly inside it. -/
structure TypeRow where
  token : Token
  name : TypeName
  flags : TypeFlags
  base : Option TypeLocator
  methods : List MethodDef
  nested : List Token

/-- The row of a type. -/
def TypeTree.row (t : TypeTree) : TypeRow := ⟨t.token, t.name, t.flags, t.base, t.methods, t.nested.map (·.token)⟩

@[simp] theorem TypeTree.token_row (t : TypeTree) : t.row.token = t.token := rfl

/-- The rows of all types of some trees. -/
def rowsOf (trees : List TypeTree) : List TypeRow := (allTypes trees).map TypeTree.row

/-- The tokens of the methods in some rows. -/
def methodTokens (rows : List TypeRow) : List Token := rows.flatMap fun r => r.methods.map (·.token)

section Rows

variable {f : TypeTree → TypeTree} {h : TypeRow → TypeRow} {extra : List TypeRow} {trees trees' : List TypeTree} {token : Token}

@[simp] theorem rowsOf_nil : rowsOf [] = [] := by
  simp [rowsOf, allTypes]

theorem rowsOf_cons (t : TypeTree) (rest : List TypeTree) : rowsOf (t :: rest) = t.row :: (rowsOf t.nested ++ rowsOf rest) := by
  simp [rowsOf, allTypes_cons]

theorem rowsOf_append (trees trees' : List TypeTree) : rowsOf (trees ++ trees') = rowsOf trees ++ rowsOf trees' := by
  simp [rowsOf, allTypes_append]

theorem map_token_rowsOf (trees : List TypeTree) : (rowsOf trees).map (·.token) = (allTypes trees).map (·.token) := by
  simp [rowsOf, TypeTree.row]

/-- A change of a type changes its row, and puts what is new in it among the rows. -/
theorem rows_changeAmong? (changed : changeAmong? token f trees = some trees') (h : TypeRow → TypeRow) (extra : List TypeRow)
    (own : ∀ t, (f t).token = t.token) (more : ∀ t, (rowsOf [f t]).Perm (h t.row :: rowsOf t.nested ++ extra)) :
    trees'.map (·.token) = trees.map (·.token) ∧ (rowsOf trees').Perm (modifyFirst (·.token == token) h (rowsOf trees) ++ extra) := by
  induction trees using forest_induction generalizing trees' with
  | nil => simp [changeAmong?, changeFirstAmong?] at changed
  | cons t rest inner others =>
    rw [rowsOf_cons]
    obtain ⟨first, rfl⟩ | ⟨other, ⟨here, nested, found, rfl⟩ | ⟨missing, rest', later, rfl⟩⟩ := changeAmong?_cons_cases changed
    · refine ⟨congrArg (· :: _) (own t), ?_⟩
      have split : rowsOf (f t :: rest) = rowsOf [f t] ++ rowsOf rest := rowsOf_append [f t] rest
      rw [split, modifyFirst_cons_of_pos (by simpa using first)]
      refine ((more t).append_right _).trans ?_
      simpa [List.append_assoc] using List.perm_append_comm.append_left (rowsOf t.nested)
    · obtain ⟨tokens, rows⟩ := inner found
      have row : ({ t with nested } : TypeTree).row = t.row := by simp [TypeTree.row, tokens]
      rw [← map_token_rowsOf] at here
      rw [rowsOf_cons, row, modifyFirst_cons_of_neg (by simpa using other), modifyFirst_append_left (by simpa using here)]
      refine ⟨rfl, .cons _ ((rows.append_right _).trans ?_)⟩
      simpa [List.append_assoc] using List.perm_append_comm.append_left (modifyFirst (·.token == token) h (rowsOf t.nested))
    · obtain ⟨tokens, rows⟩ := others later
      rw [← map_token_rowsOf] at missing
      rw [rowsOf_cons, modifyFirst_cons_of_neg (by simpa using other), modifyFirst_append_right (by simpa using missing)]
      refine ⟨congrArg (_ :: ·) tokens, .cons _ ?_⟩
      simpa [List.append_assoc] using rows.append_left (rowsOf t.nested)

end Rows

/-! ### Numbered declarations -/

/-- The tokens of the first rows of a table. -/
def rowTokens (table count : Nat) : List Token := (List.range' 1 count).map (.ofParts table)

/-- Some trees take the rows from one count to the other, their types and methods in the order in which they stand. -/
structure Takes (trees : List TypeTree) (taken after : RowCounts) : Prop where
  types : rowTokens Token.typeDef after.types = rowTokens Token.typeDef taken.types ++ (rowsOf trees).map (·.token)
  methods : rowTokens Token.methodDef after.methods = rowTokens Token.methodDef taken.methods ++ methodTokens (rowsOf trees)

mutual

/-- What a type has been declared as. -/
def TypeTree.decl : TypeTree → TypeDecl
  | ⟨_, name, flags, base, methods, nested⟩ => ⟨name, flags, base, methods.map (·.toMethod), declsOf nested⟩

/-- What some types have been declared as. -/
def declsOf : List TypeTree → List TypeDecl
  | [] => []
  | t :: rest => t.decl :: declsOf rest

end

section Numbering

variable {count : Nat}

theorem rowTokens_succ (table count : Nat) : rowTokens table (count + 1) = rowTokens table count ++ [.ofParts table (count + 1)] := by
  simp [rowTokens, List.range'_concat, Nat.add_comm]

theorem nodup_rowTokens (table : Nat) (room : count ≤ ImportTable.maxRows) : (rowTokens table count).Nodup := by
  refine List.Nodup.map_on (fun i member j member' same => ?_) List.nodup_range'
  have rows := congrArg Token.row same
  unfold ImportTable.maxRows at room
  rw [Token.row_ofParts, Token.row_ofParts] at rows
  rw [List.mem_range'_1] at member member'
  omega

theorem rowTokens_methods (taken : Nat) (methods : List Method) :
    rowTokens Token.methodDef (taken + methods.length) =
      rowTokens Token.methodDef taken ++ (numberMethods taken methods).map (·.token) := by
  have tokens : (numberMethods taken methods).map (·.token) =
      (List.range' (taken + 1) methods.length).map (.ofParts Token.methodDef) := by
    have indices : methods.zipIdx.map (·.2) = List.range' 0 methods.length := List.zipIdx_map_snd 0 methods
    rw [← Nat.add_zero (taken + 1), ← List.map_add_range', ← indices]
    simp only [numberMethods, List.map_map, Function.comp_def, Nat.add_right_comm]
  rw [tokens, rowTokens, rowTokens, ← List.map_append, Nat.add_comm taken 1, List.range'_append_1]

theorem map_toMethod_numberMethods (taken : Nat) (methods : List Method) :
    (numberMethods taken methods).map (·.toMethod) = methods := by
  rw [numberMethods, List.map_map]
  exact List.zipIdx_map_fst 0 methods

theorem takes_numberAll (taken : RowCounts) (decls : List TypeDecl) :
    Takes (numberAll taken decls).1 taken (numberAll taken decls).2 := by
  induction decls using declarations_induction generalizing taken with
  | nil => exact ⟨by simp [numberAll], by simp [numberAll, methodTokens]⟩
  | cons decl rest inner others =>
    have inside := inner ⟨taken.types + 1, taken.methods + decl.methods.length⟩
    have behind := others (decl.number taken).2
    have number := decl.number_eq taken
    rw [numberAll_cons]
    constructor
    · rw [behind.types, number]
      dsimp only
      rw [inside.types, rowTokens_succ]
      simp [rowsOf_cons, TypeTree.row]
    · rw [behind.methods, number]
      dsimp only
      rw [inside.methods, rowTokens_methods]
      simp [rowsOf_cons, TypeTree.row, methodTokens]

theorem takes_number (taken : RowCounts) (decl : TypeDecl) : Takes [(decl.number taken).1] taken (decl.number taken).2 := by
  have single := takes_numberAll taken [decl]
  rwa [numberAll_cons, numberAll] at single

theorem declsOf_numberAll (taken : RowCounts) (decls : List TypeDecl) : declsOf (numberAll taken decls).1 = decls := by
  induction decls using declarations_induction generalizing taken with
  | nil => simp [numberAll, declsOf]
  | cons decl rest inner others =>
    rw [numberAll_cons, declsOf, others, TypeDecl.number_eq]
    cases decl
    simp [TypeTree.decl, inner, map_toMethod_numberMethods]

theorem TypeDecl.decl_number (taken : RowCounts) (decl : TypeDecl) : (decl.number taken).1.decl = decl := by
  have single := declsOf_numberAll taken [decl]
  rw [numberAll_cons, numberAll] at single
  simpa [declsOf] using single

end Numbering

end AspectWeaving

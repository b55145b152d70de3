import AspectWeaving.Interning
import AspectWeaving.Proofs.ImportOrder
import Mathlib.Data.Finset.Card

/-!
Rows that are imported once. The index of a store knows just the rows of its tables (`ImportStore.Indexed`), so a store gives
each row the token that a search through the table would give it, and keeps the rows that have been asked for in their order,
each of them once (`rows_requestAll`). Tokens and rows therefore stand for each other (`requests_intern_rows`).
-/
namespace AspectWeaving

/-! ### Steps in turn -/

section Turns

variable {α β σ : Type} {step : σ → α → σ × β} {s : σ}

theorem length_stepAll (step : σ → α → σ × β) (s : σ) (l : List α) : (stepAll step s l).2.length = l.length := by
  induction l generalizing s with
  | nil => rfl
  | cons a rest ih => exact congrArg (· + 1) (ih (step s a).1)

theorem stepAll_append (step : σ → α → σ × β) (s : σ) (l l' : List α) :
    stepAll step s (l ++ l') =
      ((stepAll step (stepAll step s l).1 l').1, (stepAll step s l).2 ++ (stepAll step (stepAll step s l).1 l').2) := by
  induction l generalizing s with
  | nil => rfl
  | cons a rest ih => simp only [List.cons_append, stepAll, ih]

/-- What every step keeps, all steps keep. -/
theorem stepAll_keeps {P : σ → Prop} (keeps : ∀ s a, P s → P (step s a).1) (start : P s) (l : List α) : P (stepAll step s l).1 := by
  induction l generalizing s with
  | nil => exact start
  | cons a rest ih => exact ih (keeps s a start)

end Turns

/-! ### Distinct items -/

section Distinct

variable {α : Type} [DecidableEq α] {l l' : List α} {a : α}

theorem eraseDups_of_nodup (distinct : l.Nodup) : l.eraseDups = l := by
  induction l with
  | nil => rfl
  | cons a rest ih =>
    obtain ⟨new, distinct⟩ := List.nodup_cons.mp distinct
    have others : rest.filter (fun b => !b == a) = rest := List.filter_eq_self.mpr fun b member => by
      simpa using fun same : b = a => new (same ▸ member)
    rw [List.eraseDups_cons, others, ih distinct]

theorem eraseDups_append_cons_of_mem (member : a ∈ l) : (l ++ a :: l').eraseDups = (l ++ l').eraseDups := by
  have dropped : (a :: l').removeAll l = l'.removeAll l := by simp [List.removeAll, member]
  rw [List.eraseDups_append, List.eraseDups_append, dropped]

end Distinct

theorem exists_mem_zip {α β : Type} {l : List α} {l' : List β} {a : α} (same : l'.length = l.length) (member : a ∈ l) :
    ∃ b, (a, b) ∈ l.zip l' := by
  obtain ⟨i, inside, rfl⟩ := List.mem_iff_getElem.mp member
  exact ⟨l'[i], List.mem_iff_getElem.mpr ⟨i, by simpa [same] using inside, List.getElem_zip⟩⟩

/-! ### Rows of a table -/

section Rows

variable {α : Type} [DecidableEq α] {rows : Array α} {row : α} {i : Nat}

theorem intern_of_getElem? (distinct : rows.toList.Nodup) (here : rows[i]? = some row) : intern rows row = (rows, i) := by
  have first : rows.idxOf? row = some i := by
    refine idxOf?_eq_some_iff.mpr ⟨here, fun j before same => ?_⟩
    rw [← Array.getElem?_toList] at here same
    have inside := (List.getElem?_eq_some_iff.mp here).1
    exact absurd ((List.getElem?_inj (Nat.lt_trans before inside) distinct).mp (same.trans here.symm)) (Nat.ne_of_lt before)
  unfold intern
  rw [first]

theorem intern_of_not_mem (missing : row ∉ rows) : intern rows row = (rows.push row, rows.size) := by
  unfold intern
  rw [Array.idxOf?_eq_none_iff.mpr missing]

omit [DecidableEq α] in
theorem map_rowOf? {β : Type} (f : α → β) (rows : Array α) (table : Nat) (token : Token) :
    (rowOf? rows table token).map f =
      if token.table = table ∧ 0 < token.row then (rows.toList.map f)[token.row - 1]? else none := by
  unfold rowOf?
  split
  · rw [List.getElem?_map, Array.getElem?_toList]
  · rfl

end Rows

theorem ImportKind.table_inj {kind kind' : ImportKind} (same : kind.table = kind'.table) : kind = kind' := by
  cases kind <;> cases kind' <;> first | rfl | cases same

theorem ImportKind.table_lt (kind : ImportKind) : kind.table < 0x100 := by
  cases kind <;> decide

namespace ImportTable

variable {t u : ImportTable} {row row' : ImportRow} {token token' : Token} {kind : ImportKind}

theorem length_rows (t : ImportTable) (kind : ImportKind) : (t.rows kind).length = t.count kind := by
  cases kind <;> simp [rows, count]

theorem getRow?_eq (t : ImportTable) (token : Token) (kind : ImportKind) :
    t.getRow? token kind = if token.table = kind.table ∧ 0 < token.row then (t.rows kind)[token.row - 1]? else none := by
  cases kind <;> exact map_rowOf? ..

/-- A row stands in its table, and this is its token. -/
def Stands (t : ImportTable) (row : ImportRow) (token : Token) : Prop :=
  ∃ i : Nat, (t.rows row.kind)[i]? = some row ∧ token = .ofParts row.kind.table (i + 1)

theorem Stands.mem (stands : t.Stands row token) : row ∈ t.rows row.kind := by
  obtain ⟨i, here, -⟩ := stands
  exact List.mem_of_getElem? here

theorem Stands.mono (stands : t.Stands row token) (grows : t.rows row.kind <+: u.rows row.kind) : u.Stands row token := by
  obtain ⟨i, here, rfl⟩ := stands
  obtain ⟨rest, same⟩ := grows
  refine ⟨i, ?_, rfl⟩
  rw [← same, List.getElem?_append_left (List.getElem?_eq_some_iff.mp here).1]
  exact here

/-- A row that stands but once has one token. -/
theorem Stands.token_unique (distinct : (t.rows row.kind).Nodup) (stands : t.Stands row token) (stands' : t.Stands row token') :
    token = token' := by
  obtain ⟨i, here, rfl⟩ := stands
  obtain ⟨j, there, rfl⟩ := stands'
  rw [(List.getElem?_inj (List.getElem?_eq_some_iff.mp here).1 distinct).mp (here.trans there.symm)]

section Room

variable (room : ∀ kind, t.count kind ≤ maxRows)

include room

theorem Stands.parts (stands : t.Stands row token) :
    token.table = row.kind.table ∧ 0 < token.row ∧ (t.rows row.kind)[token.row - 1]? = some row := by
  obtain ⟨i, here, rfl⟩ := stands
  have inside := (List.getElem?_eq_some_iff.mp here).1
  have few := room row.kind
  have table := row.kind.table_lt
  rw [length_rows] at inside
  unfold maxRows at few
  rw [Token.table_ofParts, Token.row_ofParts, Nat.mod_eq_of_lt table, Nat.mod_eq_of_lt (by omega)]
  exact ⟨rfl, Nat.succ_pos i, here⟩

/-- Rows that have the same token are the same. -/
theorem Stands.row_unique (stands : t.Stands row token) (stands' : t.Stands row' token) : row = row' := by
  obtain ⟨table, -, here⟩ := stands.parts room
  obtain ⟨table', -, there⟩ := stands'.parts room
  rw [ImportKind.table_inj (table.symm.trans table')] at here
  exact Option.some.inj (here.symm.trans there)

/-- A token leads to its row, and to none in the other tables. -/
theorem Stands.getRow? (stands : t.Stands row token) (kind : ImportKind) :
    t.getRow? token kind = if row.kind = kind then some row else none := by
  obtain ⟨table, positive, here⟩ := stands.parts room
  rw [getRow?_eq]
  by_cases own : row.kind = kind
  · rw [if_pos ⟨own ▸ table, positive⟩, if_pos own, ← own]
    exact here
  · rw [if_neg fun both => own (ImportKind.table_inj (table.symm.trans both.1)), if_neg own]

end Room

theorem isSome_getRow?_iff (t : ImportTable) (token : Token) (kind : ImportKind) :
    (t.getRow? token kind).isSome ↔ token.table = kind.table ∧ 0 < token.row ∧ token.row ≤ t.count kind := by
  rw [getRow?_eq]
  split
  · rename_i own
    rw [← length_rows, isSome_getElem?]
    omega
  · rename_i other
    exact ⟨nofun, fun ⟨table, positive, _⟩ => absurd ⟨table, positive⟩ other⟩

/-- The methods that are imported, with their tokens, are the rows of their table. -/
theorem mem_memberEntries_iff {member : MemberRef} : (token, member) ∈ t.memberEntries ↔ t.Stands (.member member) token := by
  unfold memberEntries Stands
  simp only [List.mem_map, List.mem_zipIdx_iff_getElem?, Prod.exists, Prod.mk.injEq, rows, ImportRow.kind, List.getElem?_map,
    Option.map_eq_some_iff, ImportRow.member.injEq, exists_eq_right, ImportKind.table, Array.getElem?_toList]
  constructor
  · rintro ⟨_, i, here, rfl, rfl⟩
    exact ⟨i, here, rfl⟩
  · rintro ⟨i, here, rfl⟩
    exact ⟨member, i, here, rfl, rfl⟩

theorem map_memberEntries (t : ImportTable) : (t.memberEntries.map (·.2)).map .member = t.rows .member := by
  unfold memberEntries rows
  simp [List.map_map, Function.comp_def]

/-! ### A row that is asked for -/

theorem rows_append (t : ImportTable) (row : ImportRow) (kind : ImportKind) :
    (t.append row).1.rows kind = if row.kind = kind then t.rows kind ++ [row] else t.rows kind := by
  cases row <;> cases kind <;> simp [append, rows, ImportRow.kind]

theorem stands_append (t : ImportTable) (row : ImportRow) : (t.append row).1.Stands row (t.append row).2 := by
  refine ⟨t.count row.kind, ?_, by cases row <;> rfl⟩
  rw [rows_append, if_pos rfl, ← length_rows, List.getElem?_concat_length]

/-- A row that is there is found, and nothing is added. -/
theorem Stands.request (distinct : (t.rows row.kind).Nodup) (stands : t.Stands row token) : t.request row = (t, token) := by
  obtain ⟨i, here, rfl⟩ := stands
  cases row with
  | type name =>
    have here : t.typeRefs[i]? = some name := by simpa [rows, ImportRow.kind] using here
    have distinct : t.typeRefs.toList.Nodup := List.Nodup.of_map _ distinct
    simp only [request, typeRef, intern_of_getElem? distinct here]
    rfl
  | member row =>
    have here : t.memberRefs[i]? = some row := by simpa [rows, ImportRow.kind] using here
    have distinct : t.memberRefs.toList.Nodup := List.Nodup.of_map _ distinct
    simp only [request, memberRef, intern_of_getElem? distinct here]
    rfl
  | spec sig =>
    have here : t.typeSpecs[i]? = some sig := by simpa [rows, ImportRow.kind] using here
    have distinct : t.typeSpecs.toList.Nodup := List.Nodup.of_map _ distinct
    simp only [request, typeSpec, intern_of_getElem? distinct here]
    rfl

/-- A row that is not there is put at the end. -/
theorem request_of_not_mem (missing : row ∉ t.rows row.kind) : t.request row = t.append row := by
  cases row with
  | type name =>
    have missing : name ∉ t.typeRefs := by simpa [rows, ImportRow.kind] using missing
    simp only [request, typeRef, intern_of_not_mem missing]
    rfl
  | member row =>
    have missing : row ∉ t.memberRefs := by simpa [rows, ImportRow.kind] using missing
    simp only [request, memberRef, intern_of_not_mem missing]
    rfl
  | spec sig =>
    have missing : sig ∉ t.typeSpecs := by simpa [rows, ImportRow.kind] using missing
    simp only [request, typeSpec, intern_of_not_mem missing]
    rfl

end ImportTable

namespace ImportStore

variable {s : ImportStore} {row : ImportRow} {token : Token} {kind : ImportKind}

/-- The index of a store knows the rows of its tables with their tokens, and no row stands there twice. -/
structure Indexed (s : ImportStore) : Prop where
  distinct : ∀ kind, (s.rows kind).Nodup
  lookup : ∀ row token, s.index.lookup row = some token ↔ s.Stands row token

theorem indexed_empty : Indexed {} where
  distinct kind := by cases kind <;> exact List.nodup_nil
  lookup row token := by
    constructor
    · nofun
    · rintro ⟨i, here, -⟩
      cases row <;> cases here

/-- Either the row is there and the store stays, or it is put at the end of its table and into the index. -/
theorem Indexed.request_cases (indexed : s.Indexed) (row : ImportRow) :
    (∃ token, s.Stands row token ∧ s.request row = (s, token)) ∨
      (row ∉ s.rows row.kind ∧ s.request row =
        ({ toImportTable := (s.append row).1, index := (row, (s.append row).2) :: s.index }, (s.append row).2)) := by
  unfold request
  cases found : s.index.lookup row with
  | some token => exact .inl ⟨token, (indexed.lookup row token).mp found, rfl⟩
  | none =>
    refine .inr ⟨fun member => ?_, rfl⟩
    obtain ⟨i, here⟩ := List.mem_iff_getElem?.mp member
    have known := (indexed.lookup row _).mpr ⟨i, here, rfl⟩
    rw [found] at known
    cases known

/-- A row that is asked for stands in its table with the token that is answered. -/
theorem Indexed.stands_request (indexed : s.Indexed) (row : ImportRow) : (s.request row).1.Stands row (s.request row).2 := by
  rcases indexed.request_cases row with ⟨token, stands, same⟩ | ⟨-, same⟩ <;> rw [same]
  · exact stands
  · exact s.stands_append row

theorem Indexed.rows_request (indexed : s.Indexed) (row : ImportRow) (kind : ImportKind) :
    (s.request row).1.rows kind = if row.kind = kind ∧ row ∉ s.rows kind then s.rows kind ++ [row] else s.rows kind := by
  rcases indexed.request_cases row with ⟨token, stands, same⟩ | ⟨missing, same⟩ <;> rw [same]
  · rw [if_neg]
    rintro ⟨rfl, missing⟩
    exact missing stands.mem
  · change (s.append row).1.rows kind = _
    rw [ImportTable.rows_append]
    by_cases own : row.kind = kind
    · rw [if_pos own, if_pos ⟨own, own ▸ missing⟩]
    · rw [if_neg own, if_neg fun both => own both.1]

theorem Indexed.rows_prefix (indexed : s.Indexed) (row : ImportRow) (kind : ImportKind) :
    s.rows kind <+: (s.request row).1.rows kind := by
  rw [indexed.rows_request]
  split
  · exact List.prefix_append ..
  · exact List.prefix_refl _

/-- An index answers as a search through the table does. -/
theorem Indexed.request_eq (indexed : s.Indexed) (row : ImportRow) :
    s.toImportTable.request row = ((s.request row).1.toImportTable, (s.request row).2) := by
  rcases indexed.request_cases row with ⟨token, stands, same⟩ | ⟨missing, same⟩ <;> rw [same]
  · exact stands.request (indexed.distinct _)
  · exact ImportTable.request_of_not_mem missing

theorem Indexed.nodup_request (indexed : s.Indexed) (row : ImportRow) (kind : ImportKind) : ((s.request row).1.rows kind).Nodup := by
  rw [indexed.rows_request]
  split
  · rename_i new
    refine List.nodup_append.mpr ⟨indexed.distinct kind, List.nodup_singleton row, fun a here b only same => ?_⟩
    rw [same, List.mem_singleton.mp only] at here
    exact new.2 here
  · exact indexed.distinct kind

theorem Indexed.request (indexed : s.Indexed) (row : ImportRow) : (s.request row).1.Indexed where
  distinct := indexed.nodup_request row
  lookup other token := by
    have stands := indexed.stands_request row
    have unique := indexed.nodup_request row
    rcases indexed.request_cases row with ⟨_, -, same⟩ | ⟨missing, same⟩
    · rw [same]
      exact indexed.lookup other token
    have grows := indexed.rows_prefix row
    rw [same] at stands unique grows ⊢
    change ((row, (s.append row).2) :: s.index).lookup other = some token ↔ (s.append row).1.Stands other token
    rw [List.lookup_cons]
    by_cases first : other = row
    · subst first
      rw [beq_self_eq_true]
      constructor
      · rintro ⟨⟩
        exact stands
      · intro stands'
        exact congrArg some (stands.token_unique (unique _) stands')
    · rw [beq_eq_false_iff_ne.mpr first]
      change s.index.lookup other = some token ↔ _
      rw [indexed.lookup]
      refine ⟨fun stands => stands.mono (grows _), ?_⟩
      rintro ⟨i, here, rfl⟩
      -- A row other than the new one stands where it did.
      refine ⟨i, ?_, rfl⟩
      rw [ImportTable.rows_append] at here
      split at here
      · rw [List.getElem?_append] at here
        split at here
        · exact here
        · exact absurd (List.mem_singleton.mp (List.mem_of_getElem? here)) first
      · exact here

/-! ### Rows that are asked for in turn -/

theorem Indexed.requestAll (indexed : s.Indexed) (requests : List ImportRow) : (stepAll ImportStore.request s requests).1.Indexed :=
  stepAll_keeps (fun _ row indexed => indexed.request row) indexed requests

theorem Indexed.prefix_requestAll (indexed : s.Indexed) (requests : List ImportRow) (kind : ImportKind) :
    s.rows kind <+: (stepAll ImportStore.request s requests).1.rows kind := by
  induction requests generalizing s with
  | nil => exact List.prefix_refl _
  | cons row rest ih => exact (indexed.rows_prefix row kind).trans (ih (indexed.request row))

/-- The rows of a table are those that have been asked for, each once, in the order in which they came first. -/
theorem Indexed.rows_requestAll (indexed : s.Indexed) (requests : List ImportRow) (kind : ImportKind) :
    (stepAll ImportStore.request s requests).1.rows kind = (s.rows kind ++ requests.filter (·.kind == kind)).eraseDups := by
  induction requests generalizing s with
  | nil => rw [List.filter_nil, List.append_nil, eraseDups_of_nodup (indexed.distinct kind), stepAll]
  | cons row rest ih =>
    refine (ih (indexed.request row)).trans ?_
    rw [indexed.rows_request]
    by_cases own : row.kind = kind
    · rw [List.filter_cons_of_pos (by simpa using own)]
      by_cases member : row ∈ s.rows kind
      · rw [if_neg fun both => both.2 member, eraseDups_append_cons_of_mem member]
      · rw [if_pos ⟨own, member⟩, List.append_assoc, List.singleton_append]
    · rw [List.filter_cons_of_neg (by simpa using own), if_neg fun both => own both.1]

theorem Indexed.stands_requestAll (indexed : s.Indexed) (requests : List ImportRow) :
    ∀ e ∈ requests.zip (stepAll ImportStore.request s requests).2, (stepAll ImportStore.request s requests).1.Stands e.1 e.2 := by
  induction requests generalizing s with
  | nil => nofun
  | cons row rest ih =>
    refine List.forall_mem_cons.mpr ⟨?_, ih (indexed.request row)⟩
    exact (indexed.stands_request row).mono ((indexed.request row).prefix_requestAll rest _)

theorem Indexed.requestAll_eq (indexed : s.Indexed) (requests : List ImportRow) :
    stepAll ImportTable.request s.toImportTable requests =
      ((stepAll ImportStore.request s requests).1.toImportTable, (stepAll ImportStore.request s requests).2) := by
  induction requests generalizing s with
  | nil => rfl
  | cons row rest ih => simp only [stepAll, indexed.request_eq row, ih (indexed.request row)]

/-- A store has just the rows that have been asked for, each under the token that has been given for it. -/
structure Gave (s : ImportStore) (requests : List ImportRow) (tokens : List Token) : Prop where
  distinct : ∀ kind, (s.rows kind).Nodup
  length : tokens.length = requests.length
  stands : ∀ e ∈ requests.zip tokens, s.Stands e.1 e.2
  rows : ∀ kind, s.rows kind = (requests.filter (·.kind == kind)).eraseDups

theorem gave_requestAll (requests : List ImportRow) :
    (stepAll ImportStore.request {} requests).1.Gave requests (stepAll ImportStore.request {} requests).2 where
  distinct := (indexed_empty.requestAll requests).distinct
  length := length_stepAll ..
  stands := indexed_empty.stands_requestAll requests
  rows kind := by
    rw [indexed_empty.rows_requestAll]
    cases kind <;> rfl

namespace Gave

variable {requests : List ImportRow} {tokens : List Token} {member : MemberRef}

/-- The tokens tell the rows apart. -/
theorem token_eq_iff (gave : s.Gave requests tokens) (room : ∀ kind, s.count kind ≤ ImportTable.maxRows) {e e' : ImportRow × Token}
    (met : e ∈ requests.zip tokens) (met' : e' ∈ requests.zip tokens) : e.2 = e'.2 ↔ e.1 = e'.1 := by
  obtain ⟨row, token⟩ := e
  obtain ⟨row', token'⟩ := e'
  constructor
  · rintro rfl
    exact (gave.stands _ met).row_unique room (gave.stands _ met')
  · rintro rfl
    exact (gave.stands _ met).token_unique (gave.distinct _) (gave.stands _ met')

/-- A table has as many rows as different ones have been asked for. -/
theorem count_eq (gave : s.Gave requests tokens) (kind : ImportKind) :
    s.count kind = (requests.filter (·.kind == kind)).toFinset.card := by
  rw [← ImportTable.length_rows, ← List.toFinset_card_of_nodup (gave.distinct kind), gave.rows kind]
  exact congrArg Finset.card (Finset.ext fun row => by simp)

theorem nodup_memberEntries (gave : s.Gave requests tokens) : (s.memberEntries.map (·.2)).Nodup := by
  have distinct := gave.distinct .member
  rw [← ImportTable.map_memberEntries] at distinct
  exact List.Nodup.of_map _ distinct

/-- The methods that are listed are those that have been asked for, with their tokens. -/
theorem mem_memberEntries_iff (gave : s.Gave requests tokens) :
    (token, member) ∈ s.memberEntries ↔ (.member member, token) ∈ requests.zip tokens := by
  rw [ImportTable.mem_memberEntries_iff]
  refine ⟨fun here => ?_, gave.stands _⟩
  have listed := here.mem
  rw [gave.rows, List.mem_eraseDups, List.mem_filter] at listed
  obtain ⟨token', met⟩ := exists_mem_zip gave.length listed.1
  exact here.token_unique (gave.distinct _) (gave.stands _ met) ▸ met

end Gave

end ImportStore

open ImportStore (request) in
/-- Rows are asked for one after another, no more than a token can tell apart. Two of them are given the same token just if they are
    the same row of the same table. From then on the token leads to that row, and to none in the other tables; and a token leads to a
    row just if it is that of one. Every table has the rows that have been asked for, each once, in the order in which they came
    first; the list of imported methods has those with their tokens. All this is as without an index. -/
theorem requests_intern_rows (requests later : List ImportRow) :
    let first := stepAll request {} requests
    let last := stepAll request first.1 later
    let asked := (requests ++ later).zip (first.2 ++ last.2)
    (∀ kind, last.1.count kind ≤ ImportTable.maxRows) →
      (first.2.length = requests.length ∧ last.2.length = later.length) ∧
      (∀ e ∈ asked, ∀ e' ∈ asked, e.2 = e'.2 ↔ e.1 = e'.1) ∧
      (∀ e ∈ requests.zip first.2, ∀ kind, last.1.getRow? e.2 kind = if e.1.kind = kind then some e.1 else none) ∧
      (∀ token kind, (last.1.getRow? token kind).isSome ↔
        token.table = kind.table ∧ 0 < token.row ∧ token.row ≤ last.1.count kind) ∧
      (∀ kind, last.1.rows kind = ((requests ++ later).filter (·.kind == kind)).eraseDups ∧
        last.1.count kind = ((requests ++ later).filter (·.kind == kind)).toFinset.card) ∧
      ((last.1.memberEntries.map (·.2)).Nodup ∧
        ∀ token member, (token, member) ∈ last.1.memberEntries ↔ (.member member, token) ∈ asked) ∧
      stepAll ImportTable.request {} (requests ++ later) = (last.1.toImportTable, first.2 ++ last.2) := by
  intro first last asked room
  have whole : stepAll request {} (requests ++ later) = (last.1, first.2 ++ last.2) := stepAll_append ..
  have gave : last.1.Gave (requests ++ later) (first.2 ++ last.2) := by
    have all := ImportStore.gave_requestAll (requests ++ later)
    rwa [whole] at all
  refine ⟨⟨length_stepAll .., length_stepAll ..⟩, fun e met e' met' => gave.token_eq_iff room met met', fun e met kind => ?_,
    fun token kind => last.1.isSome_getRow?_iff token kind, fun kind => ⟨gave.rows kind, gave.count_eq kind⟩,
    ⟨gave.nodup_memberEntries, fun token member => gave.mem_memberEntries_iff⟩, ?_⟩
  · have parts : asked = requests.zip first.2 ++ later.zip last.2 := List.zip_append (length_stepAll ..).symm
    have among : e ∈ asked := parts ▸ List.mem_append_left _ met
    exact (gave.stands e among).getRow? room kind
  · have same := ImportStore.indexed_empty.requestAll_eq (requests ++ later)
    rwa [whole] at same

namespace Sample

/-- A type, a method of it, an array of it, the type again and another type. -/
def requests : List ImportRow :=
  [.type ⟨"System", "Object"⟩, .member ⟨.ofParts Token.typeRef 1, "ToString", [], true⟩,
    .spec (.array (.classType (.ofParts Token.typeRef 1))), .type ⟨"System", "Object"⟩, .type ⟨"System", "Type"⟩]

/-- The second type once more, and a method of it. -/
def laterRequests : List ImportRow := [.type ⟨"System", "Type"⟩, .member ⟨.ofParts Token.typeRef 2, "ToString", [], true⟩]

theorem requests_given_rows :
    let first := stepAll ImportStore.request {} requests
    let last := stepAll ImportStore.request first.1 laterRequests
    first.2 = [.ofParts Token.typeRef 1, .ofParts Token.memberRef 1, .ofParts Token.typeSpec 1, .ofParts Token.typeRef 1,
      .ofParts Token.typeRef 2] ∧
    last.2 = [.ofParts Token.typeRef 2, .ofParts Token.memberRef 2] ∧
    (∀ kind, last.1.count kind ≤ ImportTable.maxRows) ∧
    (∀ e ∈ requests.zip first.2, ∀ kind, last.1.getRow? e.2 kind = if e.1.kind = kind then some e.1 else none) := by
  have room : ∀ kind, (stepAll ImportStore.request (stepAll ImportStore.request {} requests).1 laterRequests).1.count kind ≤
      ImportTable.maxRows := by
    intro kind
    cases kind <;> decide +kernel
  exact ⟨by decide +kernel, by decide +kernel, room, (requests_intern_rows requests laterRequests room).2.2.1⟩

end Sample

end AspectWeaving

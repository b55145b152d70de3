import AspectWeaving.Interning
import AspectWeaving.Proofs.KeptAnswers

/-!
Calls that import. A row comes into a table when it is asked for itself or when a lookup needs it (`Resolver.perform`). Whatever calls
are made in turn, rows are only added, as if no answers were kept (`Resolver.inTurn_perform`), and the only constructed type that a call
can add is the one it asks for (`Resolver.typeSpecs_importFor`).
-/
namespace AspectWeaving

/-- A call that may import rows: for a row itself, or for what is found with a lookup. -/
inductive ImportCall
  | row (row : ImportRow)
  | lookup (lookup : Lookup)

/-- The constructed type that a call asks for. -/
def ImportCall.spec? : ImportCall → Option TypeSig
  | .row (.spec sig) => some sig
  | .lookup (.signature (.array element)) => some (.array element)
  | .lookup (.signature (.byRef element)) => some (.byRef element)
  | _ => none

theorem ImportTable.grows_request (t : ImportTable) (row : ImportRow) : t.Grows (t.request row).1 := by
  cases row with
  | type name => exact t.grows_typeRef name
  | member member => exact t.grows_memberRef member
  | spec sig => exact t.grows_typeSpec sig

/-- Turns leave behind what the rest of them leaves behind after the first. -/
theorem Importing.inTurn_cons {α β : Type} (run : α → Importing β) (first : α) (rest : List α) (t : ImportTable) :
    (inTurn run (first :: rest) t).2 = (inTurn run rest ((run first).table t)).2 := by
  cases done : run first t <;> simp only [inTurn, table, done, Prod.map, id]

namespace Resolver

variable (r : Resolver)

/-- The import that a call makes. -/
def importFor : ImportCall → Importing Token
  | .row row => importing (·.request row)
  | .lookup lookup => r.answer lookup

/-- Makes a call, with the answers that are kept. -/
def perform : ImportCall → Remembering Token
  | .row row => afresh (importing (·.request row))
  | .lookup lookup => r.remember lookup

theorem extends_importFor (call : ImportCall) : Importing.Extends (r.importFor call) := by
  cases call with
  | row row => exact .importing fun t => t.grows_request row
  | lookup lookup => exact extends_answer r lookup

theorem perform_follows (call : ImportCall) : Remembering.Follows r (r.perform call) (r.importFor call) := by
  cases call with
  | row row => exact Remembering.follows_afresh (.importing fun t => t.grows_request row)
  | lookup lookup => exact r.remember_follows lookup

/-- Calls in turn add the rows that they add without answers being kept. -/
theorem inTurn_perform (calls : List ImportCall) {s : Recollection} (sound : s.Sound r) :
    (inTurn r.perform calls s).2.imports = (inTurn r.importFor calls s.imports).2 ∧ (inTurn r.perform calls s).2.Sound r := by
  obtain ⟨s', came, same, sound'⟩ := Remembering.inTurn_follows r.perform_follows calls sound
  rw [came]
  exact ⟨same, sound'⟩

theorem grows_calls (calls : List ImportCall) (t : ImportTable) : t.Grows (inTurn r.importFor calls t).2 :=
  Importing.grows_inTurn r.extends_importFor calls t

theorem sound_fresh (t : ImportTable) : Recollection.Sound r { imports := t } := ⟨nofun, nofun⟩

/-! ### Rows of constructed types -/

/-- Lookups leave the rows of constructed types alone. -/
theorem closed_typeSpecs : Importing.Closed fun x => ∀ t, (x.table t).typeSpecs = t.typeSpecs where
  pure _ _ := rfl
  throw _ _ := rfl
  typeRef _ _ := rfl
  importMethod _ _ := rfl

theorem typeSpecs_resolveType (locator : TypeLocator) : ∀ t, ((r.resolveType locator).table t).typeSpecs = t.typeSpecs :=
  closed_typeSpecs.resolveType r locator

theorem typeSpecs_resolveMethod (host : TypeLocator) (q : MethodQuery) :
    ∀ t, ((r.resolveMethod host q).table t).typeSpecs = t.typeSpecs :=
  closed_typeSpecs.resolveMethod r host q

/-- A call leaves the rows of constructed types alone but for the one it asks for. -/
theorem typeSpecs_importFor (call : ImportCall) (t : ImportTable) :
    ((r.importFor call).table t).typeSpecs = call.spec?.elim t.typeSpecs fun sig => (intern t.typeSpecs sig).1 := by
  have builtin : ∀ name, ((r.resolveType (.external name)).table t).typeSpecs = t.typeSpecs := fun name => r.typeSpecs_resolveType _ t
  cases call with
  | row row => cases row <;> rfl
  | lookup lookup =>
    cases lookup with
    | type locator => exact r.typeSpecs_resolveType locator t
    | method host q => exact r.typeSpecs_resolveMethod host q t
    | signature sig =>
      cases sig with
      | classType | valueType | array | byRef => rfl
      | _ => exact builtin _

end Resolver

end AspectWeaving

import AspectWeaving.Proofs.NearestMatches
import AspectWeaving.Remembering

/-!
Answers that are kept. What has been found once is found again with the same token, and neither that nor a failure imports a row
(`settles_answer`). So it makes no difference that answers are kept (`Resolver.remember_follows`), and a resolver can be asked for
anything in any order, again and again (`lookups_find_nearest`).
-/
namespace AspectWeaving

/-! ### Lookups again -/

/-- What an import has given it gives again when rows have been added, and adds nothing; and it adds nothing where it fails. -/
structure Importing.Settles {α : Type} (x : Importing α) : Prop where
  again : ∀ {t a u v}, x t = .ok a u → u.Grows v → x v = .ok a v
  error : ∀ {t fault u}, x t = .error fault u → u = t

namespace Importing.Settles

variable {α : Type}

theorem pure (a : α) : Settles (pure a : Importing α) where
  again done _ := by cases done; rfl
  error failed := by cases failed

theorem throw (fault : Fault) : Settles (throw fault : Importing α) where
  again done := by cases done
  error failed := by cases failed; rfl

theorem typeRef (name : TypeName) : Settles (importing (·.typeRef name)) where
  again := (replays_typeRef name).ok
  error failed := by cases failed

theorem typeSpec (sig : TypeSig) : Settles (importing (·.typeSpec sig)) where
  again := importing_typeSpec_again
  error failed := by cases failed

theorem importMethod (found : LibraryType × LibraryMethod) : Settles (Resolver.importMethod found) where
  again := importMethod_again
  error failed := by cases failed

end Importing.Settles

section Again

open Importing (Settles)

variable (r : Resolver)

theorem closed_settles : Importing.Closed Settles := ⟨.pure, .throw, .typeRef, .importMethod⟩

theorem settles_resolveType (locator : TypeLocator) : Settles (r.resolveType locator) := closed_settles.resolveType r locator

theorem settles_resolveMethod (host : TypeLocator) (q : MethodQuery) : Settles (r.resolveMethod host q) :=
  closed_settles.resolveMethod r host q

theorem settles_importType (sig : TypeSig) : Settles (r.importType sig) := closed_settles.importType .typeSpec r sig

/-- What has been asked for once is answered in the same way from then on, and an answer that cannot be given imports nothing. -/
theorem settles_answer (lookup : Lookup) : Settles (r.answer lookup) := by
  cases lookup with
  | type => exact settles_resolveType r _
  | method => exact settles_resolveMethod r _ _
  | signature => exact settles_importType r _

end Again

/-! ### Answers that are kept -/

section Kept

variable {r : Resolver} {s : Recollection} {lookup : Lookup} {token : Token}

/-- Answers that are kept are those that a lookup would give, and it would add nothing. -/
structure Recollection.Sound (r : Resolver) (s : Recollection) : Prop where
  types : ∀ e ∈ s.types, r.resolveType e.1 s.imports = .ok e.2 s.imports
  methods : ∀ e ∈ s.methods, r.resolveMethod e.1.1 e.1.2 s.imports = .ok e.2 s.imports

/-- How a computation comes out beside answers that are kept: as the import does, with sound answers again. -/
structure Remembering.Follows {α : Type} (r : Resolver) (x : Remembering α) (y : Importing α) : Prop where
  ok : ∀ {s a u}, s.Sound r → y s.imports = .ok a u → ∃ s', x s = .ok a s' ∧ s'.imports = u ∧ s'.Sound r
  error : ∀ {s fault u}, s.Sound r → y s.imports = .error fault u → ∃ s', x s = .error fault s' ∧ s'.imports = u ∧ s'.Sound r

theorem Recollection.Sound.mono {t : ImportTable} (sound : s.Sound r) (grows : s.imports.Grows t) : { s with imports := t }.Sound r where
  types e kept := (settles_resolveType r _).again (sound.types e kept) grows
  methods e kept := (settles_resolveMethod r _ _).again (sound.methods e kept) grows

theorem Remembering.follows_afresh {y : Importing Token} (adds : Importing.Extends y) : Follows r (afresh y) y where
  ok {s token u} sound done := ⟨{ s with imports := u }, by simp only [afresh, done], rfl, sound.mono (adds.ok done)⟩
  error {s fault u} sound failed := ⟨{ s with imports := u }, by simp only [afresh, failed], rfl, sound.mono (adds.error failed)⟩

theorem Remembering.remembered_apply {κ : Type} [BEq κ] (kept : Recollection → List (κ × Token))
    (keep : κ × Token → Recollection → Recollection) (key : κ) (y : Importing Token) (s : Recollection) :
    remembered kept keep key y s =
      match (kept s).lookup key with
      | some token => .ok token s
      | none =>
        match afresh y s with
        | .ok token s' => .ok token (keep (key, token) s')
        | .error fault s' => .error fault s' := by
  unfold remembered
  change EStateM.bind (fun s => .ok s s) _ s = _
  simp only [EStateM.bind]
  cases (kept s).lookup key with
  | some token => rfl
  | none =>
    change EStateM.bind (afresh y) _ s = _
    simp only [EStateM.bind]
    cases afresh y s <;> rfl

/-- Looking among the answers that are kept first makes no difference. -/
theorem Remembering.follows_remembered {κ : Type} [BEq κ] {kept : Recollection → List (κ × Token)}
    {keep : κ × Token → Recollection → Recollection} {key : κ} {y : Importing Token} (adds : Importing.Extends y)
    (known : ∀ s token, s.Sound r → (kept s).lookup key = some token → y s.imports = .ok token s.imports)
    (settles : Importing.Settles y)
    (keeps : ∀ s token, s.Sound r → y s.imports = .ok token s.imports →
      (keep (key, token) s).imports = s.imports ∧ (keep (key, token) s).Sound r) :
    Follows r (remembered kept keep key y) y where
  ok {s token u} sound done := by
    rw [remembered_apply]
    cases here : (kept s).lookup key with
    | some other =>
      cases done.symm.trans (known s other sound here)
      exact ⟨s, rfl, rfl, sound⟩
    | none =>
      obtain ⟨s', found, rfl, sound'⟩ := (follows_afresh adds).ok sound done
      rw [found]
      obtain ⟨same, sound''⟩ := keeps s' token sound' (settles.again done (.refl _))
      exact ⟨_, rfl, same, sound''⟩
  error {s fault u} sound failed := by
    rw [remembered_apply]
    cases here : (kept s).lookup key with
    | some other => cases failed.symm.trans (known s other sound here)
    | none =>
      obtain ⟨s', found, same, sound'⟩ := (follows_afresh adds).error sound failed
      rw [found]
      exact ⟨s', rfl, same, sound'⟩

theorem mem_of_lookup {κ β : Type} [BEq κ] [LawfulBEq κ] {kept : List (κ × β)} {key : κ} {b : β} (here : kept.lookup key = some b) :
    (key, b) ∈ kept := by
  obtain ⟨before, after, rfl, -⟩ := List.lookup_eq_some_iff.mp here
  simp

theorem Resolver.rememberType_follows (r : Resolver) (locator : TypeLocator) :
    Remembering.Follows r (r.rememberType locator) (r.resolveType locator) := by
  refine Remembering.follows_remembered (extends_resolveType r locator) (fun s token sound here => sound.types _ (mem_of_lookup here))
    (settles_resolveType r locator) fun s token sound done => ⟨rfl, ?_, sound.methods⟩
  exact List.forall_mem_cons.mpr ⟨done, sound.types⟩

theorem Resolver.rememberMethod_follows (r : Resolver) (host : TypeLocator) (q : MethodQuery) :
    Remembering.Follows r (r.rememberMethod host q) (r.resolveMethod host q) := by
  refine Remembering.follows_remembered (extends_resolveMethod r host q) (fun s token sound here => sound.methods _ (mem_of_lookup here))
    (settles_resolveMethod r host q) fun s token sound done => ⟨rfl, sound.types, ?_⟩
  exact List.forall_mem_cons.mpr ⟨done, sound.methods⟩

/-- A resolver that keeps its answers gives the same as one that does not, and imports the same rows. -/
theorem Resolver.remember_follows (r : Resolver) (lookup : Lookup) : Remembering.Follows r (r.remember lookup) (r.answer lookup) := by
  cases lookup with
  | type locator => exact rememberType_follows r locator
  | method host q => exact rememberMethod_follows r host q
  | signature sig =>
    have builtin : ∀ name, Remembering.Follows r (r.rememberType (.external name)) (r.resolveType (.external name)) :=
      fun name => rememberType_follows r _
    cases sig with
    | classType token | valueType token =>
      exact ⟨fun {s _ _} sound done => by cases done; exact ⟨s, rfl, rfl, sound⟩, fun _ failed => by cases failed⟩
    | array | byRef => exact Remembering.follows_afresh (.importing fun t => t.grows_typeSpec _)
    | _ => exact builtin _

/-- Computations in turn come out as the imports do that they follow, and leave sound answers behind. -/
theorem Remembering.inTurn_follows {α : Type} {run : α → Remembering Token} {run' : α → Importing Token}
    (follows : ∀ a, Follows r (run a) (run' a)) (items : List α) (sound : s.Sound r) :
    ∃ s', inTurn run items s = ((inTurn run' items s.imports).1, s') ∧ s'.imports = (inTurn run' items s.imports).2 ∧ s'.Sound r := by
  induction items generalizing s with
  | nil => exact ⟨s, rfl, rfl, sound⟩
  | cons item rest ih =>
    cases done : run' item s.imports with
    | ok token t =>
      obtain ⟨v, came, rfl, sound'⟩ := (follows item).ok sound done
      obtain ⟨w, others, same, last⟩ := ih sound'
      exact ⟨w, by simp only [inTurn, came, done, others, Prod.map, id], by simp only [inTurn, done, Prod.map, same, id], last⟩
    | error fault t =>
      obtain ⟨v, came, rfl, sound'⟩ := (follows item).error sound done
      obtain ⟨w, others, same, last⟩ := ih sound'
      exact ⟨w, by simp only [inTurn, came, done, others, Prod.map, id], by simp only [inTurn, done, Prod.map, same, id], last⟩

/-- Lookups in turn come out in the same way, whether answers are kept or not. -/
theorem Resolver.inTurn_remember (r : Resolver) (lookups : List Lookup) (sound : s.Sound r) :
    ∃ s', inTurn r.remember lookups s = ((inTurn r.answer lookups s.imports).1, s') ∧
      s'.imports = (inTurn r.answer lookups s.imports).2 ∧ s'.Sound r :=
  Remembering.inTurn_follows r.remember_follows lookups sound

theorem Importing.grows_inTurn {α β : Type} {run : α → Importing β} (adds : ∀ a, Extends (run a)) (items : List α) (t : ImportTable) :
    t.Grows (inTurn run items t).2 := by
  induction items generalizing t with
  | nil => exact .refl t
  | cons item rest ih =>
    cases done : run item t with
    | ok b u =>
      simp only [inTurn, done, Prod.map, id]
      exact ((adds item).ok done).trans (ih u)
    | error fault u =>
      simp only [inTurn, done, Prod.map, id]
      exact ((adds item).error done).trans (ih u)

theorem Resolver.grows_inTurn (r : Resolver) (lookups : List Lookup) (t : ImportTable) : t.Grows (inTurn r.answer lookups t).2 :=
  Importing.grows_inTurn (extends_answer r) lookups t

/-- What some lookups have found is found again after all of them. -/
theorem Resolver.answer_of_inTurn {lookups : List Lookup} {t : ImportTable}
    (among : (lookup, .ok token) ∈ lookups.zip (inTurn r.answer lookups t).1) :
    r.answer lookup (inTurn r.answer lookups t).2 = .ok token (inTurn r.answer lookups t).2 := by
  induction lookups generalizing t with
  | nil => cases among
  | cons first rest ih =>
    cases done : r.answer first t with
    | ok a u =>
      simp only [inTurn, done, Prod.map, id, List.zip_cons_cons] at among ⊢
      rcases List.mem_cons.mp among with same | later
      · cases same
        exact (settles_answer r lookup).again done (r.grows_inTurn rest u)
      · exact ih later
    | error fault u =>
      simp only [inTurn, done, Prod.map, id, List.zip_cons_cons] at among ⊢
      rcases List.mem_cons.mp among with same | later
      · cases same
      · exact ih later

end Kept

/-! ### Lookups in turn -/

section Turns

variable {m : Module} {l : Library} {rows : ImportTable} {lookups : List Lookup} {answers : List (Except Fault Token)} {s : Recollection}

/-- After any lookups, a method is found just if one is there that is asked for, and then it is the first one of the nearest
    type that has one; what has been found before is found again, without a new row; and a lookup that fails adds no row. It
    makes no difference that answers are kept. -/
theorem lookups_find_nearest (asked : inTurn (Resolver.remember ⟨l, .ofModule m⟩) lookups { imports := rows } = (answers, s)) :
    inTurn (Resolver.answer ⟨l, .ofModule m⟩) lookups rows = (answers, s.imports) ∧
      (∀ host q, ((∃ token u, Resolver.remember ⟨l, .ofModule m⟩ (.method host q) s = .ok token u) ↔ m.Offers l q host) ∧
        ∀ token u, Resolver.remember ⟨l, .ofModule m⟩ (.method host q) s = .ok token u →
          ∃ found, m.HasNearest l q host found ∧ found.NamedBy s.imports u.imports token) ∧
      (∀ lookup token, (lookup, .ok token) ∈ lookups.zip answers →
        ∃ u, Resolver.remember ⟨l, .ofModule m⟩ lookup s = .ok token u ∧ u.imports = s.imports) ∧
      ∀ lookup fault u, Resolver.remember ⟨l, .ofModule m⟩ lookup s = .error fault u → u.imports = s.imports := by
  obtain ⟨s', came, same, sound⟩ :=
    Resolver.inTurn_remember ⟨l, .ofModule m⟩ lookups (s := { imports := rows }) ⟨nofun, nofun⟩
  rw [asked] at came
  obtain ⟨rfl, rfl⟩ := Prod.mk.inj came
  have follows := Resolver.remember_follows ⟨l, .ofModule m⟩
  refine ⟨Prod.ext rfl same.symm, fun host q => ?_, fun lookup token among => ?_, fun lookup fault u failed => ?_⟩
  · rcases Resolver.resolveMethod_found l m host q s.imports with ⟨found, token, t, nearest, done, named⟩ | ⟨none, fault, failed⟩
    · obtain ⟨u, came, rfl, -⟩ := (follows (.method host q)).ok sound done
      refine ⟨⟨fun _ => nearest.offers, fun _ => ⟨token, u, came⟩⟩, fun other v again => ?_⟩
      cases came.symm.trans again
      exact ⟨found, nearest, named⟩
    · obtain ⟨u, came, -⟩ := (follows (.method host q)).error sound failed
      refine ⟨⟨?_, fun offers => absurd offers none⟩, fun token v done => ?_⟩
      · rintro ⟨token, v, done⟩
        cases came.symm.trans done
      · cases came.symm.trans done
  · have again := Resolver.answer_of_inTurn among
    rw [← same] at again
    obtain ⟨u, came, rows, -⟩ := (follows lookup).ok sound again
    exact ⟨u, came, rows⟩
  · cases done : Resolver.answer ⟨l, .ofModule m⟩ lookup s.imports with
    | ok token t =>
      obtain ⟨v, came, -⟩ := (follows lookup).ok sound done
      cases came.symm.trans failed
    | error cause t =>
      obtain ⟨v, came, rfl, -⟩ := (follows lookup).error sound done
      cases came.symm.trans failed
      exact (settles_answer _ lookup).error done

end Turns

namespace Sample

/-- A type with a method. -/
def recorder : TypeDecl where
  name := ⟨"Sample", "Recorder"⟩
  methods := [{ name := "Note", body := some { code := .ofList [⟨.ret, .none⟩] } }]

/-- A type that derives from it. -/
def keeper : TypeDecl where
  name := ⟨"Sample", "Keeper"⟩
  base := some (.definition (.ofParts Token.typeDef 1))

/-- The library that they are compiled against. -/
def texts : Library where
  types := [{ name := WellKnown.object, base := none, methods := [{ name := "ToString", parameters := [] }] }]

/-- The module of both types. -/
def recorders : Module := ((({ name := "Sample", library := texts } : Module).addType recorder).1.addType keeper).1

/-- Methods of the second type, of which there is no third one. -/
def questions : List Lookup :=
  ["Note", "ToString", "Erase"].map fun name => .method (.definition (.ofParts Token.typeDef 2)) { name }

/-- A method that the type has from the library is found, and found again with the same row. -/
theorem recorders_remembered :
    ∃ answers s, inTurn (Resolver.remember ⟨texts, .ofModule recorders⟩) questions { imports := {} } = (answers, s) ∧
      recorders.Offers texts { name := "ToString" } (.definition (.ofParts Token.typeDef 2)) ∧
      ∃ u, Resolver.remember ⟨texts, .ofModule recorders⟩ (.method (.definition (.ofParts Token.typeDef 2)) { name := "ToString" }) s =
        .ok (.ofParts Token.memberRef 1) u ∧ u.imports = s.imports := by
  obtain ⟨-, methods, again, -⟩ := @lookups_find_nearest recorders texts {} questions _ _ rfl
  have given : ((questions.zip (inTurn (Resolver.remember ⟨texts, .ofModule recorders⟩) questions { imports := {} }).1).filterMap
      fun e => e.2.toOption.map (e.1, ·))[1]? = some (.method (.definition (.ofParts Token.typeDef 2)) { name := "ToString" },
        .ofParts Token.memberRef 1) := by decide +kernel
  obtain ⟨⟨lookup, answer⟩, among, same⟩ := List.mem_filterMap.mp (List.mem_of_getElem? given)
  cases answer with
  | error fault => cases same
  | ok token =>
    cases same
    obtain ⟨u, found, rows⟩ := again _ _ among
    exact ⟨_, _, rfl, (methods _ _).1.mp ⟨_, u, found⟩, u, found, rows⟩

end Sample

end AspectWeaving

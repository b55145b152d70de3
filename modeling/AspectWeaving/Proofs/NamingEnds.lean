import AspectWeaving.Proofs.ImportCalls
import Mathlib.Data.Finset.Card

/-!
Where naming ends. The name of a token is that of the signature of its row, and a signature is named by the token it mentions
(`ImportTable.Asks`). Naming ends just where this comes to an end, and then as many rows as there are suffice
(`Module.nameOf_eq_some_iff`); it ends everywhere just if no token asks for itself (`ImportTable.wellFounded_asks_iff`). Rows that
mention only rows before them are so, and calls that ask for no others keep them so (`Resolver.ordered_calls`).
-/
namespace AspectWeaving

theorem Token.ofParts_parts (token : Token) : .ofParts token.table token.row = token := by
  obtain ⟨value⟩ := token
  have bound := value.toNat_lt
  apply congrArg Token.mk
  apply UInt32.toNat_inj.mp
  simp only [table, row, UInt32.toNat_ofNat']
  omega

/-- What is named: a token or a signature. -/
inductive Nameable where
  | token (token : Token)
  | sig (sig : TypeSig)
  deriving DecidableEq

/-- The name of a token or a signature, through as many rows as it takes. -/
def Module.nameOf (m : Module) : Nameable → Option (Option String)
  | .token token => m.nameToken token
  | .sig sig => m.nameSig sig

/-- The name of a token or a signature, through as many rows as there are. -/
def Module.nameOf? (m : Module) : Nameable → Option String
  | .token token => m.tokenName? token
  | .sig sig => m.sigName? sig

namespace ImportTable

/-- What has to be named before a token or a signature is. -/
def asked? (t : ImportTable) : Nameable → Option Nameable
  | .token token => (t.getTypeSpec? token).map .sig
  | .sig (.classType token) | .sig (.valueType token) => some (.token token)
  | .sig (.array element) | .sig (.byRef element) => some (.sig element)
  | .sig _ => none

/-- One is named for the sake of another. -/
def Asks (t : ImportTable) (x y : Nameable) : Prop := t.asked? y = some x

/-- Rows lead on from a token at most so many times. -/
def EndsWithin (t : ImportTable) : Nat → Token → Prop
  | 0, token => t.onward? token = none
  | limit + 1, token => ∀ next, t.onward? token = some next → t.EndsWithin limit next

variable {t : ImportTable} {m : Module} {x y : Nameable} {a b : Token} {sig : TypeSig} {limit depth : Nat}

/-! ### What is asked for -/

theorem acc_of_asked?_eq_none (stops : t.asked? x = none) : Acc t.Asks x := by
  constructor
  intro y asks
  cases stops.symm.trans asks

theorem acc_iff_of_asked? (asks : t.asked? y = some x) : Acc t.Asks y ↔ Acc t.Asks x := by
  constructor
  · intro ends
    exact ends.inv asks
  · intro ends
    constructor
    intro z other
    cases asks.symm.trans other
    exact ends

/-- A signature is named if the token is that it mentions. -/
theorem acc_sig_iff : Acc t.Asks (.sig sig) ↔ ∀ token, sig.mentioned? = some token → Acc t.Asks (.token token) := by
  induction sig with
  | classType token | valueType token =>
    rw [acc_iff_of_asked? rfl]
    simp [TypeSig.mentioned?]
  | array element ih | byRef element ih =>
    rw [acc_iff_of_asked? rfl, ih]
    rfl
  | _ => exact ⟨fun _ => nofun, fun _ => acc_of_asked?_eq_none rfl⟩

theorem acc_token_iff : Acc t.Asks (.token a) ↔ ∀ next, t.onward? a = some next → Acc t.Asks (.token next) := by
  unfold onward?
  cases row : t.getTypeSpec? a with
  | none =>
    have stops : t.asked? (.token a) = none := by simp [asked?, row]
    exact ⟨fun _ => nofun, fun _ => acc_of_asked?_eq_none stops⟩
  | some sig =>
    have asks : t.asked? (.token a) = some (.sig sig) := by simp [asked?, row]
    rw [acc_iff_of_asked? asks, acc_sig_iff]
    rfl

theorem asks_mentioned (mentions : sig.mentioned? = some a) : Relation.TransGen t.Asks (.token a) (.sig sig) := by
  induction sig with
  | classType token | valueType token =>
    cases mentions
    exact .single rfl
  | array element ih | byRef element ih => exact (ih mentions).tail rfl
  | _ => cases mentions

theorem asks_onward (leads : t.onward? a = some b) : Relation.TransGen t.Asks (.token b) (.token a) := by
  obtain ⟨sig, row, mentions⟩ := Option.bind_eq_some_iff.mp leads
  refine (asks_mentioned mentions).tail ?_
  simp [Asks, asked?, row]

/-- What can be named does not ask for itself. -/
theorem not_asks_self (ends : Acc t.Asks x) : ¬ Relation.TransGen t.Asks x x := by
  have further := ends.transGen
  induction further with
  | intro x _ ih =>
    intro circle
    exact ih x circle (ends.inv_of_transGen circle) circle

/-! ### As many rows as there are -/

theorem EndsWithin.of_stop (stops : t.onward? a = none) (limit : Nat) : t.EndsWithin limit a := by
  cases limit with
  | zero => exact stops
  | succ limit =>
    intro next leads
    cases stops.symm.trans leads

theorem EndsWithin.acc (ends : t.EndsWithin limit a) : Acc t.Asks (.token a) := by
  induction limit generalizing a with
  | zero =>
    have stops : t.onward? a = none := ends
    apply acc_token_iff.mpr
    simp [stops]
  | succ limit ih =>
    apply acc_token_iff.mpr
    intro next leads
    exact ih (ends next leads)

/-- The tokens of the rows of constructed types. -/
def specTokens (t : ImportTable) : Finset Token := (Finset.range t.typeSpecs.size).image fun i => .ofParts Token.typeSpec (i + 1)

theorem card_specTokens_le (t : ImportTable) : t.specTokens.card ≤ t.typeSpecs.size :=
  Finset.card_image_le.trans_eq (Finset.card_range _)

theorem getTypeSpec?_eq_some_iff :
    t.getTypeSpec? a = some sig ↔ a.table = Token.typeSpec ∧ 0 < a.row ∧ t.typeSpecs[a.row - 1]? = some sig := by
  unfold getTypeSpec? rowOf?
  split <;> simp_all

theorem mem_specTokens (leads : t.onward? a = some b) : a ∈ t.specTokens := by
  obtain ⟨sig, row, -⟩ := Option.bind_eq_some_iff.mp leads
  obtain ⟨table, positive, here⟩ := getTypeSpec?_eq_some_iff.mp row
  have inside := (Array.getElem?_eq_some_iff.mp here).1
  refine Finset.mem_image.mpr ⟨a.row - 1, Finset.mem_range.mpr inside, ?_⟩
  rw [← table, Nat.sub_add_cancel positive]
  exact a.ofParts_parts

/-- Where no token comes back to itself, every row is passed once at most. -/
theorem endsWithin_card (passed : Finset Token)
    (known : ∀ b c, Relation.ReflTransGen (fun x y => t.onward? x = some y) a b → t.onward? b = some c → b ∈ passed)
    (apart : ∀ b, Relation.ReflTransGen (fun x y => t.onward? x = some y) a b → ¬ Relation.TransGen (fun x y => t.onward? x = some y) b b) :
    t.EndsWithin passed.card a := by
  induction passed using Finset.strongInduction generalizing a with
  | H passed ih =>
    cases leads : t.onward? a with
    | none => exact .of_stop leads _
    | some next =>
      have member : a ∈ passed := known a next .refl leads
      rw [← Finset.card_erase_add_one member]
      intro other same
      cases leads.symm.trans same
      refine ih _ (Finset.erase_ssubset member) (fun b c reached onward => ?_) fun b reached => apart b (.head leads reached)
      refine Finset.mem_erase.mpr ⟨?_, known b c (.head leads reached) onward⟩
      -- To come to the first token again is to go round in a circle.
      rintro rfl
      exact apart b .refl (.head' leads reached)

theorem EndsWithin.mono {more : Nat} (ends : t.EndsWithin limit a) (enough : limit ≤ more) : t.EndsWithin more a := by
  induction limit generalizing a more with
  | zero => exact .of_stop ends more
  | succ limit ih =>
    obtain ⟨more, rfl⟩ := Nat.exists_eq_add_one.mpr (Nat.lt_of_lt_of_le (Nat.succ_pos limit) enough)
    intro next leads
    exact ih (ends next leads) (Nat.le_of_succ_le_succ enough)

/-- What rows lead on to is asked for. -/
theorem asks_of_leads (reached : Relation.ReflTransGen (fun x y => t.onward? x = some y) a b) :
    Relation.ReflTransGen t.Asks (.token b) (.token a) := by
  induction reached with
  | refl => exact .refl
  | tail _ leads ih => exact (asks_onward leads).to_reflTransGen.trans ih

theorem asks_of_leads_on (reached : Relation.TransGen (fun x y => t.onward? x = some y) a b) :
    Relation.TransGen t.Asks (.token b) (.token a) := by
  obtain ⟨c, first, rest⟩ := Relation.TransGen.head'_iff.mp reached
  exact Relation.TransGen.trans_right (asks_of_leads rest) (asks_onward first)

/-- Where no token asks for itself on the way, as many rows as there are are passed at most. -/
theorem endsWithin_size
    (apart : ∀ b, Relation.ReflTransGen t.Asks (.token b) (.token a) → ¬ Relation.TransGen t.Asks (.token b) (.token b)) :
    t.EndsWithin t.typeSpecs.size a := by
  refine (endsWithin_card t.specTokens (fun b c _ onward => mem_specTokens onward) fun b reached circle => ?_).mono
    t.card_specTokens_le
  exact apart b (asks_of_leads reached) (asks_of_leads_on circle)

theorem endsWithin_size_of_acc (ends : Acc t.Asks (.token a)) : t.EndsWithin t.typeSpecs.size a := by
  apply endsWithin_size
  intro b reached
  apply not_asks_self
  rcases Relation.reflTransGen_iff_eq_or_transGen.mp reached with same | further
  · rwa [← same]
  · exact ends.inv_of_transGen further

theorem leadsBeyond_eq_false_iff : t.leadsBeyond limit a = false ↔ t.EndsWithin limit a := by
  induction limit generalizing a with
  | zero => simp [leadsBeyond, EndsWithin]
  | succ limit ih =>
    unfold leadsBeyond EndsWithin
    cases t.onward? a <;> simp [ih]

/-- Naming ends for everything just if no token asks for itself. -/
theorem wellFounded_asks_iff (t : ImportTable) :
    WellFounded t.Asks ↔ ∀ token, ¬ Relation.TransGen t.Asks (.token token) (.token token) := by
  constructor
  · intro ends token
    exact not_asks_self (ends.apply _)
  · intro apart
    have tokens : ∀ token, Acc t.Asks (.token token) := fun token => (endsWithin_size fun b _ => apart b).acc
    constructor
    intro x
    cases x with
    | token token => exact tokens token
    | sig sig => exact acc_sig_iff.mpr fun token _ => tokens token

end ImportTable

/-! ### Names -/

namespace Module

open ImportTable

variable {m : Module} {x : Nameable} {a b : Token} {sig : TypeSig} {limit depth : Nat} {y : Option String}

/-- A signature is named if the token is that it mentions. -/
theorem nameSig_eq {name? : Token → Option String} (known : ∀ b, sig.mentioned? = some b → m.nameToken b = some (name? b)) :
    m.nameSig sig = some (sig.nameWith name?) := by
  rw [nameSig.eq_def]
  induction sig with
  | classType token | valueType token => exact known token rfl
  | array element ih | byRef element ih =>
    have inner : m.nameSig element = some (element.nameWith name?) := by
      rw [nameSig.eq_def]
      exact ih known
    simp [inner, TypeSig.nameWith]
  | _ => rfl

/-- A token is named if the one is that its row leads on to. -/
theorem nameToken_eq (known : ∀ b, m.imports.onward? a = some b → m.nameToken b = some (m.tokenNameWithin depth b)) :
    m.nameToken a = some (m.tokenNameWithin (depth + 1) a) := by
  rw [nameToken.eq_def, tokenNameWithin]
  split
  · rfl
  · split
    · rfl
    · split
      · cases row : m.imports.getTypeSpec? a with
        | none => rfl
        | some sig =>
          apply nameSig_eq
          intro b mentions
          apply known
          simp [onward?, row, mentions]
      · rfl

/-- Where rows lead on no more than so many times, naming ends, and passes no more rows. -/
theorem nameToken_of_endsWithin (ends : m.imports.EndsWithin limit a) (enough : limit ≤ depth) :
    m.nameToken a = some (m.tokenNameWithin (depth + 1) a) := by
  induction limit generalizing a depth with
  | zero =>
    apply nameToken_eq
    intro b leads
    cases leads.symm.trans ends
  | succ limit ih =>
    obtain ⟨depth, rfl⟩ := Nat.exists_eq_add_one.mpr (Nat.lt_of_lt_of_le (Nat.succ_pos limit) enough)
    apply nameToken_eq
    intro b leads
    exact ih (ends b leads) (Nat.le_of_succ_le_succ enough)

/-- Where naming ends, what has to be named before has an end. -/
theorem acc_of_nameOf (named : m.nameOf x = some y) : Acc m.imports.Asks x := by
  obtain ⟨tokens, sigs⟩ := nameToken.mutual_partial_correctness m (fun token _ => Acc m.imports.Asks (.token token))
    (fun sig _ => Acc m.imports.Asks (.sig sig))
    (by
      intro name ih token y named
      cases row : m.imports.getTypeSpec? token with
      | none =>
        apply acc_of_asked?_eq_none
        simp [asked?, row]
      | some sig =>
        have table := (getTypeSpec?_eq_some_iff.mp row).1
        have asks : m.imports.asked? (.token token) = some (.sig sig) := by simp [asked?, row]
        rw [if_neg (by rw [table]; decide), if_neg (by rw [table]; decide), if_pos table, row] at named
        exact (acc_iff_of_asked? asks).mpr (ih sig y named))
    (by
      intro nameToken nameSig ihToken ihSig sig y named
      cases sig with
      | classType token | valueType token => exact (acc_iff_of_asked? rfl).mpr (ihToken token y named)
      | array element | byRef element =>
        obtain ⟨inner, found, -⟩ := Option.bind_eq_some_iff.mp named
        exact (acc_iff_of_asked? rfl).mpr (ihSig element inner found)
      | _ => exact acc_of_asked?_eq_none rfl)
  cases x with
  | token token => exact tokens token y named
  | sig sig => exact sigs sig y named

/-- Where what has to be named before has an end, naming ends with the name that as many rows as there are give. -/
theorem nameOf_of_acc (ends : Acc m.imports.Asks x) : m.nameOf x = some (m.nameOf? x) := by
  have tokens : ∀ token, Acc m.imports.Asks (.token token) → m.nameToken token = some (m.tokenName? token) := by
    intro token ends
    exact nameToken_of_endsWithin (endsWithin_size_of_acc ends) (Nat.le_refl _)
  cases x with
  | token token => exact tokens token ends
  | sig sig =>
    apply nameSig_eq
    intro token mentions
    exact tokens token (acc_sig_iff.mp ends token mentions)

theorem nameOf_eq_some_iff : m.nameOf x = some y ↔ Acc m.imports.Asks x ∧ m.nameOf? x = y := by
  constructor
  · intro named
    have ends := acc_of_nameOf named
    rw [nameOf_of_acc ends] at named
    exact ⟨ends, Option.some.inj named⟩
  · rintro ⟨ends, rfl⟩
    exact nameOf_of_acc ends

theorem isEndless_eq_false_iff : m.isEndless a = false ↔ Acc m.imports.Asks (.token a) :=
  leadsBeyond_eq_false_iff.trans ⟨EndsWithin.acc, endsWithin_size_of_acc⟩

/-- A run is given the name that naming ends with, or told that it does not end. -/
theorem naming_eq (m : Module) (a : Token) :
    m.naming a =
      match m.nameToken a with
      | some name? => .ok name?
      | none => .error (.endlessName a) := by
  unfold naming
  split
  · rename_i endless
    cases named : m.nameToken a with
    | none => rfl
    | some y =>
      have ends := isEndless_eq_false_iff.mpr (acc_of_nameOf (x := .token a) named)
      cases ends.symm.trans endless
  · rename_i ends
    have named : m.nameToken a = some (m.tokenName? a) :=
      nameOf_of_acc (x := .token a) (isEndless_eq_false_iff.mp (Bool.eq_false_of_not_eq_true ends))
    rw [named]

theorem naming_eq_error_iff : m.naming a = .error (.endlessName a) ↔ m.nameToken a = none := by
  rw [naming_eq]
  cases m.nameToken a <;> simp

/-- The module after some calls, beside which a resolver keeps its answers. -/
def calling (m : Module) (r : Resolver) (calls : List ImportCall) : Module :=
  { m with imports := (inTurn r.perform calls { imports := m.imports }).2.imports }

theorem imports_calling (m : Module) (r : Resolver) (calls : List ImportCall) :
    (m.calling r calls).imports = (inTurn r.importFor calls m.imports).2 :=
  (r.inTurn_perform calls (r.sound_fresh m.imports)).1

end Module

/-! ### Rows in order -/

/-- A signature mentions none of the rows of constructed types but the first ones. -/
def TypeSig.MentionsAmong (sig : TypeSig) (rows : Nat) : Prop :=
  ∀ token ∈ sig.mentioned?, token.table = Token.typeSpec → token.row ≤ rows

instance (sig : TypeSig) (rows : Nat) : Decidable (sig.MentionsAmong rows) :=
  inferInstanceAs (Decidable (∀ token ∈ sig.mentioned?, _))

/-- The row of a constructed type mentions only rows before it. -/
def ImportTable.Ordered (t : ImportTable) : Prop := ∀ (i : Nat) (sig : TypeSig), t.typeSpecs[i]? = some sig → sig.MentionsAmong i

namespace ImportTable

variable {t u : ImportTable} {a : Token} {sig : TypeSig} {limit : Nat}

/-- Rows among the first ones that mention only rows before them are passed downwards. -/
theorem endsWithin_of_before (before : ∀ (i : Nat) (sig : TypeSig), i < limit → t.typeSpecs[i]? = some sig → sig.MentionsAmong i)
    (among : a.table = Token.typeSpec → a.row ≤ limit) : t.EndsWithin limit a := by
  induction limit generalizing a with
  | zero =>
    cases leads : t.onward? a with
    | none => exact .of_stop leads 0
    | some next =>
      obtain ⟨sig, row, -⟩ := Option.bind_eq_some_iff.mp leads
      obtain ⟨table, positive, -⟩ := getTypeSpec?_eq_some_iff.mp row
      exact absurd (among table) (Nat.not_le.mpr positive)
  | succ limit ih =>
    intro next leads
    obtain ⟨sig, row, mentions⟩ := Option.bind_eq_some_iff.mp leads
    obtain ⟨table, positive, here⟩ := getTypeSpec?_eq_some_iff.mp row
    have bound := among table
    apply ih
    · intro i sig inside
      exact before i sig (Nat.lt_succ_of_lt inside)
    · intro other
      have earlier := before _ sig (by omega) here next mentions other
      omega

namespace Ordered

/-- Naming ends where rows mention only rows before them. -/
theorem wellFounded (ordered : t.Ordered) : WellFounded t.Asks := by
  have tokens : ∀ token, Acc t.Asks (.token token) := by
    intro token
    exact EndsWithin.acc (endsWithin_of_before (fun i sig _ => ordered i sig) fun _ => Nat.le_refl token.row)
  constructor
  intro x
  cases x with
  | token token => exact tokens token
  | sig sig => exact acc_sig_iff.mpr fun token _ => tokens token

theorem add (ordered : t.Ordered) (among : sig.MentionsAmong t.typeSpecs.size) (added : u.typeSpecs = (intern t.typeSpecs sig).1) :
    u.Ordered := by
  intro i x here
  rw [added] at here
  unfold intern at here
  split at here
  · exact ordered i x here
  · rw [Array.getElem?_push] at here
    split at here
    · rename_i last
      cases here
      exact last ▸ among
    · exact ordered i x here

end Ordered

end ImportTable

namespace Resolver

variable {r : Resolver} {t : ImportTable} {call : ImportCall} {calls : List ImportCall}

/-- A call that asks for no constructed type but of rows that are there keeps the rows in order. -/
theorem ordered_importFor (ordered : t.Ordered) (among : ∀ sig, call.spec? = some sig → sig.MentionsAmong t.typeSpecs.size) :
    ((r.importFor call).table t).Ordered := by
  have rows := r.typeSpecs_importFor call t
  cases asked : call.spec? with
  | none =>
    rw [asked] at rows
    intro i sig here
    rw [rows] at here
    exact ordered i sig here
  | some sig =>
    rw [asked] at rows
    exact ordered.add (among sig asked) rows

theorem ordered_calls (ordered : t.Ordered)
    (among : ∀ (i : Nat) call sig, calls[i]? = some call → call.spec? = some sig →
      sig.MentionsAmong (inTurn r.importFor (calls.take i) t).2.typeSpecs.size) :
    (inTurn r.importFor calls t).2.Ordered := by
  induction calls generalizing t with
  | nil => exact ordered
  | cons first rest ih =>
    rw [Importing.inTurn_cons]
    apply ih
    · exact ordered_importFor ordered fun sig asked => among 0 first sig rfl asked
    · intro i call sig here asked
      have later := among (i + 1) call sig here asked
      rwa [List.take_succ_cons, Importing.inTurn_cons] at later

end Resolver

/-- After any calls that import, the recursion that names a token or a signature ends just if what has to be named before comes to an
    end, and gives the name that as many rows as there are give. It comes to an end everywhere just if no token has to be named before
    itself; and so it does if the rows that were there mention only rows before them, and no call asks for a constructed type that
    mentions another row than those which are there when it is made. -/
theorem naming_ends_unless_circular (m : Module) (r : Resolver) (calls : List ImportCall) :
    let n := m.calling r calls
    (∀ x y, n.nameOf x = some y ↔ Acc n.imports.Asks x ∧ n.nameOf? x = y) ∧
    (WellFounded n.imports.Asks ↔ ∀ token, ¬ Relation.TransGen n.imports.Asks (.token token) (.token token)) ∧
    (m.imports.Ordered →
      (∀ (i : Nat) call sig, calls[i]? = some call → call.spec? = some sig →
        sig.MentionsAmong (m.calling r (calls.take i)).imports.typeSpecs.size) →
      WellFounded n.imports.Asks ∧ ∀ x, ∃ y, n.nameOf x = some y) := by
  intro n
  refine ⟨fun x y => Module.nameOf_eq_some_iff, n.imports.wellFounded_asks_iff, fun ordered among => ?_⟩
  have last : n.imports.Ordered := by
    simp only [Module.imports_calling] at among
    rw [Module.imports_calling]
    exact Resolver.ordered_calls ordered among
  have ends := last.wellFounded
  exact ⟨ends, fun x => ⟨_, Module.nameOf_of_acc (ends.apply x)⟩⟩

namespace Sample

/-- A module without types, and a resolver for it. -/
def blank : Module := { name := "Sample", library := {} }

/-- The array of the type whose row it is itself, if it is the first. -/
def ownArray : ImportCall := .row (.spec (.array (.classType (.ofParts Token.typeSpec 1))))

/-- An array that is asked for by way of the row it gets has no end of names. -/
theorem own_array_unnamed :
    let n := blank.calling (.ofModule blank) [ownArray]
    ¬ WellFounded n.imports.Asks ∧ n.nameToken (.ofParts Token.typeSpec 1) = none := by
  intro n
  have circle : Relation.TransGen n.imports.Asks (.token (.ofParts Token.typeSpec 1)) (.token (.ofParts Token.typeSpec 1)) := by
    have mentions : n.imports.Asks (.token (.ofParts Token.typeSpec 1)) (.sig (.classType (.ofParts Token.typeSpec 1))) := rfl
    have element : n.imports.Asks (.sig (.classType (.ofParts Token.typeSpec 1)))
        (.sig (.array (.classType (.ofParts Token.typeSpec 1)))) := rfl
    have row : n.imports.asked? (.token (.ofParts Token.typeSpec 1)) =
        some (.sig (.array (.classType (.ofParts Token.typeSpec 1)))) := by decide +kernel
    exact ((Relation.TransGen.single mentions).tail element).tail row
  refine ⟨fun ends => ImportTable.not_asks_self (ends.apply _) circle, ?_⟩
  cases named : n.nameToken (.ofParts Token.typeSpec 1) with
  | none => rfl
  | some y =>
    have ends := Module.acc_of_nameOf (x := .token (.ofParts Token.typeSpec 1)) named
    exact absurd circle (ImportTable.not_asks_self ends)

/-- A type, the array of it, and references to that. -/
def nestedCalls : List ImportCall :=
  [.row (.type ⟨"System", "Object"⟩), .row (.spec (.array (.classType (.ofParts Token.typeRef 1)))),
    .lookup (.signature (.byRef (.classType (.ofParts Token.typeSpec 1))))]

theorem nested_types_named :
    let n := blank.calling (.ofModule blank) nestedCalls
    WellFounded n.imports.Asks ∧ n.nameToken (.ofParts Token.typeSpec 2) = some (some "System.Object[]&") := by
  intro n
  have all := naming_ends_unless_circular blank (.ofModule blank) nestedCalls
  obtain ⟨ends, -⟩ := all.2.2 nofun (by
    intro i call sig here asked
    match i with
    | 0 => cases here; cases asked
    | 1 =>
      cases here
      cases asked
      decide +kernel
    | 2 =>
      cases here
      cases asked
      decide +kernel
    | _ + 3 => cases here)
  refine ⟨ends, (all.1 (.token (.ofParts Token.typeSpec 2)) _).mpr ⟨ends.apply _, by decide +kernel⟩⟩

end Sample

end AspectWeaving

import AspectWeaving.Proofs.Validation
import AspectWeaving.WeavePlan
import Mathlib.Data.List.TakeWhile

/-!
Anchors. The code that a weave protects starts at the first instruction of a body, and in a constructor
behind the first call of another constructor, if no return stands before that (`Body.Chains`). A valid body
has an anchor in every other case as well, since it does not end with a call (`Body.Valid.findAnchor`).
-/
namespace AspectWeaving

variable {r : Resolver} {rows : ImportTable} {b : Body} {anchor : Handle}

/-- A body calls another constructor, and does not return before it has. -/
structure Body.Chains (b : Body) (r : Resolver) (rows : ImportTable) : Prop where
  calls : ∃ e ∈ b.code.entries, callsConstructor r rows e.2 = true
  stays : ∀ e ∈ b.code.entries.takeWhile fun e => !callsConstructor r rows e.2, e.2.opcode ≠ .ret

/-- The code around an anchor behind a call of a constructor. -/
structure AnchorBehind (r : Resolver) (rows : ImportTable) (entries before : List (Handle × Instruction))
    (call : Handle × Instruction) (anchor : Handle) : Prop where
  parts : ∃ i behind, entries = before ++ call :: (anchor, i) :: behind
  calls : callsConstructor r rows call.2 = true
  first : ∀ e ∈ before, callsConstructor r rows e.2 = false
  stays : ∀ e ∈ before, e.2.opcode ≠ .ret

theorem exists_anchorBehind {entries : List (Handle × Instruction)}
    (found : anchorBehindChainedCall r rows entries = .ok anchor) :
    ∃ before call, AnchorBehind r rows entries before call anchor := by
  have whole := List.takeWhile_append_dropWhile (p := fun e => !callsConstructor r rows e.2) (l := entries)
  unfold anchorBehindChainedCall at found
  cases rest : entries.dropWhile fun e => !callsConstructor r rows e.2 with
  | nil =>
    simp only [rest] at found
    cases found
  | cons call behind =>
    simp only [rest] at found
    rw [rest] at whole
    split at found
    · cases found
    · rename_i stays
      cases behind with
      | nil => cases found
      | cons e behind =>
        cases found
        refine ⟨_, call, ⟨e.2, behind, whole.symm⟩, ?_, fun e member => ?_, fun e member => ?_⟩
        · have first := List.head?_dropWhile_not (fun e => !callsConstructor r rows e.2) entries
          rw [rest] at first
          simpa using first
        · simpa using List.mem_takeWhile_imp member
        · intro ret
          exact stays (List.any_eq_true.mpr ⟨e, member, by simpa using ret⟩)

theorem AnchorBehind.order {before : List (Handle × Instruction)} {call : Handle × Instruction}
    (behind : AnchorBehind r rows b.code.entries before call anchor) :
    b.code.order[before.length]? = some call.1 ∧ b.code.get? call.1 = some call.2 ∧
      b.code.order[before.length + 1]? = some anchor := by
  obtain ⟨i, rest, whole⟩ := behind.parts
  have called : b.code.entries[before.length]? = some (call.1, call.2) := by
    rw [whole, List.getElem?_append_right (Nat.le_refl _)]
    simp
  have here : b.code.entries[before.length + 1]? = some (anchor, i) := by
    rw [whole, List.getElem?_append_right (Nat.le_succ _)]
    simp
  obtain ⟨stands, there⟩ := Code.getElem?_entries_eq_some_iff.mp called
  exact ⟨stands, there, (Code.getElem?_entries_eq_some_iff.mp here).1⟩

/-- An anchor is the first handle of the code, or the one behind a call of a constructor. -/
theorem findAnchor_cases {constructor : Bool} (found : findAnchor r rows b constructor = .ok anchor) :
    b.code.first? = some anchor ∨ ∃ before call, AnchorBehind r rows b.code.entries before call anchor := by
  unfold findAnchor at found
  split at found
  · cases found
  · rename_i first starts
    cases constructor with
    | false =>
      cases found
      exact .inl starts
    | true => exact .inr (exists_anchorBehind found)

/-- An anchor is a handle of the code. -/
theorem exists_position_of_findAnchor {constructor : Bool} (found : findAnchor r rows b constructor = .ok anchor) :
    ∃ place : Nat, b.code.order[place]? = some anchor := by
  rcases findAnchor_cases found with starts | ⟨before, call, behind⟩
  · exact ⟨0, starts⟩
  · exact ⟨_, behind.order.2.2⟩

theorem callsConstructor_fallsThrough {i : Instruction} (calls : callsConstructor r rows i = true) :
    i.opcode.fallsThrough = true := by
  unfold callsConstructor at calls
  split at calls
  · rename_i opcode _
    rw [opcode]
    rfl
  · cases calls

/-- In a valid body there is an anchor, unless it is to be behind a call of a constructor and is not. -/
theorem Body.Valid.findAnchor_cases (valid : b.Valid) (r : Resolver) (rows : ImportTable) (constructor : Bool) :
    ((constructor = true → b.Chains r rows) ∧ ∃ anchor, findAnchor r rows b constructor = .ok anchor) ∨
      constructor = true ∧ ¬ b.Chains r rows ∧
        (findAnchor r rows b constructor = .error .noChainedCall ∨
          findAnchor r rows b constructor = .error .returnsBeforeChainedCall) := by
  obtain ⟨last, i, ends, found, stops⟩ := valid.last
  obtain ⟨bound, -⟩ := Array.getElem?_eq_some_iff.mp (Array.back?_eq_getElem?.symm.trans ends)
  have starts : b.code.first? = some b.code.order[0] := Array.getElem?_eq_getElem (by omega)
  have unfolded : findAnchor r rows b constructor =
      if constructor then anchorBehindChainedCall r rows b.code.entries else .ok b.code.order[0] := by
    unfold findAnchor
    rw [starts]
  rw [unfolded]
  cases constructor with
  | false => exact .inl ⟨nofun, _, rfl⟩
  | true =>
    rw [if_pos rfl]
    have whole := List.takeWhile_append_dropWhile (p := fun e => !callsConstructor r rows e.2) (l := b.code.entries)
    unfold anchorBehindChainedCall
    cases rest : b.code.entries.dropWhile fun e => !callsConstructor r rows e.2 with
    | nil =>
      refine .inr ⟨rfl, fun chains => ?_, .inl rfl⟩
      obtain ⟨e, member, calls⟩ := chains.calls
      have other := List.dropWhile_eq_nil_iff.mp rest e member
      simp [calls] at other
    | cons call behind =>
      rw [rest] at whole
      have first := List.head?_dropWhile_not (fun e => !callsConstructor r rows e.2) b.code.entries
      have calls : callsConstructor r rows call.2 = true := by
        rw [rest] at first
        simpa using first
      by_cases early : (b.code.entries.takeWhile fun e => !callsConstructor r rows e.2).any (·.2.opcode == .ret) = true
      · refine .inr ⟨rfl, fun chains => ?_, .inr (if_pos early)⟩
        obtain ⟨e, member, ret⟩ := List.any_eq_true.mp early
        exact chains.stays e member (by simpa using ret)
      · have chains : b.Chains r rows := by
          refine ⟨⟨call, ?_, calls⟩, fun e member ret => early (List.any_eq_true.mpr ⟨e, member, by simpa using ret⟩)⟩
          rw [← whole]
          exact List.mem_append_right _ List.mem_cons_self
        refine .inl ⟨fun _ => chains, ?_⟩
        cases behind with
        | cons e behind => exact ⟨e.1, if_neg early⟩
        | nil =>
          -- The call would be the last instruction, but control goes on behind it.
          have entry := Code.getLast?_entries_eq_some_iff.mpr ⟨ends, found⟩
          rw [← whole, List.getLast?_concat] at entry
          cases entry
          rw [callsConstructor_fallsThrough calls] at stops
          cases stops

end AspectWeaving

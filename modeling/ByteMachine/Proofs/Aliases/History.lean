/-
The table of names over time. A definition only ever adds one entry at the end, and a name that is bound is not bound
again, so the first definition of a name is what the name is found to be bound to, for good. A chain of aliases that came
to an address or to a cycle therefore keeps its links; only one that ended at an unbound name can go on, and does so as
soon as that name is bound.

- `find?_defineAll`, `entries_defineAll`: what is found under a name, and what the table lists, after any definitions.
- `resolve_ne_iff`: which results of a table change when it keeps all its bindings and gets more of them.
-/
import Mathlib.Tactic
import ByteMachine.Proofs.Aliases.Resolution

namespace ByteMachine.LabelTable

/-- the definitions that are accepted, in order -/
def accepted (table : LabelTable) : List Entry → List Entry
  | [] => []
  | call :: calls =>
    match table.define? call.name call.binding call.line with
    | some next => call :: next.accepted calls
    | none => table.accepted calls

/-- what is bound in the table is bound to the same in the next one -/
def Keeps (table next : LabelTable) : Prop :=
  ∀ name binding, table.binding? name = some binding → next.binding? name = some binding

variable {table next : LabelTable} {name start : Path} {calls more : List Entry}

/-! ## Definitions in a row -/

theorem isSome_define?_iff {binding : Binding} {line : Nat} :
    (table.define? name binding line).isSome = true ↔ table.find? name = none := by
  rw [define?]
  cases table.find? name <;> simp

/-- what is found after one definition, whether it is accepted or refused -/
theorem find?_attempt (table : LabelTable) (call : Entry) (name : Path) :
    ((table.define? call.name call.binding call.line).getD table).find? name =
      (table.find? name).or ([call].find? (·.name = name)) := by
  cases hdefine : table.define? call.name call.binding call.line with
  | some next =>
    rw [Option.getD_some, find?, find?, ← Array.find?_toList, ← Array.find?_toList, (entries_of_define? hdefine).1,
      List.find?_append]
  | none =>
    -- something is found already if the name is that of the definition
    have hbound : table.find? call.name ≠ none := by
      rw [ne_eq, ← @isSome_define?_iff table call.name call.binding call.line, hdefine]
      exact Bool.false_ne_true
    by_cases hname : call.name = name
    · obtain ⟨found, hfound⟩ := Option.ne_none_iff_exists'.1 (hname ▸ hbound)
      simp [hfound]
    · simp [hname]

/-- **The first definition is found.** What was found before is still found; else the first new definition is. -/
theorem find?_defineAll (table : LabelTable) (calls : List Entry) (name : Path) :
    (table.defineAll calls).find? name = (table.find? name).or (calls.find? (·.name = name)) := by
  induction calls generalizing table with
  | nil => rw [defineAll, List.find?_nil, Option.or_none]
  | cons call calls ih => rw [defineAll, ih, find?_attempt, Option.or_assoc, ← List.find?_append, List.singleton_append]

/-- **Definitions only add.** The entries stay, and those that are accepted come after them. -/
theorem entries_defineAll (table : LabelTable) (calls : List Entry) :
    (table.defineAll calls).entries.toList = table.entries.toList ++ table.accepted calls := by
  induction calls generalizing table with
  | nil => rw [defineAll, accepted, List.append_nil]
  | cons call calls ih =>
    rw [defineAll, accepted, ih]
    cases hdefine : table.define? call.name call.binding call.line with
    | none => rfl
    | some next => rw [Option.getD_some, (entries_of_define? hdefine).1, List.append_assoc, List.singleton_append]

/-! ## Chains of aliases -/

theorem Keeps.target? (h : table.Keeps next) {target : Path} (htarget : table.target? name = some target) :
    next.target? name = some target := by
  unfold LabelTable.target? at htarget
  split at htarget
  · rename_i hbinding
    obtain rfl := Option.some.inj htarget
    exact target?_of_aliasOf (h _ _ hbinding)
  · cases htarget

theorem keeps_defineAll (table : LabelTable) (calls : List Entry) : table.Keeps (table.defineAll calls) := by
  intro name binding hbinding
  obtain ⟨entry, hfind, rfl⟩ := Option.map_eq_some_iff.1 hbinding
  rw [binding?, find?_defineAll, hfind, Option.some_or, Option.map_some]

/-- a chain comes to the same in the next table, unless it ended at a name that is bound there -/
theorem ComesTo.mono {result : Except Unresolved Word} (hkeeps : table.Keeps next) (h : table.ComesTo start result)
    (hunbound : ∀ last, result = .error (.missing last) → next.binding? last = none) : next.ComesTo start result := by
  match result, h with
  | .ok value, ⟨last, hreach, hvalue⟩ => exact ⟨last, hreach.mono fun _ _ => hkeeps.target?, hkeeps _ _ hvalue⟩
  | .error (.missing last), ⟨hreach, _⟩ => exact ⟨hreach.mono fun _ _ => hkeeps.target?, hunbound last rfl⟩
  | .error (.cycle again), ⟨_, hfirst⟩ =>
    have hstill := hfirst.mono fun _ _ => hkeeps.target?
    exact ⟨Chain.endless_of_firstTwice hstill, hstill⟩

/-- **Only missing names get another result,** and each of them does when the name that its chain ends at is bound. -/
theorem resolve_ne_iff (hkeeps : table.Keeps next) :
    next.resolve start ≠ table.resolve start ↔
      ∃ last, table.resolve start = .error (.missing last) ∧ next.binding? last ≠ none := by
  have hcomes := resolve_eq_iff.1 (@rfl _ (table.resolve start))
  constructor
  · intro hne
    by_contra hnone
    refine hne (resolve_eq_iff.2 (hcomes.mono hkeeps fun last hmissing => ?_))
    by_contra hbound
    exact hnone ⟨last, hmissing, hbound⟩
  · rintro ⟨last, hmissing, hbound⟩ hsame
    exact hbound (resolve_eq_iff.1 (hsame.trans hmissing)).2

/-- names that are bound later are those of the later definitions -/
theorem binding?_defineAll_ne_none_iff (hunbound : table.binding? name = none) :
    (table.defineAll more).binding? name ≠ none ↔ ∃ call ∈ more, call.name = name := by
  rw [binding?, Option.map_eq_none_iff] at hunbound
  rw [binding?, ne_eq, Option.map_eq_none_iff, find?_defineAll, hunbound, Option.none_or]
  simp

end ByteMachine.LabelTable

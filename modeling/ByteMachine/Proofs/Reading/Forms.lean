/-
The forms of a source line. The first word says which clauses follow, and a line that is read has one of these forms
(`Statement.spelled_of_ofTokens`). Proofs about lines take a line apart with this and need not open its reading.
-/
import Mathlib.Tactic
import ByteMachine.Proofs.Attempt
import ByteMachine.Statement.Grammar

namespace ByteMachine.Statement

open Attempt

theorem ofTokens_label {first : Token} {name : List Char} (h : first.text.toList = '.' :: name) (rest : List Token) :
    ofTokens (first :: rest) =
      if isIdentifier (String.ofList name) then do
        let (visibility, rest) ← visibilityClause rest
        finish (.label (String.ofList name) visibility, rest)
      else .error (invalid "label" first) := by
  simp only [ofTokens, h]

theorem ofTokens_other {first : Token} (h : ∀ name, first.text.toList ≠ '.' :: name) (rest : List Token) :
    ofTokens (first :: rest) =
      if first.text = "namespace" then do
        let (change, rest) ← scopeClause rest
        finish (.scope change, rest)
      else if first.text = "private" then do
        let (change, rest) ← privateClause rest
        finish (.scope change, rest)
      else if first.text = "def" ∨ (first.text = "sub" ∧ declaresSubroutine rest) then
        subroutineClause rest >>= finish
      else if first.text = "export" then do
        let (name, rest) ← dottedName "export name" true rest
        let (newName, rest) ← aliasClause rest
        finish (.exportName name newName, rest)
      else if first.text = "use" then do
        let (name, rest) ← dottedName "name" false rest
        let (newName, rest) ← aliasClause rest
        finish (.useName name newName, rest)
      else emission first rest := by
  rw [ofTokens]
  split
  · rename_i name hname
    exact absurd hname (h name)
  · rfl

theorem finish_eq_ok_iff {found statement : Statement} {rest : List Token} :
    finish (found, rest) = .ok statement ↔ found = statement ∧ rest = [] := by
  cases rest <;> simp [finish]

/-- the forms of a line, each with the clauses that it is read by -/
inductive Spelled : List Token → Statement → Prop
  | blank : Spelled [] .blank
  | label {first : Token} {words rest : List Token} {name : String} {visibility : Visibility} :
      isIdentifier name = true → visibilityClause words = .ok (visibility, rest) →
        Spelled (first :: words) (.label name visibility)
  | subroutine {first : Token} {words rest rest' : List Token} {name : String} {visibility : Visibility} :
      identifier "subroutine name" words = .ok (name, rest) → visibilityClause rest = .ok (visibility, rest') →
        Spelled (first :: words) (.subroutine name visibility)
  | scope {first : Token} {words rest : List Token} {change : ScopeChange} :
      scopeClause words = .ok (change, rest) → Spelled (first :: words) (.scope change)
  | privateScope {first : Token} {words rest : List Token} {change : ScopeChange} :
      privateClause words = .ok (change, rest) → Spelled (first :: words) (.scope change)
  | exportName {first : Token} {words rest rest' : List Token} {name : Name} {newName : Option Name} :
      dottedName "export name" true words = .ok (name, rest) → aliasClause rest = .ok (newName, rest') →
        Spelled (first :: words) (.exportName name newName)
  | useName {first : Token} {words rest rest' : List Token} {name : Name} {newName : Option Name} :
      dottedName "name" false words = .ok (name, rest) → aliasClause rest = .ok (newName, rest') →
        Spelled (first :: words) (.useName name newName)
  | emission {first : Token} {words : List Token} {statement : Statement} :
      emission first words = .ok statement → Spelled (first :: words) statement

theorem spelled_of_ofTokens {tokens : List Token} {statement : Statement} (h : ofTokens tokens = .ok statement) :
    Spelled tokens statement := by
  cases tokens with
  | nil =>
    obtain rfl := Except.ok.inj h
    exact .blank
  | cons first words =>
    simp only [ofTokens] at h
    split at h
    · split at h
      · rename_i hname
        obtain ⟨⟨visibility, rest⟩, hclause, h⟩ := bind_eq_ok_iff.1 h
        obtain ⟨rfl, -⟩ := finish_eq_ok_iff.1 h
        exact .label hname hclause
      · cases h
    · split_ifs at h
      · obtain ⟨⟨change, rest⟩, hclause, h⟩ := bind_eq_ok_iff.1 h
        obtain ⟨rfl, -⟩ := finish_eq_ok_iff.1 h
        exact .scope hclause
      · obtain ⟨⟨change, rest⟩, hclause, h⟩ := bind_eq_ok_iff.1 h
        obtain ⟨rfl, -⟩ := finish_eq_ok_iff.1 h
        exact .privateScope hclause
      · obtain ⟨⟨found, rest⟩, hclause, h⟩ := bind_eq_ok_iff.1 h
        obtain ⟨rfl, -⟩ := finish_eq_ok_iff.1 h
        obtain ⟨⟨name, rest'⟩, hname, hclause⟩ := bind_eq_ok_iff.1 hclause
        obtain ⟨⟨visibility, rest''⟩, hvisibility, hclause⟩ := bind_eq_ok_iff.1 hclause
        obtain ⟨rfl, rfl⟩ := Prod.mk.inj (Except.ok.inj hclause)
        exact .subroutine hname hvisibility
      · obtain ⟨⟨name, rest⟩, hname, h⟩ := bind_eq_ok_iff.1 h
        obtain ⟨⟨newName, rest'⟩, halias, h⟩ := bind_eq_ok_iff.1 h
        obtain ⟨rfl, -⟩ := finish_eq_ok_iff.1 h
        exact .exportName hname halias
      · obtain ⟨⟨name, rest⟩, hname, h⟩ := bind_eq_ok_iff.1 h
        obtain ⟨⟨newName, rest'⟩, halias, h⟩ := bind_eq_ok_iff.1 h
        obtain ⟨rfl, -⟩ := finish_eq_ok_iff.1 h
        exact .useName hname halias
      · exact .emission h

end ByteMachine.Statement

/-
Short forms and the words that they stand for. A subroutine declaration stands for two lines, a label and a private
namespace of its name, and the operand `%name` for the two operands `:name` and `name:`. Each clause of the grammar reads
the long form to what it reads the short one to, or rejects both.

- `expand`: the lines of words that a line of words stands for.
- `declaration_agrees`: a declaration is read as a subroutine, its first long line as a label of the same name.
- `readArguments_expandOperands`: operands are read to the same bytes.
-/
import Mathlib.Tactic
import ByteMachine.Proofs.Listing.Reassembly
import ByteMachine.Proofs.Parallel.Words
import ByteMachine.Proofs.Reading.Operands

namespace ByteMachine.Sugar

open Attempt Statement

/-! ## Long forms -/

def tokens (words : List String) : List Token := words.map (⟨·, 0⟩)

def isVisibility : List String → Bool
  | [] => true
  | ["public"] => true
  | ["public", "as", _] => true
  | _ => false

/-- the name and the visibility of a subroutine declaration, `def name ...` or `sub name ...` -/
def declaration? : List String → Option (String × List String)
  | keyword :: name :: visibility =>
    if (keyword = "def" ∨ keyword = "sub") ∧ isVisibility visibility then some (name, visibility) else none
  | _ => none

/-- the mnemonic and the operands of an emitting line; `sub` starts one only if it does not declare -/
def emission? : List String → Option (String × List String)
  | first :: operands =>
    if (Mnemonic.ofText? first).isSome ∧ ¬ (first = "sub" ∧ declaresSubroutine (tokens operands)) then
      some (first, operands)
    else none
  | [] => none

/-- `%name` as `:name name:`; another word stays -/
def expandOperand (word : String) : List String :=
  match word.toList with
  | '%' :: name => [String.ofList (':' :: name), String.ofList (name ++ [':'])]
  | _ => [word]

/-- the lines that a line stands for, as words -/
def expand (words : List String) : List (List String) :=
  match declaration? words, emission? words with
  | some (name, visibility), _ => [("." ++ name) :: visibility, ["private", "namespace", name]]
  | none, some (first, operands) => [first :: operands.flatMap expandOperand]
  | none, none => [words]

/-- the words of the second text are those of the first with every short form replaced by the long one, in any layout -/
def Expands (source source' : String) : Prop :=
  (Text.lines source').map Token.words = (Text.lines source).flatMap fun text => expand (Token.words text)

theorem map_text_tokens (words : List String) : (tokens words).map (·.text) = words := by
  rw [tokens, List.map_map]
  exact List.map_id _

/-! ## Declarations -/

theorem declaresSubroutine_of_isVisibility {visibility : List String} (h : isVisibility visibility) (name : String) :
    declaresSubroutine (tokens (name :: visibility)) := by
  unfold isVisibility at h
  split at h
  · rfl
  · simp [tokens, declaresSubroutine]
  · simp [tokens, declaresSubroutine]
  · cases h

theorem ofTokens_declaration {keyword name : String} {visibility : List String}
    (hkeyword : keyword = "def" ∨ keyword = "sub") (hvisibility : isVisibility visibility) :
    ofTokens (tokens (keyword :: name :: visibility)) = subroutineClause (tokens (name :: visibility)) >>= finish := by
  have hdeclares := declaresSubroutine_of_isVisibility hvisibility name
  rcases hkeyword with rfl | rfl
  · simp [tokens, ofTokens]
  · simp only [tokens, List.map_cons] at hdeclares
    simp [tokens, ofTokens, hdeclares]

theorem ofTokens_point (name : String) (rest : List Token) :
    ofTokens (⟨"." ++ name, 0⟩ :: rest) =
      if isIdentifier name then do
        let (visibility, rest) ← visibilityClause rest
        finish (.label name visibility, rest)
      else .error (invalid "label" ⟨"." ++ name, 0⟩) := by
  have htext : (Token.mk ("." ++ name) 0).text.toList = '.' :: name.toList := by
    simp
  rw [ofTokens_label htext, String.ofList_toList]

/-- **A declaration and its first long line** are both rejected, or declare the same name. -/
theorem declaration_agrees {keyword name : String} {visibility : List String}
    (hkeyword : keyword = "def" ∨ keyword = "sub") (hvisibility : isVisibility visibility) :
    AgreeOn
      (fun statement statement' => isIdentifier name = true ∧ ∃ visibility,
        statement = .subroutine name visibility ∧ statement' = .label name visibility)
      (ofTokens (tokens (keyword :: name :: visibility))) (ofTokens (tokens (("." ++ name) :: visibility))) := by
  rw [ofTokens_declaration hkeyword hvisibility]
  simp only [tokens, List.map_cons, ofTokens_point, subroutineClause, identifier]
  by_cases hname : isIdentifier name = true
  · simp only [hname, if_true, ok_bind]
    cases visibilityClause (visibility.map (⟨·, 0⟩)) with
    | error complaint => exact .error trivial
    | ok read =>
      obtain ⟨visibility, rest⟩ := read
      cases rest with
      | nil => exact .ok ⟨trivial, visibility, rfl, rfl⟩
      | cons t rest => exact .error trivial
  · simp only [hname]
    exact .error trivial

theorem ofTokens_privateNamespace {name : String} (h : isIdentifier name = true) :
    ofTokens (tokens ["private", "namespace", name]) = .ok (.scope (.enterPrivate (some name))) := by
  simp [tokens, ofTokens, privateClause, identifier, h, finish]

/-! ## Operands -/

theorem readArguments_append (ts us : List Token) :
    readArguments (ts ++ us) = (do
      let first ← readArguments ts
      let rest ← readArguments us
      return first ++ rest) := by
  induction ts with
  | nil =>
    simp only [List.nil_append, readArguments, ok_bind]
    cases readArguments us <;> rfl
  | cons t ts ih =>
    simp only [List.cons_append, readArguments]
    cases Operand.parse t.text with
    | error cause => rfl
    | ok operands =>
      rw [ih]
      cases readArguments ts with
      | error complaint => rfl
      | ok first =>
        cases readArguments us with
        | error complaint => rfl
        | ok rest => exact congrArg Except.ok (List.append_assoc _ _ _).symm

theorem readArguments_expandOperand (word : String) :
    AgreeOn (List.Forall₂ fun a a' => a'.operand = a.operand) (readArguments (tokens [word]))
      (readArguments (tokens (expandOperand word))) := by
  unfold expandOperand
  split
  · rename_i text hword
    have hboth : Operand.parse word = Operand.addressOf (String.ofList text) [.low, .high] := by
      simp only [Operand.parse, hword]
    have hlow : Operand.parse (String.ofList (':' :: text)) = Operand.addressOf (String.ofList text) [.low] := by
      simp only [Operand.parse, String.toList_ofList]
    simp only [tokens, List.map_cons, List.map_nil, readArguments, hboth, hlow, Operand.addressOf]
    cases hname : Name.parse? false (String.ofList text) with
    | none => exact .error trivial
    | some name =>
      have hhigh : Operand.parse (String.ofList (text ++ [':'])) = .ok [.address name .high] := by
        rw [String.ofList_append]
        exact Operand.parse_eq_ok_iff.2 (.high (Name.parse?_false_eq_some_iff.1 hname))
      rw [hhigh]
      exact .ok (.cons rfl (.cons rfl .nil))
  · cases readArguments (tokens [word]) with
    | error complaint => exact .error trivial
    | ok arguments => exact .ok (List.forall₂_same.2 fun _ _ => rfl)

theorem readArguments_expandOperands (operands : List String) :
    AgreeOn (List.Forall₂ fun a a' => a'.operand = a.operand) (readArguments (tokens operands))
      (readArguments (tokens (operands.flatMap expandOperand))) := by
  induction operands with
  | nil => exact .ok .nil
  | cons word operands ih =>
    have hsplit : tokens (word :: operands) = tokens [word] ++ tokens operands := rfl
    have hexpand : tokens ((word :: operands).flatMap expandOperand) =
        tokens (expandOperand word) ++ tokens (operands.flatMap expandOperand) := by
      rw [List.flatMap_cons, tokens, List.map_append]
      rfl
    rw [hsplit, hexpand, readArguments_append, readArguments_append]
    refine (readArguments_expandOperand word).bind fun first first' hfirst => ?_
    exact ih.bind fun _ _ hrest => .ok (List.rel_append hfirst hrest)

theorem emission_expandOperands {first : String} {operands : List String} :
    AgreeOn SameSense (emission ⟨first, 0⟩ (tokens operands))
      (emission ⟨first, 0⟩ (tokens (operands.flatMap expandOperand))) := by
  refine emission_agrees (fun _ _ _ => trivial) (fun _ _ => id) ?_ rfl (readArguments_expandOperands operands)
  intro a a' kind hoperand
  unfold checkArgument
  rw [hoperand]
  split
  · exact .ok rfl
  · exact .error trivial

/-! ## Emitting lines -/

theorem ofTokens_emits {first : String} {operands : List Token} (hmnemonic : (Mnemonic.ofText? first).isSome)
    (hsub : ¬ (first = "sub" ∧ declaresSubroutine operands)) :
    ofTokens (⟨first, 0⟩ :: operands) = emission ⟨first, 0⟩ operands := by
  obtain ⟨mnemonic, hmnemonic⟩ := Option.isSome_iff_exists.1 hmnemonic
  cases mnemonic with
  | data =>
    rw [Mnemonic.ofText?_eq_data_iff.1 hmnemonic]
    exact ofTokens_data 0 operands
  | operation op =>
    obtain rfl := Mnemonic.ofText?_eq_operation_iff.1 hmnemonic
    apply ofTokens_mnemonic
    rintro rfl
    exact Bool.eq_false_iff.2 fun hdeclares => hsub ⟨rfl, hdeclares⟩

/-- a word that is written out as two is none of the words that make a declaration -/
theorem expandOperand_cases (word : String) :
    expandOperand word = [word] ∨
      ∃ low high, expandOperand word = [low, high] ∧ low ≠ "public" ∧ high ≠ "public" := by
  unfold expandOperand
  split
  · rename_i name _
    refine Or.inr ⟨_, _, rfl, fun h => ?_, fun h => ?_⟩
    · have hfirst := congrArg (fun text : String => text.toList.head?) h
      simp at hfirst
    · have hlast := congrArg (fun text : String => text.toList.getLast?) h
      simp at hlast
  · exact Or.inl rfl

/-- operands do not become a declaration when they are written out -/
theorem not_declaresSubroutine_expandOperands {operands : List String} (h : ¬ declaresSubroutine (tokens operands)) :
    ¬ declaresSubroutine (tokens (operands.flatMap expandOperand)) := by
  match operands with
  | [] => exact h
  | [word] => exact absurd rfl h
  | first :: second :: rest =>
    have hpublic : second ≠ "public" := by
      rintro rfl
      exact h (by simp [tokens, declaresSubroutine])
    rw [List.flatMap_cons, List.flatMap_cons]
    rcases expandOperand_cases first with hfirst | ⟨low, high, hfirst, -, hhigh⟩
    · rcases expandOperand_cases second with hsecond | ⟨low, high, hsecond, hlow, -⟩
      · simp [hfirst, hsecond, tokens, declaresSubroutine, hpublic]
      · simp [hfirst, hsecond, tokens, declaresSubroutine, hlow]
    · simp [hfirst, tokens, declaresSubroutine, hhigh]

/-- **An emitting line and its long form** are both rejected, or emit the same bytes. -/
theorem emission_expands {words operands : List String} {first : String} (h : emission? words = some (first, operands)) :
    words = first :: operands ∧ AgreeOn SameSense (ofTokens (tokens (first :: operands)))
      (ofTokens (tokens (first :: operands.flatMap expandOperand))) := by
  cases words with
  | nil => cases h
  | cons first' operands' =>
    simp only [emission?] at h
    split at h
    · rename_i hemits
      obtain ⟨rfl, rfl⟩ := Prod.mk.inj (Option.some.inj h)
      obtain ⟨hmnemonic, hsub⟩ := hemits
      refine ⟨rfl, ?_⟩
      have hsub' : ¬ (first' = "sub" ∧ declaresSubroutine (tokens (operands'.flatMap expandOperand))) := by
        rintro ⟨hfirst, hdeclares⟩
        exact not_declaresSubroutine_expandOperands (fun hdeclares => hsub ⟨hfirst, hdeclares⟩) hdeclares
      have hshort := ofTokens_emits hmnemonic hsub
      have hlong := ofTokens_emits hmnemonic hsub'
      simp only [tokens, List.map_cons] at hshort hlong ⊢
      rw [hshort, hlong]
      exact emission_expandOperands
    · cases h

theorem declaration?_eq_some {words visibility : List String} {name : String}
    (h : declaration? words = some (name, visibility)) :
    ∃ keyword, words = keyword :: name :: visibility ∧ (keyword = "def" ∨ keyword = "sub") ∧ isVisibility visibility := by
  unfold declaration? at h
  split at h
  · split at h
    · rename_i hform
      obtain ⟨rfl, rfl⟩ := Prod.mk.inj (Option.some.inj h)
      exact ⟨_, rfl, hform⟩
    · cases h
  · cases h

end ByteMachine.Sugar

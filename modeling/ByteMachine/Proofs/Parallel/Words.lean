/-
The words of a line are all that matters. A word keeps the column where it stands, for errors only, so two lines with the
same words say the same or are rejected for the same reason (`Statement.ofTokens_agrees`), and a reading goes on the same
after them (`Draft.Matches.addLine`).
-/
import Mathlib.Tactic
import ByteMachine.Proofs.Parallel.Images
import ByteMachine.Proofs.Reading.Forms

namespace ByteMachine

open Attempt

def Token.words (line : String) : List String := (Token.ofLine line).map (·.text)

def Token.SameWords (ts ts' : List Token) : Prop := List.Forall₂ (fun t t' => t'.text = t.text) ts ts'

theorem Token.sameWords_iff {ts ts' : List Token} : SameWords ts ts' ↔ ts.map (·.text) = ts'.map (·.text) := by
  rw [← List.forall₂_eq_eq_eq, List.forall₂_map_left_iff, List.forall₂_map_right_iff]
  exact ⟨fun h => h.imp fun _ _ => Eq.symm, fun h => h.imp fun _ _ => Eq.symm⟩

namespace Statement

open Token

def Complaint.SameCause (c c' : Complaint) : Prop := c'.cause = c.cause

/-- the same was read, and the same words are left -/
def SameReading {α : Type} (x x' : α × List Token) : Prop := x'.1 = x.1 ∧ SameWords x.2 x'.2

variable {ts ts' : List Token} {what : String}

/-- clauses one after the other -/
theorem bind_agrees {α β : Type} {S : β → β → Prop} {x x' : Except Complaint (α × List Token)}
    {f f' : α × List Token → Except Complaint β} (h : Agree Complaint.SameCause SameReading x x')
    (hf : ∀ a ts ts', SameWords ts ts' → Agree Complaint.SameCause S (f (a, ts)) (f' (a, ts'))) :
    Agree Complaint.SameCause S (x >>= f) (x' >>= f') := by
  refine h.bind ?_
  rintro ⟨a, ts⟩ ⟨_, ts'⟩ ⟨rfl, hleft⟩
  exact hf _ ts ts' hleft

/-! ## Clauses -/

theorem invalid_sameCause {t t' : Token} (h : t'.text = t.text) : (invalid what t).SameCause (invalid what t') := by
  rw [Complaint.SameCause, invalid, invalid, h]

theorem identifier_agrees (h : SameWords ts ts') :
    Agree Complaint.SameCause SameReading (identifier what ts) (identifier what ts') := by
  cases h with
  | nil => exact .error rfl
  | cons htext hrest =>
    simp only [identifier, htext]
    split
    · exact .ok ⟨rfl, hrest⟩
    · exact .error (invalid_sameCause htext)

theorem dottedName_agrees (h : SameWords ts ts') (plain : Bool) :
    Agree Complaint.SameCause SameReading (dottedName what plain ts) (dottedName what plain ts') := by
  cases h with
  | nil => exact .error rfl
  | @cons t t' _ _ htext hrest =>
    simp only [dottedName, htext]
    cases Name.parse? false t.text with
    | none => exact .error (invalid_sameCause htext)
    | some name =>
      simp only
      split
      · exact .ok ⟨rfl, hrest⟩
      · exact .error (invalid_sameCause htext)

theorem aliasClause_agrees (h : SameWords ts ts') :
    Agree Complaint.SameCause SameReading (aliasClause ts) (aliasClause ts') := by
  cases h with
  | nil => exact .ok ⟨rfl, .nil⟩
  | cons htext hrest =>
    simp only [aliasClause, htext]
    split
    · exact bind_agrees (dottedName_agrees hrest true) fun _ _ _ hleft => .ok ⟨rfl, hleft⟩
    · exact .ok ⟨rfl, .cons htext hrest⟩

theorem visibilityClause_agrees (h : SameWords ts ts') :
    Agree Complaint.SameCause SameReading (visibilityClause ts) (visibilityClause ts') := by
  cases h with
  | nil => exact .ok ⟨rfl, .nil⟩
  | cons htext hrest =>
    simp only [visibilityClause, htext]
    split
    · exact bind_agrees (aliasClause_agrees hrest) fun _ _ _ hleft => .ok ⟨rfl, hleft⟩
    · exact .ok ⟨rfl, .cons htext hrest⟩

theorem scopeClause_agrees (h : SameWords ts ts') :
    Agree Complaint.SameCause SameReading (scopeClause ts) (scopeClause ts') := by
  cases h with
  | nil => exact .error rfl
  | cons htext hrest =>
    simp only [scopeClause, htext]
    split_ifs
    · exact .ok ⟨rfl, hrest⟩
    · cases hrest with
      | nil => exact .ok ⟨rfl, .nil⟩
      | @cons path path' _ _ hpath hleft =>
        simp only [hpath]
        cases Name.parse? true path.text with
        | none => exact .error (invalid_sameCause hpath)
        | some name =>
          simp only
          split
          · exact .ok ⟨rfl, hleft⟩
          · exact .error (invalid_sameCause hpath)
    · exact bind_agrees (dottedName_agrees (.cons htext hrest) true) fun _ _ _ hleft => .ok ⟨rfl, hleft⟩

theorem privateClause_agrees (h : SameWords ts ts') :
    Agree Complaint.SameCause SameReading (privateClause ts) (privateClause ts') := by
  cases h with
  | nil => exact .error rfl
  | cons htext hrest =>
    simp only [privateClause, htext]
    split
    · cases hrest with
      | nil => exact .ok ⟨rfl, .nil⟩
      | cons hname hleft =>
        exact bind_agrees (identifier_agrees (.cons hname hleft)) fun _ _ _ hleft => .ok ⟨rfl, hleft⟩
    · exact .error rfl

theorem subroutineClause_agrees (h : SameWords ts ts') :
    Agree Complaint.SameCause SameReading (subroutineClause ts) (subroutineClause ts') := by
  refine bind_agrees (identifier_agrees h) fun _ _ _ hleft => ?_
  exact bind_agrees (visibilityClause_agrees hleft) fun _ _ _ hleft => .ok ⟨rfl, hleft⟩

theorem finish_agrees {statement : Statement} (h : SameWords ts ts') :
    Agree Complaint.SameCause SameSense (finish (statement, ts)) (finish (statement, ts')) := by
  cases h with
  | nil => exact .ok (.refl statement)
  | cons htext _ =>
    refine .error ?_
    rw [Complaint.SameCause, htext]

/-! ## Emitting lines -/

def SameArgument (a a' : Argument) : Prop := a'.operand = a.operand ∧ a'.token.text = a.token.text

theorem readArguments_agrees (h : SameWords ts ts') :
    Agree Complaint.SameCause (List.Forall₂ SameArgument) (readArguments ts) (readArguments ts') := by
  induction h with
  | nil => exact .ok .nil
  | @cons t t' _ _ htext _ ih =>
    have hparse : Agree Complaint.SameCause (· = ·) ((Operand.parse t.text).mapError (Complaint.mk t.column))
        ((Operand.parse t'.text).mapError (Complaint.mk t'.column)) := by
      rw [htext]
      cases Operand.parse t.text with
      | error cause => exact .error rfl
      | ok operands => exact .ok rfl
    refine hparse.bind ?_
    rintro operands _ rfl
    refine ih.bind fun arguments arguments' harguments => .ok (List.rel_append ?_ harguments)
    rw [List.forall₂_map_left_iff, List.forall₂_map_right_iff, List.forall₂_same]
    exact fun _ _ => ⟨rfl, htext⟩

theorem checkArgument_agrees {a a' : Argument} (h : SameArgument a a') (kind : OperandKind) :
    Agree Complaint.SameCause (· = ·) (checkArgument a kind) (checkArgument a' kind) := by
  unfold checkArgument
  rw [h.1, h.2]
  split
  · exact .ok rfl
  · exact .error rfl

theorem checkArguments_agrees {E : Complaint → Complaint → Prop} {R : Argument → Argument → Prop}
    (hcheck : ∀ a a' kind, R a a' → Agree E (· = ·) (checkArgument a kind) (checkArgument a' kind))
    {arguments arguments' : List Argument} (h : List.Forall₂ R arguments arguments') (kinds : List OperandKind) :
    Agree E (· = ·) (checkArguments arguments kinds) (checkArguments arguments' kinds) := by
  induction h generalizing kinds with
  | nil => exact .ok rfl
  | cons ha _ ih =>
    cases kinds with
    | nil => exact .ok rfl
    | cons kind kinds => exact (hcheck _ _ kind ha).bind fun _ _ _ => ih kinds

/-- lines that start with the same mnemonic say the same, if their words are read to the same operands -/
theorem emission_agrees {E : Complaint → Complaint → Prop} {R : Argument → Argument → Prop}
    (hcause : ∀ c c', Complaint.SameCause c c' → E c c') (hoperand : ∀ a a', R a a' → a'.operand = a.operand)
    (hcheck : ∀ a a' kind, R a a' → Agree E (· = ·) (checkArgument a kind) (checkArgument a' kind))
    {first first' : Token} (hfirst : first'.text = first.text)
    (hread : Agree E (List.Forall₂ R) (readArguments ts) (readArguments ts')) :
    Agree E SameSense (emission first ts) (emission first' ts') := by
  have hoperands : ∀ {arguments arguments' : List Argument}, List.Forall₂ R arguments arguments' →
      arguments.map (·.operand) = arguments'.map (·.operand) := by
    intro arguments arguments' h
    rw [← List.forall₂_eq_eq_eq, List.forall₂_map_left_iff, List.forall₂_map_right_iff]
    exact h.imp fun a a' ha => (hoperand a a' ha).symm
  simp only [emission, hfirst]
  cases Mnemonic.ofText? first.text with
  | none => exact .error (hcause _ _ rfl)
  | some mnemonic =>
    cases mnemonic with
    | data =>
      refine hread.bind fun arguments arguments' harguments => ?_
      have hkinds : (arguments'.map fun _ => OperandKind.immediate) = arguments.map fun _ => OperandKind.immediate := by
        rw [List.map_const', List.map_const', harguments.length_eq]
      rw [hkinds]
      exact (checkArguments_agrees hcheck harguments _).bind fun _ _ _ => .ok (.data (hoperands harguments))
    | operation op =>
      refine hread.bind fun arguments arguments' harguments => ?_
      rw [harguments.length_eq]
      split
      · exact (checkArguments_agrees hcheck harguments _).bind fun _ _ _ => .ok (.instruction (hoperands harguments))
      · exact .error (hcause _ _ rfl)

/-! ## Lines -/

theorem declaresSubroutine_eq (h : SameWords ts ts') : declaresSubroutine ts' = declaresSubroutine ts := by
  cases h with
  | nil => rfl
  | cons _ hrest =>
    cases hrest with
    | nil => rfl
    | cons htext _ => simp only [declaresSubroutine, htext]

/-- **A line says what its words say.** -/
theorem ofTokens_agrees (h : SameWords ts ts') : Agree Complaint.SameCause SameSense (ofTokens ts) (ofTokens ts') := by
  cases h with
  | nil => exact .ok (.refl _)
  | @cons first first' _ _ htext hrest =>
    by_cases hlabel : ∃ name, first.text.toList = '.' :: name
    · obtain ⟨name, hname⟩ := hlabel
      rw [ofTokens_label hname, ofTokens_label (htext ▸ hname)]
      split
      · exact bind_agrees (visibilityClause_agrees hrest) fun _ _ _ hleft => finish_agrees hleft
      · exact .error (invalid_sameCause htext)
    · have hother := not_exists.1 hlabel
      rw [ofTokens_other hother, ofTokens_other (htext ▸ hother), htext, declaresSubroutine_eq hrest]
      split_ifs
      · exact bind_agrees (scopeClause_agrees hrest) fun _ _ _ hleft => finish_agrees hleft
      · exact bind_agrees (privateClause_agrees hrest) fun _ _ _ hleft => finish_agrees hleft
      · exact bind_agrees (subroutineClause_agrees hrest) fun _ _ _ hleft => finish_agrees hleft
      · refine bind_agrees (dottedName_agrees hrest true) fun _ _ _ hleft => ?_
        exact bind_agrees (aliasClause_agrees hleft) fun _ _ _ hleft => finish_agrees hleft
      · refine bind_agrees (dottedName_agrees hrest false) fun _ _ _ hleft => ?_
        exact bind_agrees (aliasClause_agrees hleft) fun _ _ _ hleft => finish_agrees hleft
      · exact emission_agrees (fun _ _ => id) (fun _ _ ha => ha.1) (fun _ _ kind ha => checkArgument_agrees ha kind) htext
          (readArguments_agrees hrest)

end Statement

/-! ## Readings -/

namespace Draft.Matches

variable {lines : Nat → Nat → Prop} {draft draft' : Draft} {number number' : Nat} {text text' : String}

/-- the lines say the same, and the reading goes on the same -/
theorem addLine (h : draft.Matches .refl lines draft') (hline : lines number number')
    (hwords : Token.words text = Token.words text') :
    Agree (fun e e' => lines e.line e'.line ∧ e'.cause = e.cause) (Draft.Matches .refl lines)
      (draft.addLine number text) (draft'.addLine number' text') := by
  have hparse := Statement.ofTokens_agrees (Token.sameWords_iff.2 hwords)
  refine (hparse.mapError fun _ _ hcause => ⟨hline, hcause⟩).bind fun statement statement' hsense => ?_
  rw [← statement.renamed_id] at hsense
  exact (h.add hline hsense).mapError fun _ _ hcause => ⟨hline, hcause.2 rfl⟩

end Draft.Matches

end ByteMachine

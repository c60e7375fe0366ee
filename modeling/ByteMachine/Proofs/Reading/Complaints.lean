/-
What a complaint about a line says of its column. The reason decides it: a line of no known form is at fault at one of
its words, or as a whole if it ends where a word is needed; an unknown mnemonic and a wrong number of operands are at the
first word; an operand is at its own word.

- `Statement.Fault`: what a clause complains of, its words or a word that is missing after them.
- `Statement.Offends`: the word of the operand at fault, the first one in order.
- `Statement.Complaint.Points`: the column of a complaint, by its reason.
- `Statement.points_of_ofTokens`: every complaint about a line points there.
-/
import Mathlib.Tactic
import ByteMachine.Proofs.Reading.Columns
import ByteMachine.Proofs.Reading.Productions

namespace ByteMachine

/-- the kinds of the places of so many operands after the mnemonic -/
def Mnemonic.places (count : Nat) : Mnemonic → List OperandKind
  | .data => List.replicate count .immediate
  | .operation op => op.operands

/-- a word that is no operand is quoted as one, perhaps without its mark -/
theorem Operand.invalid_of_parse {word : String} {cause : AssemblyError.Cause} (h : parse word = .error cause) :
    ∃ operand expected, cause = .invalidOperand operand expected := by
  have haddress : ∀ text halves, addressOf text halves = .error cause → ∃ operand expected,
      cause = .invalidOperand operand expected := by
    intro text halves h
    unfold addressOf at h
    split at h
    · cases h
    · exact ⟨_, _, (Except.error.inj h).symm⟩
  unfold parse at h
  split at h
  · exact haddress _ _ h
  · exact haddress _ _ h
  · split_ifs at h
    · exact haddress _ _ h
    · split at h
      · cases h
      · cases h
      · exact ⟨_, _, (Except.error.inj h).symm⟩

namespace Statement

open Attempt

/-! ## What a complaint is about -/

/-- the line ends where a word is needed: with one more word it says something -/
def LacksWord (words : List Token) : Prop := ∃ word statement, ofTokens (words ++ [word]) = .ok statement

/-- the word is the first one that is no operand, or that of the first operand that does not fit its place -/
inductive Offends (first : Token) (words : List Token) : Token → Prop
  | unreadable {before after : List Token} {t : Token} :
      words = before ++ t :: after → (∀ earlier ∈ before, ∃ operands, Operand.Spells earlier.text operands) →
        (∀ operands, ¬ Operand.Spells t.text operands) → Offends first words t
  | misplaced {mnemonic : Mnemonic} {before after : List Argument} {argument : Argument} {kinds more : List OperandKind}
      {kind : OperandKind} :
      Mnemonic.ofText? first.text = some mnemonic → ReadsOperands words (before ++ argument :: after) →
        mnemonic.places (before ++ argument :: after).length = kinds ++ kind :: more →
        List.Forall₂ (fun earlier kind => earlier.operand.Suits kind) before kinds → ¬ argument.operand.Suits kind →
          Offends first words argument.token

/-- the column of a complaint about the words of a line, by its reason -/
inductive Complaint.Points : List Token → Complaint → Prop
  | word {words : List Token} {t : Token} {message : String} :
      t ∈ words → Points words ⟨t.column, .malformed message⟩
  | missing {words : List Token} {message : String} : LacksWord words → Points words ⟨0, .malformed message⟩
  | mnemonic {first : Token} {words : List Token} :
      Mnemonic.ofText? first.text = none → Points (first :: words) ⟨first.column, .unknownMnemonic first.text⟩
  | arity {first : Token} {words : List Token} {op : Opcode} {arguments : List Argument} :
      Mnemonic.ofText? first.text = some (.operation op) → ReadsOperands words arguments →
        arguments.length ≠ op.operands.length →
          Points (first :: words) ⟨first.column, .arityMismatch op.mnemonic op.operands.length arguments.length⟩
  | operand {first t : Token} {words : List Token} {operand expected : String} :
      Offends first words t → Points (first :: words) ⟨t.column, .invalidOperand operand expected⟩

namespace Complaint.Points

variable {words : List Token} {column : Nat}

theorem of_malformed {message : String} (h : Points words ⟨column, .malformed message⟩) :
    (∃ t ∈ words, column = t.column) ∨ column = 0 ∧ LacksWord words := by
  cases h with
  | word hword => exact .inl ⟨_, hword, rfl⟩
  | missing hlacks => exact .inr ⟨rfl, hlacks⟩

theorem of_unknownMnemonic {word : String} (h : Points words ⟨column, .unknownMnemonic word⟩) :
    ∃ first rest, words = first :: rest ∧ column = first.column := by
  cases h with
  | mnemonic => exact ⟨_, _, rfl, rfl⟩

theorem of_arityMismatch {word : String} {count found : Nat} (h : Points words ⟨column, .arityMismatch word count found⟩) :
    ∃ first rest, words = first :: rest ∧ column = first.column := by
  cases h with
  | arity => exact ⟨_, _, rfl, rfl⟩

theorem of_invalidOperand {operand expected : String} (h : Points words ⟨column, .invalidOperand operand expected⟩) :
    ∃ first rest t, words = first :: rest ∧ Offends first rest t ∧ column = t.column := by
  cases h with
  | operand hoffends => exact ⟨_, _, _, rfl, hoffends, rfl⟩

end Complaint.Points

/-! ## Clauses -/

/-- a reading of words that hands back those it does not need -/
abbrev Clause (α : Type) : Type := List Token → Except Complaint (α × List Token)

/-- the complaint of a clause: one of its words is wrong, or with one more word there would be nothing wrong -/
inductive Fault {α : Type} (clause : Clause α) (words : List Token) : Complaint → Prop
  | word {t : Token} {message : String} : t ∈ words → Fault clause words ⟨t.column, .malformed message⟩
  | missing {word : Token} {a : α} {message : String} :
      clause (words ++ [word]) = .ok (a, []) → Fault clause words ⟨0, .malformed message⟩

/-- a clause that complains of the form of its words only -/
def Complains {α : Type} (clause : Clause α) : Prop :=
  ∀ words complaint, clause words = .error complaint → Fault clause words complaint

/-- a clause that takes the first word and does not look at the others -/
def TakesOne {α : Type} (clause : Clause α) : Prop :=
  ∀ words a rest, clause words = .ok (a, rest) →
    ∃ t, words = t :: rest ∧ ∀ others, clause (t :: others) = .ok (a, others)

section Clauses

variable {α β γ : Type} {first : Clause α} {second : Clause β} {words : List Token} {complaint : Complaint}

/-- a clause after a word that announces it -/
theorem Complains.after (hfirst : Complains first) {t : Token} {f : α → β}
    (hsame : ∀ words, second (t :: words) = first words >>= fun read => pure (f read.1, read.2))
    (h : second (t :: words) = .error complaint) : Fault second (t :: words) complaint := by
  rw [hsame] at h
  rcases bind_eq_error_iff.1 h with hfault | ⟨_, -, hdone⟩
  · cases hfirst words complaint hfault with
    | word hword => exact .word (List.mem_cons_of_mem t hword)
    | @missing word a message hread =>
      have hread' : second (t :: words ++ [word]) = .ok (f a, []) := by
        rw [List.cons_append, hsame, hread]
        rfl
      exact .missing hread'
  · cases hdone

/-- a clause of one word that has a word does not complain of a missing one -/
theorem Fault.ofWord (hone : TakesOne first) {t : Token} {rest : List Token} (hwords : t :: rest ⊆ words)
    (h : Fault first (t :: rest) complaint) : Fault second words complaint := by
  cases h with
  | word hword => exact .word (hwords hword)
  | missing hread =>
    obtain ⟨t', hnone, -⟩ := hone _ _ _ hread
    simp at hnone

/-- a clause of one word, and one after it that may be left out -/
theorem Complains.andThen (hfirst : Complains first) (hone : TakesOne first) (hsecond : Complains second) {b : β}
    (hempty : second [] = .ok (b, [])) (f : α → β → γ) :
    Complains fun words => do
      let (a, rest) ← first words
      let (b, rest) ← second rest
      return (f a b, rest) := by
  intro words complaint h
  rcases bind_eq_error_iff.1 h with hfault | ⟨⟨a, rest⟩, hread, hthen⟩
  · cases hfirst words complaint hfault with
    | word hword => exact .word hword
    | @missing word a message hread =>
      refine @Fault.missing _ _ _ word (f a b) _ ?_
      simp only [hread, ok_bind, hempty]
      rfl
  · obtain ⟨t, rfl, hothers⟩ := hone words a rest hread
    rcases bind_eq_error_iff.1 hthen with hfault | ⟨⟨b, rest'⟩, -, hdone⟩
    · cases hsecond rest complaint hfault with
      | word hword => exact .word (List.mem_cons_of_mem t hword)
      | @missing word b message hread' =>
        refine @Fault.missing _ _ _ word (f a b) _ ?_
        simp only [List.cons_append, hothers, ok_bind, hread']
        rfl
    · cases hdone

end Clauses

theorem takesOne_identifier (what : String) : TakesOne (identifier what) := by
  intro words name rest h
  obtain ⟨t, rfl, rfl, hname⟩ := identifier_eq_ok_iff.1 h
  exact ⟨t, rfl, fun others => identifier_eq_ok_iff.2 ⟨t, rfl, rfl, hname⟩⟩

theorem takesOne_dottedName (what : String) (plain : Bool) : TakesOne (dottedName what plain) := by
  intro words name rest h
  obtain ⟨t, rfl, hspells, hplain⟩ := dottedName_eq_ok_iff.1 h
  exact ⟨t, rfl, fun others => dottedName_eq_ok_iff.2 ⟨t, rfl, hspells, hplain⟩⟩

theorem complains_identifier (what : String) : Complains (identifier what) := by
  intro words complaint h
  cases words with
  | nil =>
    obtain rfl := Except.error.inj h
    have hread : identifier what ([] ++ [⟨"a", 0⟩]) = .ok ("a", []) := rfl
    exact .missing hread
  | cons t rest =>
    rw [identifier] at h
    split_ifs at h
    obtain rfl := Except.error.inj h
    exact .word List.mem_cons_self

theorem complains_dottedName (what : String) (plain : Bool) : Complains (dottedName what plain) := by
  intro words complaint h
  cases words with
  | nil =>
    obtain rfl := Except.error.inj h
    have hread : dottedName what plain ([] ++ [⟨"a", 0⟩]) = .ok (⟨.above 0, ["a"]⟩, []) := by
      cases plain <;> rfl
    exact .missing hread
  | cons t rest =>
    rw [dottedName] at h
    split at h
    · split_ifs at h
      obtain rfl := Except.error.inj h
      exact .word List.mem_cons_self
    · obtain rfl := Except.error.inj h
      exact .word List.mem_cons_self

theorem complains_aliasClause : Complains aliasClause := by
  intro words complaint h
  cases words with
  | nil => cases h
  | cons t rest =>
    by_cases has : t.text = "as"
    · have hsame : ∀ words, aliasClause (t :: words) =
          dottedName "alias" true words >>= fun read => pure (some read.1, read.2) := by
        intro words
        rw [aliasClause, if_pos has]
      exact (complains_dottedName _ _).after hsame h
    · rw [aliasClause, if_neg has] at h
      cases h

theorem complains_visibilityClause : Complains visibilityClause := by
  intro words complaint h
  cases words with
  | nil => cases h
  | cons t rest =>
    by_cases hpublic : t.text = "public"
    · have hsame : ∀ words, visibilityClause (t :: words) =
          aliasClause words >>= fun read => pure (.exposed read.1, read.2) := by
        intro words
        rw [visibilityClause, if_pos hpublic]
      exact complains_aliasClause.after hsame h
    · rw [visibilityClause, if_neg hpublic] at h
      cases h

theorem complains_scopeClause : Complains scopeClause := by
  intro words complaint h
  cases words with
  | nil =>
    obtain rfl := Except.error.inj h
    have hread : scopeClause ([] ++ [⟨"pop", 0⟩]) = .ok (.leave, []) := rfl
    exact .missing hread
  | cons t rest =>
    unfold scopeClause at h
    dsimp only at h
    split_ifs at h
    · cases rest with
      | nil => cases h
      | cons path rest =>
        have hpath : path ∈ t :: path :: rest := List.mem_cons_of_mem t List.mem_cons_self
        simp only at h
        split at h
        · split_ifs at h
          obtain rfl := Except.error.inj h
          exact .word hpath
        · obtain rfl := Except.error.inj h
          exact .word hpath
    · rcases bind_eq_error_iff.1 h with hfault | ⟨_, -, hdone⟩
      · exact (complains_dottedName _ _ _ _ hfault).ofWord (takesOne_dottedName _ _) (List.Subset.refl _)
      · cases hdone

theorem complains_privateClause : Complains privateClause := by
  intro words complaint h
  cases words with
  | nil =>
    obtain rfl := Except.error.inj h
    have hread : privateClause ([] ++ [⟨"namespace", 0⟩]) = .ok (.enterPrivate none, []) := rfl
    exact .missing hread
  | cons t rest =>
    unfold privateClause at h
    dsimp only at h
    split_ifs at h
    · cases rest with
      | nil => cases h
      | cons name rest =>
        rcases bind_eq_error_iff.1 h with hfault | ⟨_, -, hdone⟩
        · exact (complains_identifier _ _ _ hfault).ofWord (takesOne_identifier _) (List.subset_cons_self t _)
        · cases hdone
    · obtain rfl := Except.error.inj h
      exact .word List.mem_cons_self

theorem complains_subroutineClause : Complains subroutineClause :=
  (complains_identifier _).andThen (takesOne_identifier _) complains_visibilityClause rfl _

/-- a name, perhaps with a second name -/
def renamingClause (what : String) (plain : Bool) : Clause (Name × Option Name) := fun words => do
  let (name, rest) ← dottedName what plain words
  let (newName, rest) ← aliasClause rest
  return ((name, newName), rest)

theorem renamingClause_bind (what : String) (plain : Bool) (words : List Token) (f : Name → Option Name → Statement) :
    (do
      let (name, rest) ← dottedName what plain words
      let (newName, rest) ← aliasClause rest
      finish (f name newName, rest)) =
      renamingClause what plain words >>= fun read => finish (f read.1.1 read.1.2, read.2) := by
  rw [renamingClause]
  cases dottedName what plain words with
  | error e => rfl
  | ok read =>
    obtain ⟨name, rest⟩ := read
    simp only [ok_bind]
    cases aliasClause rest <;> rfl

theorem complains_renamingClause (what : String) (plain : Bool) : Complains (renamingClause what plain) :=
  (complains_dottedName _ _).andThen (takesOne_dottedName _ _) complains_aliasClause rfl _

/-! ## Emitting lines -/

/-- the words are read as operands up to the first that is none -/
theorem exists_split_of_readArguments {words : List Token} {complaint : Complaint}
    (h : readArguments words = .error complaint) :
    ∃ before t after cause, words = before ++ t :: after ∧
      (∀ earlier ∈ before, ∃ operands, Operand.parse earlier.text = .ok operands) ∧
      Operand.parse t.text = .error cause ∧ complaint = ⟨t.column, cause⟩ := by
  induction words with
  | nil => cases h
  | cons t rest ih =>
    rcases bind_eq_error_iff.1 h with hfault | ⟨operands, hread, hthen⟩
    · obtain ⟨cause, hcause, rfl⟩ := mapError_eq_error_iff.1 hfault
      exact ⟨[], t, rest, cause, rfl, by simp, hcause, rfl⟩
    · rcases bind_eq_error_iff.1 hthen with hfault | ⟨_, -, hdone⟩
      · obtain ⟨before, t', after, cause, rfl, hbefore, hcause, rfl⟩ := ih hfault
        exact ⟨t :: before, t', after, cause, rfl,
          List.forall_mem_cons.2 ⟨⟨operands, mapError_eq_ok_iff.1 hread⟩, hbefore⟩, hcause, rfl⟩
      · cases hdone

/-- the operands fit their places up to the first that does not -/
theorem exists_split_of_checkArguments {arguments : List Argument} {kinds : List OperandKind} {complaint : Complaint}
    (h : checkArguments arguments kinds = .error complaint) :
    ∃ before argument after kinds' kind more expected, arguments = before ++ argument :: after ∧
      kinds = kinds' ++ kind :: more ∧ List.Forall₂ (fun earlier kind => earlier.operand.Suits kind) before kinds' ∧
      ¬ argument.operand.Suits kind ∧
      complaint = ⟨argument.token.column, .invalidOperand argument.token.text expected⟩ := by
  induction arguments generalizing kinds with
  | nil => cases h
  | cons argument arguments ih =>
    cases kinds with
    | nil => cases h
    | cons kind kinds =>
      rcases bind_eq_error_iff.1 h with hfault | ⟨_, hfits, hrest⟩
      · unfold checkArgument at hfault
        split_ifs at hfault with hfits
        rw [Operand.fits_eq_true_iff] at hfits
        exact ⟨[], argument, arguments, [], kind, kinds, _, rfl, rfl, .nil, hfits, (Except.error.inj hfault).symm⟩
      · have hsuits : argument.operand.Suits kind := by
          unfold checkArgument at hfits
          split_ifs at hfits with hfits'
          exact Operand.fits_eq_true_iff.1 hfits'
        obtain ⟨before, argument', after, kinds', kind', more, expected, rfl, rfl, hbefore, hnot, rfl⟩ := ih hrest
        exact ⟨argument :: before, argument', after, kind :: kinds', kind', more, expected, rfl, rfl,
          .cons hsuits hbefore, hnot, rfl⟩

theorem points_of_readArguments {first : Token} {words : List Token} {complaint : Complaint}
    (h : readArguments words = .error complaint) : complaint.Points (first :: words) := by
  obtain ⟨before, t, after, cause, hsplit, hbefore, hcause, rfl⟩ := exists_split_of_readArguments h
  obtain ⟨operand, expected, rfl⟩ := Operand.invalid_of_parse hcause
  refine .operand (.unreadable hsplit ?_ ?_)
  · intro earlier hearlier
    obtain ⟨operands, hread⟩ := hbefore earlier hearlier
    exact ⟨operands, Operand.parse_eq_ok_iff.1 hread⟩
  · intro operands hspells
    rw [Operand.parse_eq_ok_iff.2 hspells] at hcause
    cases hcause

theorem points_of_checkArguments {first : Token} {words : List Token} {mnemonic : Mnemonic} {arguments : List Argument}
    {complaint : Complaint} (hmnemonic : Mnemonic.ofText? first.text = some mnemonic)
    (hread : readArguments words = .ok arguments)
    (h : checkArguments arguments (mnemonic.places arguments.length) = .error complaint) :
    complaint.Points (first :: words) := by
  obtain ⟨before, argument, after, kinds, kind, more, expected, rfl, hkinds, hbefore, hnot, rfl⟩ :=
    exists_split_of_checkArguments h
  exact .operand (.misplaced hmnemonic (readArguments_eq_ok_iff.1 hread) hkinds hbefore hnot)

theorem points_of_emission {first : Token} {words : List Token} {complaint : Complaint}
    (h : emission first words = .error complaint) : complaint.Points (first :: words) := by
  unfold emission at h
  split at h
  · rename_i hunknown
    obtain rfl := Except.error.inj h
    exact .mnemonic hunknown
  · rename_i hmnemonic
    rcases bind_eq_error_iff.1 h with hfault | ⟨arguments, hread, hthen⟩
    · exact points_of_readArguments hfault
    · rcases bind_eq_error_iff.1 hthen with hfault | ⟨_, -, hdone⟩
      · rw [List.map_const'] at hfault
        exact points_of_checkArguments hmnemonic hread hfault
      · cases hdone
  · rename_i op hmnemonic
    rcases bind_eq_error_iff.1 h with hfault | ⟨arguments, hread, hthen⟩
    · exact points_of_readArguments hfault
    · split_ifs at hthen with hlength
      · rcases bind_eq_error_iff.1 hthen with hfault | ⟨_, -, hdone⟩
        · exact points_of_checkArguments hmnemonic hread hfault
        · cases hdone
      · obtain rfl := Except.error.inj hthen
        exact .arity hmnemonic (readArguments_eq_ok_iff.1 hread) hlength

/-! ## Lines -/

/-- a line of one clause after its first word -/
theorem points_of_clause {α : Type} {clause : Clause α} (hclause : Complains clause)
    (hblames : ∀ words, Blames words (LeavesOver words) (clause words)) (f : α → Statement) {first : Token}
    {words : List Token} {complaint : Complaint}
    (hread : ∀ word a, clause (words ++ [word]) = .ok (a, []) → ofTokens (first :: (words ++ [word])) = .ok (f a))
    (h : (clause words >>= fun read => finish (f read.1, read.2)) = .error complaint) :
    complaint.Points (first :: words) := by
  rcases bind_eq_error_iff.1 h with hfault | ⟨⟨a, rest⟩, hleft, hend⟩
  · cases hclause words complaint hfault with
    | word hword => exact .word (List.mem_cons_of_mem first hword)
    | missing hmore => exact .missing ⟨_, _, hread _ _ hmore⟩
  · have hrest := hblames words
    rw [hleft] at hrest
    cases rest with
    | nil => cases hend
    | cons t rest =>
      obtain rfl := Except.error.inj hend
      exact .word (List.mem_cons_of_mem first (hrest.of_ok List.mem_cons_self))

theorem blames_renamingClause (what : String) (plain : Bool) (words : List Token) :
    Blames words (LeavesOver words) (renamingClause what plain words) := by
  refine (blames_dottedName what words plain).bind fun read hread => ?_
  refine ((blames_aliasClause read.2).rest hread).bind ?_
  exact fun _ hrest => .ok hrest

/-- `sub` declares where its words are read as a declaration -/
theorem declaresSubroutine_concat {words : List Token} {word : Token} {read : Statement}
    (h : subroutineClause (words ++ [word]) = .ok (read, [])) :
    declaresSubroutine (words ++ [word]) = true := by
  have hfinish : (subroutineClause (words ++ [word]) >>= finish) = .ok read := by
    rw [h]
    rfl
  obtain ⟨t, rest, visibility, hwords, -, hvisibility, -⟩ := subroutineClause_eq_ok_iff.1 hfinish
  rw [hwords]
  exact declaresSubroutine_of_visibilityWords hvisibility

/-- **A complaint points to what its reason is about.** -/
theorem points_of_ofTokens {words : List Token} {complaint : Complaint} (h : ofTokens words = .error complaint) :
    complaint.Points words := by
  cases words with
  | nil => cases h
  | cons first rest =>
    by_cases hlabel : ∃ name, first.text.toList = '.' :: name
    · obtain ⟨name, hname⟩ := hlabel
      rw [ofTokens_label hname] at h
      split_ifs at h with hidentifier
      · refine points_of_clause complains_visibilityClause blames_visibilityClause _ ?_ h
        intro word visibility hread
        rw [ofTokens_label hname, if_pos hidentifier, hread]
        rfl
      · obtain rfl := Except.error.inj h
        exact .word List.mem_cons_self
    · have hother := ofTokens_other (not_exists.1 hlabel)
      rw [hother] at h
      split_ifs at h with hnamespace hprivate hsubroutine hexport huse
      · refine points_of_clause complains_scopeClause blames_scopeClause _ ?_ h
        intro word change hread
        rw [hother, if_pos hnamespace, hread]
        rfl
      · refine points_of_clause complains_privateClause blames_privateClause _ ?_ h
        intro word change hread
        rw [hother, if_neg hnamespace, if_pos hprivate, hread]
        rfl
      · refine points_of_clause complains_subroutineClause ?_ id ?_ h
        · exact fun words => (blames_subroutineClause words).mono (fun _ => id) fun _ => And.left
        · intro word read hread
          have hmore := hsubroutine.imp_right fun hsub => And.intro hsub.1 (declaresSubroutine_concat hread)
          rw [hother, if_neg hnamespace, if_neg hprivate, if_pos hmore, hread]
          rfl
      · rw [renamingClause_bind] at h
        refine points_of_clause (complains_renamingClause _ _) (blames_renamingClause _ _)
          (fun names => .exportName names.1 names.2) ?_ h
        intro word names hread
        have hdeclares : ¬(first.text = "def" ∨ first.text = "sub" ∧ declaresSubroutine (rest ++ [word]) = true) := by
          simp [hexport]
        rw [hother, if_neg hnamespace, if_neg hprivate, if_neg hdeclares, if_pos hexport, renamingClause_bind, hread]
        rfl
      · rw [renamingClause_bind] at h
        refine points_of_clause (complains_renamingClause _ _) (blames_renamingClause _ _)
          (fun names => .useName names.1 names.2) ?_ h
        intro word names hread
        have hdeclares : ¬(first.text = "def" ∨ first.text = "sub" ∧ declaresSubroutine (rest ++ [word]) = true) := by
          simp [huse]
        rw [hother, if_neg hnamespace, if_neg hprivate, if_neg hdeclares, if_neg hexport, if_pos huse,
          renamingClause_bind, hread]
        rfl
      · exact points_of_emission h

end Statement

end ByteMachine

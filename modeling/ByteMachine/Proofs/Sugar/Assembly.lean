/-
Short forms add nothing. A text and the text with every short form written out are read to the same names and the same
bytes, line by line, so the one has an image exactly if the other has, and it is the same image.

- `Draft.Matches.addLines_expand`: a line and the lines that it stands for do the same.
- `assemble_expands`: two readings side by side.
-/
import Mathlib.Tactic
import ByteMachine.Proofs.Sugar.Words

namespace ByteMachine

open Attempt Layout Sugar

/-! ## What the lines say -/

namespace Statement

theorem SameSense.trans {first second third : Statement} (h : first.SameSense second) (h' : second.SameSense third) :
    first.SameSense third := by
  cases h with
  | refl => exact h'
  | data hoperands =>
    cases h' with
    | refl => exact .data hoperands
    | data hoperands' => exact .data (hoperands.trans hoperands')
  | instruction hoperands =>
    cases h' with
    | refl => exact .instruction hoperands
    | instruction hoperands' => exact .instruction (hoperands.trans hoperands')

/-- a line says what its words say without their columns -/
theorem parse_agrees {text : String} {words : List String} (h : Token.words text = words) :
    AgreeOn SameSense (parse text) (ofTokens (tokens words)) ∧
      AgreeOn SameSense (ofTokens (tokens words)) (parse text) := by
  have hwords : (Token.ofLine text).map (·.text) = (tokens words).map (·.text) := by
    rw [map_text_tokens]
    exact h
  exact ⟨(ofTokens_agrees (Token.sameWords_iff.2 hwords)).on, (ofTokens_agrees (Token.sameWords_iff.2 hwords.symm)).on⟩

theorem parse_privateNamespace {text name : String} (h : Token.words text = ["private", "namespace", name])
    (hname : isIdentifier name = true) : parse text = .ok (.scope (.enterPrivate (some name))) := by
  have hagree := (parse_agrees h).2
  rw [ofTokens_privateNamespace hname] at hagree
  generalize parse text = parsed at hagree ⊢
  cases hagree with
  | ok hsense => cases hsense with
    | refl => rfl

end Statement

namespace Draft

variable {draft draft' next : Draft} {mount : Word} {space : Space} {table : List (Route × Meaning)} {sites : List Site}
  {number number' : Nat}

/-! ## Subroutines -/

/-- the private namespace of a label that was just declared has its symbol -/
theorem Follows.enterPrivate_of_declare (h : draft.Follows mount space table sites) {name : String}
    {visibility : Visibility} {symbol : Symbol} (hd : draft.declare number name visibility = .ok (symbol, next)) :
    next.changeScope (.enterPrivate (some name)) = .ok { next with scope := next.scope.pushPrivate symbol } := by
  obtain ⟨hnext, hsymbol⟩ := h.declare hd
  simp only [Draft.changeScope, Option.getD_some, Draft.intern, SymbolTable.intern_of_names hnext.distinct hsymbol]

/-- **A subroutine is a label and a private namespace.** -/
theorem Matches.add_subroutine (h : draft.Matches .refl anyLines draft') (hfollows : draft'.Follows mount space table sites)
    (number number' : Nat) (name : String) (visibility : Visibility) :
    AgreeOn (Draft.Matches .refl anyLines) (draft.add number (.subroutine name visibility))
      (draft'.add number' (.label name visibility) >>= fun labelled =>
        labelled.changeScope (.enterPrivate (some name))) := by
  have hdeclare : Agree _ _ (draft.declare number name visibility) (draft'.declare number' _ _) :=
    h.declare trivial name visibility
  have hvisibility : visibility.renamed Renaming.refl.apply = visibility := visibility.renamed_id
  have hname : Renaming.refl.apply name = name := rfl
  rw [hvisibility, hname] at hdeclare
  simp only [Draft.add]
  generalize hmade : draft'.declare number' name visibility = made' at hdeclare ⊢
  generalize draft.declare number name visibility = made at hdeclare ⊢
  cases hdeclare with
  | error => exact .error trivial
  | @ok made made' hsame =>
    obtain ⟨hsymbol, hmatches⟩ := hsame
    have henter := hfollows.enterPrivate_of_declare hmade
    simp only [ok_bind, pure, Except.pure, henter]
    exact .ok { hmatches with scope := congrArg₂ Scope.pushPrivate hmatches.scope hsymbol }

/-! ## Lines -/

/-- lines that say the same do the same -/
theorem Matches.addLine_of_sameSense (h : draft.Matches .refl anyLines draft') {text text' : String}
    (hparse : AgreeOn Statement.SameSense (Statement.parse text) (Statement.parse text')) :
    AgreeOn (Draft.Matches .refl anyLines) (draft.addLine number text) (draft'.addLine number' text') := by
  refine (hparse.mapError fun _ _ _ => trivial).bind fun statement statement' hsense => ?_
  rw [← statement.renamed_id] at hsense
  exact (h.add trivial hsense).mapError fun _ _ _ => trivial

/-- a line that stands for one line -/
theorem Matches.addLines_one (h : draft.Matches .refl anyLines draft') {text : String} {words words' : List String}
    {group : List String} (hwords : Token.words text = words)
    (hsense : AgreeOn Statement.SameSense (Statement.ofTokens (tokens words))
      (Statement.ofTokens (tokens words')))
    (hgroup : List.Forall₂ (fun words text' => Token.words text' = words) [words'] group) :
    AgreeOn (Draft.Matches .refl anyLines) (draft.addLine number text) (draft'.addLines number' group) := by
  obtain ⟨text', _, htext', hrest, rfl⟩ := List.forall₂_cons_left_iff.1 hgroup
  rw [List.forall₂_nil_left_iff.1 hrest, addLines_singleton]
  apply h.addLine_of_sameSense
  refine (((Statement.parse_agrees hwords).1.trans hsense).trans (Statement.parse_agrees htext').2).mono
    (fun _ _ _ => trivial) ?_
  rintro statement statement' ⟨_, ⟨_, hfirst, hsecond⟩, hthird⟩
  exact (hfirst.trans hsecond).trans hthird

/-- a line that declares a subroutine -/
theorem Matches.addLines_declaration (h : draft.Matches .refl anyLines draft')
    (hfollows : draft'.Follows mount space table sites) {text keyword name : String} {visibility : List String}
    {group : List String} (hwords : Token.words text = keyword :: name :: visibility)
    (hkeyword : keyword = "def" ∨ keyword = "sub") (hvisibility : isVisibility visibility)
    (hgroup : List.Forall₂ (fun words text' => Token.words text' = words)
      [("." ++ name) :: visibility, ["private", "namespace", name]] group) :
    AgreeOn (Draft.Matches .refl anyLines) (draft.addLine number text) (draft'.addLines number' group) := by
  cases hgroup with
  | @cons _ label _ _ hlabel hgroup => cases hgroup with
    | @cons _ opening _ _ hopening hrest =>
      rw [List.forall₂_nil_left_iff.1 hrest, addLines]
      simp only [addLines_singleton]
      have hparse := ((Statement.parse_agrees hwords).1.trans (declaration_agrees hkeyword hvisibility)).trans
        (Statement.parse_agrees hlabel).2
      rw [Draft.addLine, Draft.addLine, bind_assoc]
      refine (hparse.mapError fun _ _ _ => trivial).bind ?_
      rintro statement statement' ⟨_, ⟨_, hshort, hname, visibility', rfl, rfl⟩, hlong⟩
      cases hshort
      cases hlong
      have hopens := Statement.parse_privateNamespace hopening hname
      have hadd := h.add_subroutine hfollows number number' name visibility'
      cases hlabelled : draft'.add number' (.label name visibility') with
      | error cause =>
        rw [hlabelled] at hadd
        exact hadd.mapError fun _ _ _ => trivial
      | ok labelled =>
        rw [hlabelled] at hadd
        change Agree _ _ _ (labelled.addLine (number' + 1) opening)
        rw [addLine_of_parse hopens]
        exact hadd.mapError fun _ _ _ => trivial

/-- **A line and the lines that it stands for do the same.** -/
theorem Matches.addLines_expand (h : draft.Matches .refl anyLines draft')
    (hfollows : draft'.Follows mount space table sites) {text : String} {group : List String}
    (hgroup : List.Forall₂ (fun words text' => Token.words text' = words) (expand (Token.words text)) group) :
    AgreeOn (Draft.Matches .refl anyLines) (draft.addLine number text) (draft'.addLines number' group) := by
  unfold expand at hgroup
  split at hgroup
  · rename_i name visibility hdeclaration
    obtain ⟨keyword, hwords, hkeyword, hvisibility⟩ := declaration?_eq_some hdeclaration
    exact h.addLines_declaration hfollows hwords hkeyword hvisibility hgroup
  · rename_i first operands _ hemission
    obtain ⟨hwords, hsense⟩ := emission_expands hemission
    exact h.addLines_one hwords hsense hgroup
  · refine h.addLines_one rfl ?_ hgroup
    cases Statement.ofTokens (tokens (Token.words text)) with
    | error complaint => exact .error trivial
    | ok statement => exact .ok (.refl statement)

theorem Matches.addLines_expands {texts : List String} {groups : List (List String)}
    (hgroups : List.Forall₂ (fun text group => List.Forall₂ (fun words text' => Token.words text' = words)
      (expand (Token.words text)) group) texts groups)
    (h : draft.Matches .refl anyLines draft') (hfollows : draft'.Follows mount space table sites)
    (number number' : Nat) :
    AgreeOn (Draft.Matches .refl anyLines) (draft.addLines number texts)
      (draft'.addLines number' groups.flatten) := by
  induction hgroups generalizing draft draft' space table sites number number' with
  | nil => exact .ok h
  | cons hgroup _ ih =>
    rw [List.flatten_cons, addLines_append, addLines]
    refine (h.addLines_expand hfollows hgroup).strengthen.bind ?_
    rintro next next' ⟨hnext, -, hadded⟩
    obtain ⟨statements, -, hfollows'⟩ := hfollows.addLines hadded
    exact ih hnext hfollows' _ _

end Draft

/-! ## Texts -/

namespace Sugar

/-- a line with the words; one without words is a comment, because a last line that is empty would be none -/
def lineOf (words : List String) : String := if words = [] then "#" else " ".intercalate words

theorem isLine_lineOf {words : List String} (h : ∀ word ∈ words, Token.IsWord word.toList) :
    Text.IsLine (lineOf words).toList := by
  unfold lineOf
  split
  · exact ⟨by decide, by decide, by decide⟩
  · rename_i hne
    exact Token.isLine_intercalate words hne h

theorem words_lineOf {words : List String} (h : ∀ word ∈ words, Token.IsWord word.toList) :
    Token.words (lineOf words) = words := by
  unfold lineOf
  split
  · rename_i hnone
    rw [hnone]
    decide
  · exact Token.map_text_ofLine words h

/-- characters of a word, and the marks of long forms, make a word -/
theorem isWord_of_chars {cs cs' : List Char} (h : Token.IsWord cs) (hne : cs' ≠ [])
    (hchars : ∀ c ∈ cs', c ∈ cs ∨ c = ':' ∨ c = '.') : Token.IsWord cs' := by
  refine ⟨hne, fun c hc => ?_, fun hc => ?_⟩
  · rcases hchars c hc with hc | rfl | rfl
    · exact h.no_blank c hc
    · decide
    · decide
  · rcases hchars _ hc with hc | hc | hc
    · exact h.no_comment hc
    · exact absurd hc (by decide)
    · exact absurd hc (by decide)

theorem isWord_expandOperand {word part : String} (h : Token.IsWord word.toList) (hpart : part ∈ expandOperand word) :
    Token.IsWord part.toList := by
  unfold expandOperand at hpart
  split at hpart
  · rename_i name hword
    rw [hword] at h
    rcases List.mem_pair.1 hpart with rfl | rfl
    · rw [String.toList_ofList]
      refine isWord_of_chars h (List.cons_ne_nil _ _) fun c hc => ?_
      rcases List.mem_cons.1 hc with rfl | hc
      · exact Or.inr (Or.inl rfl)
      · exact Or.inl (List.mem_cons_of_mem _ hc)
    · rw [String.toList_ofList]
      refine isWord_of_chars h (by simp) fun c hc => ?_
      rcases List.mem_append.1 hc with hc | hc
      · exact Or.inl (List.mem_cons_of_mem _ hc)
      · exact Or.inr (Or.inl (List.mem_singleton.1 hc))
  · rw [List.mem_singleton.1 hpart]
    exact h

theorem isWord_expand {words part : List String} {word : String} (h : ∀ word ∈ words, Token.IsWord word.toList)
    (hpart : part ∈ expand words) (hword : word ∈ part) : Token.IsWord word.toList := by
  unfold expand at hpart
  split at hpart
  · rename_i name visibility hdeclaration
    obtain ⟨keyword, rfl, -, -⟩ := declaration?_eq_some hdeclaration
    have hname := h name (by simp)
    rcases List.mem_pair.1 hpart with rfl | rfl
    · rcases List.mem_cons.1 hword with rfl | hword
      · refine isWord_of_chars hname (by simp) fun c hc => ?_
        rw [String.toList_append, List.mem_append] at hc
        rcases hc with hc | hc
        · exact Or.inr (Or.inr (List.mem_singleton.1 hc))
        · exact Or.inl hc
      · exact h word (by simp [hword])
    · simp only [List.mem_cons, List.not_mem_nil, or_false] at hword
      rcases hword with rfl | rfl | rfl
      · exact Token.isWord_of_all rfl (by decide)
      · exact Token.isWord_of_all rfl (by decide)
      · exact hname
  · rename_i first operands _ hemission
    obtain ⟨rfl, -⟩ := emission_expands hemission
    obtain ⟨hfirst, hoperands⟩ := List.forall_mem_cons.1 h
    rw [List.mem_singleton] at hpart
    rw [hpart] at hword
    rcases List.mem_cons.1 hword with rfl | hword
    · exact hfirst
    · obtain ⟨operand, hoperand, hword⟩ := List.mem_flatMap.1 hword
      exact isWord_expandOperand (hoperands operand hoperand) hword
  · rw [List.mem_singleton] at hpart
    exact h word (hpart ▸ hword)

/-- every text has a long form -/
theorem exists_expands (source : String) : ∃ source', Expands source source' := by
  let groups := (Text.lines source).flatMap fun text => expand (Token.words text)
  have hwords : ∀ words ∈ groups, ∀ word ∈ words, Token.IsWord word.toList := by
    intro words hwords word hword
    obtain ⟨text, -, hpart⟩ := List.mem_flatMap.1 hwords
    refine isWord_expand ?_ hpart hword
    intro word hword
    obtain ⟨t, ht, rfl⟩ := List.mem_map.1 hword
    exact Token.isWord_of_mem_ofLine ht
  refine ⟨"\n".intercalate (groups.map lineOf), ?_⟩
  have hlines : Text.lines ("\n".intercalate (groups.map lineOf)) = groups.map lineOf := by
    apply Text.lines_intercalate
    intro line hline
    obtain ⟨words, hmem, rfl⟩ := List.mem_map.1 hline
    exact isLine_lineOf (hwords words hmem)
  have hread : ∀ words ∈ groups, Token.words (lineOf words) = words := fun words hmem => words_lineOf (hwords words hmem)
  rw [Expands, hlines]
  calc (groups.map lineOf).map Token.words
    _ = groups.map fun words => Token.words (lineOf words) := List.map_map
    _ = groups.map fun words => words := List.map_congr_left hread
    _ = groups := List.map_id' groups

end Sugar

/-- **Short forms add nothing.** Every text has a long form, where `:name name:` stands for each operand `%name` and a
label and a private namespace for each subroutine declaration. A long form in any layout has an image exactly if the text
has, and then it is the same: the same bytes, and the same names with the same tags. -/
theorem assemble_expands (source : String) (mount : Word) :
    (∃ source', Expands source source') ∧
      ∀ source', Expands source source' → ∀ assembly,
        assemble source mount = .ok assembly ↔ assemble source' mount = .ok assembly := by
  refine ⟨exists_expands source, fun source' hexpands assembly => ?_⟩
  have hwords : List.Forall₂ (fun words text' => Token.words text' = words)
      ((Text.lines source).flatMap fun text => expand (Token.words text)) (Text.lines source') := by
    rw [Expands, ← List.forall₂_eq_eq_eq, List.forall₂_map_left_iff] at hexpands
    exact hexpands.flip
  obtain ⟨groups, hflat, hgroups⟩ := InStep.exists_groups hwords
  have hstart := Draft.matches_start .refl anyLines mount
  have hread := hstart.addLines_expands hgroups (Draft.start_follows mount) 1 1
  refine Agree.eq_ok_iff (E := fun _ _ => True) ?_
  unfold assemble Draft.ofLines
  rw [hflat]
  refine hread.bind fun draft draft' hmatches => ?_
  exact (hmatches.link_eq _ _).on

/-- a public subroutine with a loop inside, and a call of it -/
def shortForms : String := "sub f public as g\n.loop\njmp %loop # inside\nnamespace pop\njmp %g"

/-- the same with long forms, in another layout -/
def longForms : String :=
  ".f public as g\n  private namespace f\n.loop\n  jmp :loop loop:\nnamespace pop\njmp  :g g:"

theorem shortForms_expand :
    Expands shortForms longForms ∧
      ∃ assembly, assemble shortForms 0x10 = .ok assembly ∧ assemble longForms 0x10 = .ok assembly ∧
        assembly.bytes = [Opcode.jmp.code, 0x10, 0x00, Opcode.jmp.code, 0x10, 0x00] := by
  have hexpands : Expands shortForms longForms := by
    unfold Expands
    decide +kernel
  obtain ⟨-, hsame⟩ := assemble_expands shortForms 0x10
  have hbytes : (assemble shortForms 0x10).map (fun assembly => assembly.bytes) =
      .ok [Opcode.jmp.code, 0x10, 0x00, Opcode.jmp.code, 0x10, 0x00] := by decide +kernel
  cases h : assemble shortForms 0x10 with
  | error e => simp [h, Except.map] at hbytes
  | ok assembly =>
    rw [h] at hbytes
    exact ⟨hexpands, assembly, rfl, (hsame longForms hexpands assembly).1 h, Except.ok.inj hbytes⟩

end ByteMachine

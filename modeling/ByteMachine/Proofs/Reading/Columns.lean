/-
Columns. A word of a line knows the column of its first character, and a complaint about a line is about one of its words
or, in column 0, about the line as a whole.

- `Token.StandsIn`: the characters of a word are those of the line from its column on.
- `Statement.Blames`: a reading of words with complaints about these words only.
- `Statement.blames_parse`: the complaints about a line, and the words that its operands were read from.
-/
import Mathlib.Tactic
import ByteMachine.Proofs.Reading.Forms
import ByteMachine.Proofs.Reading.Words

namespace ByteMachine

/-! ## Words -/

namespace Token

def StandsIn (t : Token) (line : List Char) : Prop :=
  ∃ before after, line = before ++ t.text.toList ++ after ∧ t.column = before.length + 1

/-- the word that is being read is the last one that was read, and its column is counted back from here -/
theorem standsIn_of_mem_scan {column : Nat} {before word cs : List Char} {t : Token}
    (hcolumn : column = before.length + word.length + 1) (h : t ∈ scan column word cs) :
    t.StandsIn (before ++ word.reverse ++ cs) := by
  induction cs generalizing column before word with
  | nil =>
    cases word with
    | nil => cases h
    | cons w word =>
      rw [scan, List.mem_singleton] at h
      subst h
      refine ⟨before, [], by rw [String.toList_ofList], ?_⟩
      simp only [hcolumn, List.length_cons]
      omega
  | cons c cs ih =>
    by_cases hblank : Text.isBlank c = true
    · cases word with
      | nil =>
        rw [scan, if_pos hblank] at h
        have hstands := @ih (column + 1) (before ++ [c]) [] (by simp [hcolumn]) h
        simpa using hstands
      | cons w word =>
        rw [scan, if_pos hblank] at h
        rcases List.mem_cons.1 h with rfl | h
        · refine ⟨before, c :: cs, by rw [String.toList_ofList], ?_⟩
          simp only [hcolumn, List.length_cons]
          omega
        · have hstands := @ih (column + 1) (before ++ (w :: word).reverse ++ [c]) [] (by simp [hcolumn]; omega) h
          simpa using hstands
    · cases word with
      | nil =>
        rw [scan, if_neg hblank] at h
        have hstands := @ih (column + 1) before [c] (by simp [hcolumn]) h
        simpa using hstands
      | cons w word =>
        rw [scan, if_neg hblank] at h
        have hstands := @ih (column + 1) before (c :: w :: word) (by simp [hcolumn]; omega) h
        simpa using hstands

/-- **A word of a line stands there at its column.** -/
theorem standsIn_of_mem_ofLine {line : String} {t : Token} (h : t ∈ ofLine line) : t.StandsIn line.toList := by
  have hscan := @standsIn_of_mem_scan 1 [] [] _ t rfl h
  rw [List.nil_append, List.reverse_nil, List.nil_append] at hscan
  obtain ⟨before, after, hread, hcolumn⟩ := hscan
  -- the comment comes after all words
  refine ⟨before, after ++ line.toList.dropWhile (· ≠ commentMark), ?_, hcolumn⟩
  rw [← List.append_assoc, ← hread, List.takeWhile_append_dropWhile]

end Token

/-! ## Complaints -/

def Statement.arguments : Statement → List Argument
  | data arguments => arguments
  | instruction _ arguments => arguments
  | _ => []

namespace Statement

open Attempt

/-- a complaint is about one of the words, or about the line as a whole -/
def Complaint.IsAbout (words : List Token) (complaint : Complaint) : Prop :=
  complaint.column = 0 ∨ ∃ t ∈ words, complaint.column = t.column

/-- a reading of words: it complains about these words only, and its result has a property -/
abbrev Blames {α : Type} (words : List Token) (P : α → Prop) : Except Complaint α → Prop :=
  Ends (Complaint.IsAbout words) P

/-- the words left over are some of the words -/
def LeavesOver {α : Type} (words : List Token) (read : α × List Token) : Prop := read.2 ⊆ words

section Blames

variable {α : Type} {words words' : List Token} {P : α → Prop}

theorem blames_whole {cause : AssemblyError.Cause} : Blames words P (.error ⟨0, cause⟩) := .error (.inl rfl)

theorem blames_word {t : Token} (h : t ∈ words) {cause : AssemblyError.Cause} :
    Blames words P (.error ⟨t.column, cause⟩) :=
  .error (.inr ⟨t, h, rfl⟩)

theorem Complaint.IsAbout.mono (hwords : words ⊆ words') {complaint : Complaint} (h : complaint.IsAbout words) :
    complaint.IsAbout words' :=
  h.imp_right fun ⟨t, ht, hcolumn⟩ => ⟨t, hwords ht, hcolumn⟩

/-- a reading of the words that were left over -/
theorem Blames.rest {x : Except Complaint (α × List Token)} (h : Blames words (LeavesOver words) x)
    (hwords : words ⊆ words') : Blames words' (LeavesOver words') x :=
  h.mono (fun _ => .mono hwords) fun _ hrest => List.Subset.trans hrest hwords

end Blames

/-! ### Clauses -/

variable (what : String) (words : List Token)

theorem blames_identifier : Blames words (LeavesOver words) (identifier what words) := by
  cases words with
  | nil => exact blames_whole
  | cons t rest =>
    rw [identifier]
    split_ifs
    · exact .ok (List.subset_cons_self t rest)
    · exact blames_word List.mem_cons_self

theorem blames_dottedName (plain : Bool) : Blames words (LeavesOver words) (dottedName what plain words) := by
  cases words with
  | nil => exact blames_whole
  | cons t rest =>
    rw [dottedName]
    split
    · split_ifs
      · exact .ok (List.subset_cons_self t rest)
      · exact blames_word List.mem_cons_self
    · exact blames_word List.mem_cons_self

theorem blames_aliasClause : Blames words (LeavesOver words) (aliasClause words) := by
  cases words with
  | nil => exact .ok (List.Subset.refl [])
  | cons t rest =>
    rw [aliasClause]
    split_ifs
    · refine ((blames_dottedName "alias" rest true).rest (List.subset_cons_self t rest)).bind ?_
      exact fun read hread => .ok hread
    · exact .ok (List.Subset.refl _)

theorem blames_visibilityClause : Blames words (LeavesOver words) (visibilityClause words) := by
  cases words with
  | nil => exact .ok (List.Subset.refl [])
  | cons t rest =>
    rw [visibilityClause]
    split_ifs
    · refine ((blames_aliasClause rest).rest (List.subset_cons_self t rest)).bind ?_
      exact fun read hread => .ok hread
    · exact .ok (List.Subset.refl _)

theorem blames_scopeClause : Blames words (LeavesOver words) (scopeClause words) := by
  cases words with
  | nil => exact blames_whole
  | cons t rest =>
    unfold scopeClause
    dsimp only
    split_ifs
    · exact .ok (List.subset_cons_self t rest)
    · cases rest with
      | nil => exact .ok (List.nil_subset _)
      | cons path rest =>
        have hpath : path ∈ t :: path :: rest := List.mem_cons_of_mem t List.mem_cons_self
        have hrest : rest ⊆ t :: path :: rest := List.subset_cons_of_subset t (List.subset_cons_self path rest)
        simp only
        split
        · split_ifs
          · exact .ok hrest
          · exact blames_word hpath
        · exact blames_word hpath
    · refine (blames_dottedName "namespace name" (t :: rest) true).bind ?_
      exact fun read hread => .ok hread

theorem blames_privateClause : Blames words (LeavesOver words) (privateClause words) := by
  cases words with
  | nil => exact blames_whole
  | cons t rest =>
    unfold privateClause
    dsimp only
    split_ifs
    · cases rest with
      | nil => exact .ok (List.nil_subset _)
      | cons name rest =>
        refine ((blames_identifier "namespace name" (name :: rest)).rest (List.subset_cons_self t _)).bind ?_
        exact fun read hread => .ok hread
    · exact blames_word List.mem_cons_self

theorem blames_subroutineClause :
    Blames words (fun read => LeavesOver words read ∧ read.1.arguments = []) (subroutineClause words) := by
  refine (blames_identifier "subroutine name" words).bind fun read hread => ?_
  refine ((blames_visibilityClause read.2).rest hread).bind ?_
  exact fun read hread => .ok ⟨hread, rfl⟩

/-- the operands of a statement were read from some of the words -/
def ReadFrom (arguments : List Argument) : Prop := ∀ argument ∈ arguments, argument.token ∈ words

theorem blames_finish {read : Statement × List Token} (hrest : LeavesOver words read) (hnone : read.1.arguments = []) :
    Blames words (fun statement => ReadFrom words statement.arguments) (finish read) := by
  obtain ⟨statement, rest⟩ := read
  cases rest with
  | nil =>
    refine .ok fun argument hargument => ?_
    rw [hnone] at hargument
    cases hargument
  | cons t rest => exact blames_word (hrest List.mem_cons_self)

/-! ### Emitting lines -/

theorem blames_readArguments : Blames words (ReadFrom words) (readArguments words) := by
  induction words with
  | nil => exact .ok (by simp [ReadFrom])
  | cons t rest ih =>
    rw [readArguments]
    cases hparse : Operand.parse t.text with
    | error cause => exact blames_word List.mem_cons_self
    | ok operands =>
      have hrest : Blames (t :: rest) (ReadFrom rest) (readArguments rest) :=
        ih.mono (fun _ => .mono (List.subset_cons_self t rest)) fun _ => id
      refine hrest.bind fun arguments harguments => .ok ?_
      intro argument hargument
      rcases List.mem_append.1 hargument with hfirst | hlater
      · obtain ⟨operand, -, rfl⟩ := List.mem_map.1 hfirst
        exact List.mem_cons_self
      · exact List.mem_cons_of_mem t (harguments argument hlater)

theorem blames_checkArguments {arguments : List Argument} (h : ReadFrom words arguments) (kinds : List OperandKind) :
    Blames words (fun _ => True) (checkArguments arguments kinds) := by
  induction arguments generalizing kinds with
  | nil => exact .ok trivial
  | cons argument arguments ih =>
    obtain ⟨hfirst, hrest⟩ := List.forall_mem_cons.1 h
    cases kinds with
    | nil => exact .ok trivial
    | cons kind kinds =>
      have hcheck : Blames words (fun _ => True) (checkArgument argument kind) := by
        unfold checkArgument
        split_ifs
        · exact .ok trivial
        · exact blames_word hfirst
      exact hcheck.bind fun _ _ => ih hrest kinds

theorem blames_emission {first : Token} {rest : List Token} (hfirst : first ∈ words) (hrest : rest ⊆ words) :
    Blames words (fun statement => ReadFrom words statement.arguments) (emission first rest) := by
  have hread : Blames words (ReadFrom words) (readArguments rest) :=
    (blames_readArguments rest).mono (fun _ => .mono hrest) fun _ harguments argument hargument =>
      hrest (harguments argument hargument)
  rw [emission]
  split
  · exact blames_word hfirst
  · refine hread.bind fun arguments harguments => ?_
    refine (blames_checkArguments words harguments _).bind ?_
    exact fun _ _ => .ok harguments
  · refine hread.bind fun arguments harguments => ?_
    split_ifs
    · refine (blames_checkArguments words harguments _).bind ?_
      exact fun _ _ => .ok harguments
    · exact blames_word hfirst

/-! ### Lines -/

theorem blames_ofTokens : Blames words (fun statement => ReadFrom words statement.arguments) (ofTokens words) := by
  cases words with
  | nil => exact .ok (by simp [ReadFrom, arguments])
  | cons first rest =>
    have hrest : rest ⊆ first :: rest := List.subset_cons_self first rest
    by_cases hlabel : ∃ name, first.text.toList = '.' :: name
    · obtain ⟨name, hname⟩ := hlabel
      rw [ofTokens_label hname]
      split_ifs
      · refine ((blames_visibilityClause rest).rest hrest).bind ?_
        exact fun read hread => blames_finish _ hread rfl
      · exact blames_word List.mem_cons_self
    · rw [ofTokens_other (not_exists.1 hlabel)]
      split_ifs
      · refine ((blames_scopeClause rest).rest hrest).bind ?_
        exact fun read hread => blames_finish _ hread rfl
      · refine ((blames_privateClause rest).rest hrest).bind ?_
        exact fun read hread => blames_finish _ hread rfl
      · have hsubroutine : Blames (first :: rest) (fun read => LeavesOver (first :: rest) read ∧ read.1.arguments = [])
            (subroutineClause rest) :=
          (blames_subroutineClause rest).mono (fun _ => .mono hrest) fun _ => .imp_left fun h => List.Subset.trans h hrest
        exact hsubroutine.bind fun read hread => blames_finish _ hread.1 hread.2
      · refine ((blames_dottedName "export name" rest true).rest hrest).bind fun read hread => ?_
        refine ((blames_aliasClause read.2).rest hread).bind ?_
        exact fun read hread => blames_finish _ hread rfl
      · refine ((blames_dottedName "name" rest false).rest hrest).bind fun read hread => ?_
        refine ((blames_aliasClause read.2).rest hread).bind ?_
        exact fun read hread => blames_finish _ hread rfl
      · exact blames_emission _ List.mem_cons_self hrest

/-- **A complaint about a line is about a word of it, or about the line as a whole,** and every operand of a statement was
read from a word of its line. -/
theorem blames_parse (line : String) :
    Blames (Token.ofLine line) (fun statement => ReadFrom (Token.ofLine line) statement.arguments) (parse line) :=
  blames_ofTokens _

end Statement

end ByteMachine

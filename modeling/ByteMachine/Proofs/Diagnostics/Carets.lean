/-
Carets. A diagnostic ends with the line at fault, quoted behind its number, and with a caret on the line below. The caret
is set under the character that the rejection points at: the first of a word at fault, or the first of the line that is no
blank. It stands under it while the number of the line has at most four digits: the number is set in a margin of that
width, and the caret is set behind a margin that is always as wide.

- `AssemblyError.place`: the character that a rejection points at.
- `AssemblyError.exists_lines_diagnostic`: the last two lines of a diagnostic.
- `AssemblyError.diagnostic_points`: the caret and the character.
-/
import Mathlib.Tactic
import ByteMachine.Proofs.Diagnostics.Spots
import ByteMachine.Proofs.Parallel.Spacing
import ByteMachine.Proofs.Reading.Lines
import ByteMachine.Proofs.Reading.Numerals

namespace ByteMachine

namespace Text

/-! ## Numbers and runs of characters -/

theorem lt_pow_length_toDigits (n : Nat) : n < 10 ^ (Nat.toDigits 10 n).length := by
  have hten : 1 < 10 := by decide
  induction n using Nat.base_induction 10 hten with
  | single m hm =>
    rw [Nat.toDigits_of_lt_base hm]
    exact hm
  | digit m k hk hm ih =>
    rw [← Nat.toDigits_append_toDigits hten hm hk, List.length_append, Nat.toDigits_of_lt_base hk,
      List.length_singleton, Nat.pow_succ]
    omega

/-- a number takes no more than four digits below ten thousand -/
theorem length_toString_le_four_iff (n : Nat) : (toString n).length ≤ 4 ↔ n < 10000 := by
  have hlength : (toString n).length = (Nat.toDigits 10 n).length := by
    rw [Nat.toString_eq_repr, ← String.length_toList, Nat.toList_repr]
  rw [hlength]
  constructor
  · intro h
    calc n < 10 ^ (Nat.toDigits 10 n).length := lt_pow_length_toDigits n
      _ ≤ 10 ^ 4 := Nat.pow_le_pow_right (by decide) h
  · exact Nat.toDigits_length 10 n 4 (by decide)

/-- the character after the longest run of characters of a kind is not of the kind -/
theorem exists_getElem?_length_takeWhile {p : Char → Bool} {cs : List Char} (h : ∃ c ∈ cs, p c = false) :
    ∃ c, cs[(cs.takeWhile p).length]? = some c ∧ p c = false := by
  induction cs with
  | nil =>
    obtain ⟨c, hc, -⟩ := h
    cases hc
  | cons d cs ih =>
    by_cases hd : p d = true
    · obtain ⟨c, hc, hp⟩ := h
      have hrest : c ∈ cs := by
        rcases List.mem_cons.1 hc with rfl | hrest
        · rw [hd] at hp
          cases hp
        · exact hrest
      rw [List.takeWhile_cons_of_pos hd]
      exact ih ⟨c, hrest, hp⟩
    · rw [List.takeWhile_cons_of_neg hd]
      exact ⟨d, rfl, Bool.eq_false_iff.2 hd⟩

end Text

namespace AssemblyError

variable {texts : List String} {e : AssemblyError}

/-! ## The character at fault -/

/-- the place in the line of the character that a rejection points at, counted from zero: the first of the word at fault,
or the first that is no blank if the line as a whole is at fault -/
def place (e : AssemblyError) : Nat :=
  if e.column = 0 then (e.text.toList.takeWhile Text.isBlank).length else e.column - 1

/-- a word of a line has characters that are no blanks -/
theorem exists_of_mem_ofLine {line : String} {t : Token} (h : t ∈ Token.ofLine line) :
    ∃ c, line.toList[t.column - 1]? = some c ∧ Text.isBlank c = false := by
  have hword := Token.isWord_of_mem_ofLine h
  obtain ⟨before, after, hline, hcolumn⟩ := Token.standsIn_of_mem_ofLine h
  obtain ⟨c, cs, hcs⟩ := List.exists_cons_of_ne_nil hword.ne_nil
  refine ⟨c, ?_, hword.no_blank c (by simp [hcs])⟩
  rw [hline, hcolumn, hcs]
  simp

/-- **A rejection points at a character that is no blank.** -/
theorem IsAt.exists_char (h : e.IsAt texts) : ∃ c, e.text.toList[e.place]? = some c ∧ Text.isBlank c = false := by
  rw [place]
  by_cases hwhole : e.column = 0
  · rw [if_pos hwhole]
    obtain ⟨t, ht⟩ := List.exists_mem_of_ne_nil _ h.words
    obtain ⟨c, hc, hblank⟩ := exists_of_mem_ofLine ht
    exact Text.exists_getElem?_length_takeWhile ⟨c, List.mem_of_getElem? hc, hblank⟩
  · rw [if_neg hwhole]
    rcases h.column with hzero | ⟨t, ht, hcolumn⟩
    · exact absurd hzero hwhole
    · rw [hcolumn]
      exact exists_of_mem_ofLine ht

/-! ## The quote -/

/-- what stands before a line that is quoted: its number, set to the right -/
def margin (e : AssemblyError) : String := Text.alignRight ' ' 4 (toString e.line) ++ " | "

theorem length_margin (e : AssemblyError) : e.margin.toList.length = max 4 (toString e.line).length + 3 := by
  rw [margin, String.toList_append, Text.alignRight, String.toList_ofList]
  simp only [List.length_append, List.length_replicate, String.length_toList]
  have hbar : " | ".length = 3 := rfl
  omega

theorem notMem_margin (e : AssemblyError) : '\n' ∉ e.margin.toList := by
  have hdigits : '\n' ∉ (toString e.line).toList := by
    intro hfeed
    have hdigit := Operand.isDigit_of_mem_toString hfeed
    exact absurd hdigit (by decide)
  rw [margin, String.toList_append, Text.alignRight, String.toList_ofList, List.mem_append, List.mem_append,
    List.mem_replicate, not_or, not_or]
  exact ⟨⟨by simp, hdigits⟩, by decide⟩

theorem getLast?_margin (e : AssemblyError) : e.margin.toList.getLast? = some ' ' := by
  rw [margin, String.toList_append, List.getLast?_append]
  rfl

/-- the margin is as wide as that of the caret while the number has no more than four digits -/
theorem length_margin_eq_iff (e : AssemblyError) : e.margin.toList.length = 7 ↔ e.line < 10000 := by
  rw [length_margin, ← Text.length_toString_le_four_iff]
  omega

/-- a line is quoted without the carriage returns at its end -/
theorem exists_returns (e : AssemblyError) :
    ∃ returns, (∀ c ∈ returns, c = '\r') ∧ e.text.toList = e.quotedLine.toList ++ returns := by
  refine ⟨(e.text.toList.reverse.takeWhile (· = '\r')).reverse, ?_, ?_⟩
  · intro c hc
    have hreturn := List.mem_takeWhile_imp (List.mem_reverse.1 hc)
    simpa using hreturn
  · rw [quotedLine, String.toList_ofList, ← List.reverse_append, List.takeWhile_append_dropWhile, List.reverse_reverse]

theorem getLast?_quotedLine (e : AssemblyError) : e.quotedLine.toList.getLast? ≠ some '\r' := by
  have hfirst := List.head?_dropWhile_not (fun c => decide (c = '\r')) e.text.toList.reverse
  rw [quotedLine, String.toList_ofList, List.getLast?_reverse]
  intro hreturn
  rw [hreturn] at hfirst
  simp at hfirst

section Quote

variable (hchar : ∃ c, e.text.toList[e.place]? = some c ∧ Text.isBlank c = false)

include hchar

/-- the character at fault is quoted -/
theorem exists_char_quotedLine : ∃ c, e.text.toList[e.place]? = some c ∧ e.quotedLine.toList[e.place]? = some c ∧
    Text.isBlank c = false := by
  obtain ⟨c, hc, hblank⟩ := hchar
  obtain ⟨returns, hreturns, htext⟩ := e.exists_returns
  refine ⟨c, hc, ?_, hblank⟩
  rw [htext] at hc
  rcases Nat.lt_or_ge e.place e.quotedLine.toList.length with hlt | hge
  · rwa [List.getElem?_append_left hlt] at hc
  · rw [List.getElem?_append_right hge] at hc
    rw [hreturns c (List.mem_of_getElem? hc)] at hblank
    exact absurd hblank (by decide)

/-- the caret is set in the column of that character -/
theorem caretColumn_eq : e.caretColumn = e.place + 1 := by
  obtain ⟨c, -, hc, hblank⟩ := exists_char_quotedLine hchar
  rw [caretColumn, place]
  by_cases hwhole : e.column = 0
  · obtain ⟨returns, -, htext⟩ := e.exists_returns
    obtain ⟨d, hd, -⟩ := Text.exists_getElem?_length_takeWhile ⟨c, List.mem_of_getElem? hc, hblank⟩
    obtain ⟨hlt, -⟩ := List.getElem?_eq_some_iff.1 hd
    rw [if_pos hwhole, if_pos hwhole, htext, List.takeWhile_append, if_neg (Nat.ne_of_lt hlt)]
  · rw [if_neg hwhole, if_neg hwhole]
    omega

end Quote

/-! ## The last two lines -/

def quote (e : AssemblyError) : String := e.margin ++ e.quotedLine

def caretLine (e : AssemblyError) : String := "     | " ++ Text.copies ' ' (e.caretColumn - 1) ++ "^"

theorem toList_caretLine (e : AssemblyError) :
    e.caretLine.toList = "     | ".toList ++ List.replicate (e.caretColumn - 1) ' ' ++ ['^'] := by
  simp only [caretLine, Text.copies, String.toList_append, String.toList_ofList]
  rfl

/-- **A diagnostic ends with the quoted line and the line of the caret.** -/
theorem exists_lines_diagnostic (file : String) (hline : e.line ≠ 0) (hfeed : '\n' ∉ e.text.toList) :
    ∃ above, Text.lines (e.diagnostic file) = above ++ [e.quote, e.caretLine] := by
  have hquote : '\n' ∉ e.quote.toList := by
    obtain ⟨returns, -, htext⟩ := e.exists_returns
    rw [htext, List.mem_append, not_or] at hfeed
    rw [quote, String.toList_append, List.mem_append, not_or]
    exact ⟨e.notMem_margin, hfeed.1⟩
  have hcaret : '\n' ∉ e.caretLine.toList := by
    rw [toList_caretLine]
    simp
  have hquote' : e.quote.toList.getLast? ≠ some '\r' := by
    rw [quote, String.toList_append, List.getLast?_append, getLast?_margin]
    have hlast := e.getLast?_quotedLine
    cases hend : e.quotedLine.toList.getLast? with
    | none => simp
    | some c => rwa [hend] at hlast
  have hcaret' : e.caretLine.toList.getLast? ≠ some '\r' := by
    rw [toList_caretLine, List.getLast?_concat]
    decide
  have hdiagnostic : ∃ above, e.diagnostic file =
      String.ofList (above ++ '\n' :: (e.quote.toList ++ '\n' :: (e.caretLine.toList ++ ['\n']))) := by
    refine ⟨("error: " ++ e.cause.message ++ "\n" ++ (" --> " ++ file ++ ":" ++ toString e.line ++ ":" ++
      toString e.caretColumn) ++ "\n" ++ "     |").toList, ?_⟩
    rw [← String.toList_inj, diagnostic, diagnosticLines, if_neg hline]
    simp [String.join, quote, margin, caretLine]
  obtain ⟨above, hdiagnostic⟩ := hdiagnostic
  obtain ⟨texts, htexts⟩ := @Text.exists_lines_eq above _ _ hquote hcaret hquote' hcaret'
  refine ⟨texts, ?_⟩
  rw [hdiagnostic, htexts, String.ofList_toList, String.ofList_toList]

/-- a quoted line and the line of the caret under it -/
structure Points (e : AssemblyError) (quoted caret : String) : Prop where
  /-- the line is quoted behind its number, without the carriage returns at its end -/
  quote : ∃ returns, (∀ c ∈ returns, c = '\r') ∧ e.margin.toList ++ e.text.toList = quoted.toList ++ returns
  /-- there is a character at fault, and it is quoted -/
  char : ∃ c, Text.isBlank c = false ∧ e.text.toList[e.place]? = some c ∧
    quoted.toList[e.margin.toList.length + e.place]? = some c
  /-- there is one caret -/
  single : ∀ place, caret.toList[place]? = some '^' ↔ place = 7 + e.place
  /-- it stands under the character exactly if the number of the line has no more than four digits -/
  aligned : caret.toList[e.margin.toList.length + e.place]? = some '^' ↔ e.line < 10000

theorem getElem?_caretLine_iff {caretColumn : Nat} {place : Nat} :
    ("     | ".toList ++ List.replicate caretColumn ' ' ++ ['^'])[place]? = some '^' ↔ place = 7 + caretColumn := by
  have hlength : ("     | ".toList ++ List.replicate caretColumn ' ').length = 7 + caretColumn := by
    rw [List.length_append, List.length_replicate]
    rfl
  have hother : '^' ∉ "     | ".toList ++ List.replicate caretColumn ' ' := by simp
  rcases Nat.lt_trichotomy place (7 + caretColumn) with hlt | heq | hgt
  · rw [List.getElem?_append_left (by omega)]
    exact iff_of_false (fun h => hother (List.mem_of_getElem? h)) (by omega)
  · rw [heq, List.getElem?_append_right (by omega), hlength, Nat.sub_self]
    exact iff_of_true rfl rfl
  · have houtside : ("     | ".toList ++ List.replicate caretColumn ' ' ++ ['^'])[place]? = none := by
      rw [List.getElem?_eq_none_iff, List.length_append, List.length_singleton]
      omega
    rw [houtside]
    exact iff_of_false nofun (by omega)

theorem points_of_isAt (h : e.IsAt texts) : e.Points e.quote e.caretLine := by
  obtain ⟨c, hc, hquoted, hblank⟩ := exists_char_quotedLine h.exists_char
  obtain ⟨returns, hreturns, htext⟩ := e.exists_returns
  have hcaret : ∀ place, e.caretLine.toList[place]? = some '^' ↔ place = 7 + e.place := by
    intro place
    rw [toList_caretLine, getElem?_caretLine_iff, caretColumn_eq h.exists_char, Nat.add_sub_cancel]
  refine ⟨⟨returns, hreturns, ?_⟩, ⟨c, hblank, hc, ?_⟩, hcaret, ?_⟩
  · rw [quote, String.toList_append, htext, List.append_assoc]
  · rw [quote, String.toList_append, List.getElem?_append_right (Nat.le_add_right _ _), Nat.add_sub_cancel_left]
    exact hquoted
  · rw [hcaret, Nat.add_right_cancel_iff, length_margin_eq_iff]

/-- **The caret of a diagnostic points at the character at fault.** A text that is rejected has a line that the rejection
quotes, and the caret stands under the character at its column, or under the first that is no blank if there is no column,
exactly if the number of the line has no more than four digits. -/
theorem diagnostic_points (source : String) (mount : Word) (e : AssemblyError) (file : String)
    (h : assemble source mount = .error e) :
    1 ≤ e.line ∧ (Text.lines source)[e.line - 1]? = some e.text ∧
      ∃ above quoted caret, Text.lines (e.diagnostic file) = above ++ [quoted, caret] ∧ e.Points quoted caret := by
  have hat := spot_of_assemble h
  have hfeed := Text.notMem_of_mem_lines (List.mem_of_getElem? hat.line)
  obtain ⟨above, hlines⟩ := e.exists_lines_diagnostic file (Nat.ne_of_gt hat.positive) hfeed
  exact ⟨hat.positive, hat.line, above, _, _, hlines, points_of_isAt hat⟩

/-- empty lines, and then an operand that cannot be read -/
def unreadableAfter (count : Nat) : String := String.ofList (List.replicate count '\n' ++ "num q 1".toList)

def unreadableAt (line : Nat) : AssemblyError := ⟨line, 5, "num q 1", Operand.unreadable "q"⟩

theorem assemble_unreadableAfter (count : Nat) (mount : Word) :
    assemble (unreadableAfter count) mount = .error (unreadableAt (count + 1)) := by
  have hlines : Text.lines (unreadableAfter count) = List.replicate count "" ++ ["num q 1"] := by
    rw [unreadableAfter, Text.lines_replicate_append]
    rfl
  have hwordless : ∀ text ∈ List.replicate count "", Token.words text = [] := by
    intro text htext
    rw [List.eq_of_mem_replicate htext]
    rfl
  have hparse : Statement.parse "num q 1" = .error ⟨5, Operand.unreadable "q"⟩ := by decide +kernel
  have hnumber : 1 + (List.replicate count "").length = count + 1 := by
    rw [List.length_replicate, Nat.add_comm]
  have hdraft : Draft.ofLines (Text.lines (unreadableAfter count)) mount = .error (unreadableAt (count + 1)) := by
    rw [hlines, Draft.ofLines, Draft.addLines_append, Draft.addLines_of_wordless hwordless, Attempt.ok_bind,
      Draft.addLines_singleton, hnumber, Draft.addLine, Statement.parseLine, hparse]
    rfl
  rw [assemble, hdraft]
  rfl

theorem unreadable_is_pointed_at :
    1 ≤ (unreadableAt 1).line ∧ (Text.lines (unreadableAfter 0))[(unreadableAt 1).line - 1]? = some "num q 1" ∧
      ∃ above quoted caret, Text.lines ((unreadableAt 1).diagnostic "input.asm") = above ++ [quoted, caret] ∧
        (unreadableAt 1).Points quoted caret :=
  diagnostic_points _ 0x10 _ "input.asm" (assemble_unreadableAfter 0 0x10)

/-- in line 10000 the caret stands under the blank before the word at fault -/
theorem caret_misses_line_10000 :
    assemble (unreadableAfter 9999) 0x10 = .error (unreadableAt 10000) ∧ (unreadableAt 10000).column = 5 ∧
      ∃ above, Text.lines ((unreadableAt 10000).diagnostic "input.asm") =
        above ++ ["10000 | num q 1", "     |     ^"] ∧
        "10000 | num q 1".toList.idxOf 'q' = 12 ∧ "     |     ^".toList.idxOf '^' = 11 := by
  have hfeed : '\n' ∉ (unreadableAt 10000).text.toList := by decide
  have hquote : (unreadableAt 10000).quote = "10000 | num q 1" := by decide +kernel
  have hcaret : (unreadableAt 10000).caretLine = "     |     ^" := by decide +kernel
  obtain ⟨above, hlines⟩ := (unreadableAt 10000).exists_lines_diagnostic "input.asm" (by decide) hfeed
  rw [hquote, hcaret] at hlines
  exact ⟨assemble_unreadableAfter 9999 0x10, rfl, above, hlines, by decide, by decide⟩

end AssemblyError

end ByteMachine

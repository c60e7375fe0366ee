/-
Texts cut into lines. What comes before a line feed does not matter for the lines after it, and no line has a line feed.

- `Text.exists_lines_append`: the lines after a line feed.
- `Text.exists_lines_eq`: the last two lines of a text.
- `Text.lines_replicate_append`: the lines of a text that begins with empty lines.
- `Text.lines_join`: the lines that a text was put together from.
-/
import Mathlib.Tactic
import ByteMachine.Proofs.Reading.Words

namespace ByteMachine

namespace Text

/-! ## Separators -/

/-- the pieces after a separator are those of what comes after it -/
theorem exists_cut_append (separator : Char) (above rest : List Char) :
    ∃ first middle, cut separator (above ++ separator :: rest) =
      (first, middle ++ (cut separator rest).1 :: (cut separator rest).2) := by
  induction above with
  | nil => exact ⟨[], [], by simp [cut]⟩
  | cons c above ih =>
    obtain ⟨first, middle, hcut⟩ := ih
    by_cases hc : c = separator
    · refine ⟨[], first :: middle, ?_⟩
      simp only [cut, List.cons_append, List.foldr_cons] at hcut ⊢
      rw [hcut]
      simp [hc]
    · refine ⟨c :: first, middle, ?_⟩
      simp only [cut, List.cons_append, List.foldr_cons] at hcut ⊢
      rw [hcut]
      simp [hc]

/-- no piece has a separator -/
theorem notMem_of_mem_pieces (separator : Char) (cs : List Char) : ∀ piece ∈ pieces separator cs, separator ∉ piece := by
  induction cs with
  | nil => simp [pieces, cut]
  | cons c cs ih =>
    rw [pieces, List.forall_mem_cons] at ih ⊢
    by_cases hc : c = separator
    · simpa [cut, hc] using ih
    · have hcut : cut separator (c :: cs) = (c :: (cut separator cs).1, (cut separator cs).2) := by simp [cut, hc]
      rw [hcut]
      exact ⟨List.not_mem_cons_of_ne_of_not_mem (Ne.symm hc) ih.1, ih.2⟩

/-! ## Lines -/

theorem exists_linesOfPieces_append (first piece : List Char) (middle pieces : List (List Char)) :
    ∃ above, linesOfPieces first (middle ++ piece :: pieces) = above ++ linesOfPieces piece pieces := by
  induction middle generalizing first with
  | nil => exact ⟨[dropReturn first], rfl⟩
  | cons next middle ih =>
    obtain ⟨above, habove⟩ := ih next
    exact ⟨dropReturn first :: above, by rw [List.cons_append, linesOfPieces, habove, List.cons_append]⟩

/-- the lines after a line feed are those of what comes after it -/
theorem exists_lines_append (above rest : List Char) :
    ∃ texts, lines (String.ofList (above ++ '\n' :: rest)) = texts ++ lines (String.ofList rest) := by
  obtain ⟨first, middle, hcut⟩ := exists_cut_append '\n' above rest
  obtain ⟨texts, htexts⟩ := exists_linesOfPieces_append first (cut '\n' rest).1 middle (cut '\n' rest).2
  refine ⟨texts.map String.ofList, ?_⟩
  simp only [lines, String.toList_ofList, hcut, htexts, List.map_append]

theorem dropReturn_of_getLast?_ne {cs : List Char} (h : cs.getLast? ≠ some '\r') : dropReturn cs = cs := if_neg h

/-- the last two lines of a text that ends with two lines -/
theorem exists_lines_eq {above line line' : List Char} (hline : '\n' ∉ line) (hline' : '\n' ∉ line')
    (hlast : line.getLast? ≠ some '\r') (hlast' : line'.getLast? ≠ some '\r') :
    ∃ texts, lines (String.ofList (above ++ '\n' :: (line ++ '\n' :: (line' ++ ['\n'])))) =
      texts ++ [String.ofList line, String.ofList line'] := by
  obtain ⟨texts, htexts⟩ := exists_lines_append above (line ++ '\n' :: (line' ++ ['\n']))
  refine ⟨texts, ?_⟩
  rw [htexts, lines, String.toList_ofList, cut_append_cons hline, cut_append_cons hline']
  simp [cut, linesOfPieces, dropReturn_of_getLast?_ne hlast, dropReturn_of_getLast?_ne hlast']

theorem mem_of_mem_dropReturn {cs : List Char} {c : Char} (h : c ∈ dropReturn cs) : c ∈ cs := by
  unfold dropReturn at h
  split_ifs at h
  · exact List.mem_of_mem_dropLast h
  · exact h

theorem notMem_linesOfPieces {c : Char} {first : List Char} {rest : List (List Char)}
    (h : ∀ piece ∈ first :: rest, c ∉ piece) : ∀ line ∈ linesOfPieces first rest, c ∉ line := by
  induction rest generalizing first with
  | nil =>
    intro line hline
    rw [linesOfPieces] at hline
    split_ifs at hline
    · cases hline
    · obtain rfl := List.mem_singleton.1 hline
      exact h line List.mem_cons_self
  | cons piece rest ih =>
    intro line hline
    rw [linesOfPieces] at hline
    rcases List.mem_cons.1 hline with rfl | hrest
    · exact fun hc => h first List.mem_cons_self (mem_of_mem_dropReturn hc)
    · exact ih (fun piece hpiece => h piece (List.mem_cons_of_mem _ hpiece)) line hrest

/-- no line has a line feed -/
theorem notMem_of_mem_lines {source text : String} (h : text ∈ lines source) : '\n' ∉ text.toList := by
  obtain ⟨line, hline, rfl⟩ := List.mem_map.1 h
  rw [String.toList_ofList]
  exact notMem_linesOfPieces (notMem_of_mem_pieces '\n' source.toList) line hline

/-- empty lines before a text -/
theorem lines_replicate_append (count : Nat) (rest : List Char) :
    lines (String.ofList (List.replicate count '\n' ++ rest)) =
      List.replicate count "" ++ lines (String.ofList rest) := by
  induction count with
  | zero => rfl
  | succ count ih =>
    have hnone : '\n' ∉ ([] : List Char) := List.not_mem_nil
    have hcut := cut_append_cons hnone (List.replicate count '\n' ++ rest)
    rw [List.replicate_succ, List.replicate_succ, List.cons_append, List.cons_append, ← ih]
    simp only [lines, String.toList_ofList]
    rw [List.nil_append] at hcut
    rw [hcut]
    rfl

/-! ## Lines that all end in a line feed -/

/-- lines without line feeds and carriage returns are found again if a line feed ends each of them -/
theorem linesOfPieces_cut_flatMap {lines : List (List Char)} (h : ∀ cs ∈ lines, '\n' ∉ cs ∧ '\r' ∉ cs) :
    linesOfPieces (cut '\n' (lines.flatMap (· ++ ['\n']))).1 (cut '\n' (lines.flatMap (· ++ ['\n']))).2 = lines := by
  induction lines with
  | nil => rfl
  | cons cs rest ih =>
    obtain ⟨⟨hfeed, hreturn⟩, hrest⟩ := List.forall_mem_cons.1 h
    have ih := ih hrest
    rw [List.flatMap_cons, List.append_assoc, List.singleton_append, cut_append_cons hfeed]
    simp only [linesOfPieces, dropReturn_of_notMem hreturn]
    rw [ih]

theorem lines_join {rows : List String} (h : ∀ row ∈ rows, '\n' ∉ row.toList ∧ '\r' ∉ row.toList) :
    lines (String.join (rows.map (· ++ "\n"))) = rows := by
  have hrows : ∀ cs ∈ rows.map String.toList, '\n' ∉ cs ∧ '\r' ∉ cs := by
    intro cs hcs
    obtain ⟨row, hrow, rfl⟩ := List.mem_map.1 hcs
    exact h row hrow
  have hjoin : (String.join (rows.map (· ++ "\n"))).toList = (rows.map String.toList).flatMap (· ++ ['\n']) := by
    simp [List.flatMap_map]
  simp only [lines, hjoin, linesOfPieces_cut_flatMap hrows, List.map_map]
  simp

end Text

end ByteMachine

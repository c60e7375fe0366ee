/-
The words of a line are its runs. A run is a maximal stretch of characters that are not blank; the words before the
comment are exactly the runs there, from left to right, and each knows how many characters of the line come before it.

- `Token.IsRun`, `Token.ofRun`: a run, and the word that it is.
- `Token.isRunFrom_iff_of_closed`, `Token.mem_scan_iff`: the runs around a word that ends, and those that a scan finds.
- `Token.ofLine_finds_runs`: the words of a line.
-/
import Mathlib.Tactic
import ByteMachine.Proofs.Reading.Columns

namespace ByteMachine.Token

/-- a run of characters from a place up to another: none of them is blank, and what stands next to them on either side, if
there is anything, is blank -/
structure IsRun (cs : List Char) (start stop : Nat) : Prop where
  lt : start < stop
  filled : ∀ i, start ≤ i → i < stop → ∃ c, cs[i]? = some c ∧ Text.isBlank c = false
  opens : ∀ i c, i + 1 = start → cs[i]? = some c → Text.isBlank c = true
  closes : ∀ c, cs[stop]? = some c → Text.isBlank c = true

/-- the characters from a place up to another as a word, with its column -/
def ofRun (cs : List Char) (start stop : Nat) : Token := ⟨String.ofList ((cs.take stop).drop start), start + 1⟩

/-! ## Runs around a word -/

section Closed

variable {before word rest : List Char} {start stop : Nat}

theorem getElem?_word {i : Nat} (hstart : before.length ≤ i) (hstop : i < before.length + word.length) :
    ∃ c ∈ word, (before ++ word ++ rest)[i]? = some c := by
  have hi : i - before.length < word.length := by omega
  refine ⟨word[i - before.length], List.getElem_mem hi, ?_⟩
  rw [List.append_assoc, List.getElem?_append_right hstart, List.getElem?_append_left hi, List.getElem?_eq_getElem hi]

theorem getElem?_after_word : (before ++ word ++ rest)[before.length + word.length]? = rest.head? := by
  have hlength : (before ++ word).length = before.length + word.length := List.length_append
  rw [List.getElem?_append_right hlength.le, hlength, Nat.sub_self, List.head?_eq_getElem?]

theorem getElem?_before_word {i : Nat} (h : i + 1 = before.length) :
    (before ++ word ++ rest)[i]? = before.getLast? := by
  rw [List.append_assoc, List.getElem?_append_left (by omega), List.getLast?_eq_getElem?, ← h, Nat.add_sub_cancel]

variable (hopen : ∀ c, before.getLast? = some c → Text.isBlank c = true)
  (hword : ∀ c ∈ word, Text.isBlank c = false) (hclose : ∀ c, rest.head? = some c → Text.isBlank c = true)

include hword hclose

/-- a run that starts inside a word which ends is the whole word, -/
theorem IsRun.eq_word (h : IsRun (before ++ word ++ rest) start stop) (hstart : before.length ≤ start) :
    (word ≠ [] ∧ start = before.length ∧ stop = before.length + word.length) ∨ before.length + word.length < start := by
  -- no run goes over the end of the word,
  have hend : ¬ (start ≤ before.length + word.length ∧ before.length + word.length < stop) := by
    rintro ⟨hfirst, hlast⟩
    obtain ⟨c, hc, hfilled⟩ := h.filled _ hfirst hlast
    rw [getElem?_after_word] at hc
    rw [hclose c hc] at hfilled
    cases hfilled
  -- none ends within it,
  have hstop : ¬ (before.length ≤ stop ∧ stop < before.length + word.length) := by
    rintro ⟨hfirst, hlast⟩
    obtain ⟨c, hmem, hc⟩ := @getElem?_word before word rest _ hfirst hlast
    have hblank := h.closes c hc
    rw [hword c hmem] at hblank
    cases hblank
  -- and none starts after its first character
  have hfirst : ¬ (before.length < start ∧ start ≤ before.length + word.length) := by
    rintro ⟨hfirst, hlast⟩
    obtain ⟨c, hmem, hc⟩ := @getElem?_word before word rest (start - 1) (by omega) (by omega)
    have hblank := h.opens (start - 1) c (by omega) hc
    rw [hword c hmem] at hblank
    cases hblank
  have hlt := h.lt
  rcases Nat.lt_or_ge (before.length + word.length) start with hafter | hwithin
  · exact .inr hafter
  · have hne : word ≠ [] := by
      rintro rfl
      simp only [List.length_nil] at *
      omega
    exact .inl ⟨hne, by omega, by omega⟩

include hopen

/-- and the whole word is a run -/
theorem isRun_word (hne : word ≠ []) :
    IsRun (before ++ word ++ rest) before.length (before.length + word.length) := by
  have hlength := List.length_pos_iff.2 hne
  refine ⟨by omega, fun i hstart hstop => ?_, fun i c hi hc => ?_, fun c hc => ?_⟩
  · obtain ⟨c, hmem, hc⟩ := @getElem?_word before word rest i hstart hstop
    exact ⟨c, hc, hword c hmem⟩
  · rw [getElem?_before_word hi] at hc
    exact hopen c hc
  · rw [getElem?_after_word] at hc
    exact hclose c hc

end Closed

/-- the word of a run -/
theorem ofRun_word (before word rest : List Char) :
    ofRun (before ++ word ++ rest) before.length (before.length + word.length) =
      ⟨String.ofList word, before.length + 1⟩ := by
  have hlength : before.length + word.length = (before ++ word).length := List.length_append.symm
  rw [ofRun, hlength, List.take_left, List.drop_left]

/-! ## Scanning -/

/-- the word is that of a run which starts at a place or after it -/
def IsRunFrom (cs : List Char) (place : Nat) (t : Token) : Prop :=
  ∃ start stop, place ≤ start ∧ IsRun cs start stop ∧ t = ofRun cs start stop

variable {before word cs : List Char} {t : Token}

/-- past the last character there are no runs -/
theorem not_isRunFrom_of_le {place : Nat} (h : cs.length ≤ place) : ¬ IsRunFrom cs place t := by
  rintro ⟨start, stop, hstart, hrun, -⟩
  obtain ⟨c, hc, -⟩ := hrun.filled start le_rfl hrun.lt
  rw [List.getElem?_eq_none (h.trans hstart)] at hc
  cases hc

/-- **Where a word ends,** the runs from its start on are the word itself, unless it is empty, and those after it. -/
theorem isRunFrom_iff_of_closed {rest : List Char} (hopen : ∀ c, before.getLast? = some c → Text.isBlank c = true)
    (hword : ∀ c ∈ word, Text.isBlank c = false) (hclose : ∀ c, rest.head? = some c → Text.isBlank c = true) :
    IsRunFrom (before ++ word ++ rest) before.length t ↔
      (word ≠ [] ∧ t = ⟨String.ofList word, before.length + 1⟩) ∨
        IsRunFrom (before ++ word ++ rest) (before.length + word.length + 1) t := by
  constructor
  · rintro ⟨start, stop, hstart, hrun, rfl⟩
    rcases hrun.eq_word hword hclose hstart with ⟨hne, rfl, rfl⟩ | hafter
    · exact .inl ⟨hne, ofRun_word before word rest⟩
    · exact .inr ⟨start, stop, hafter, hrun, rfl⟩
  · rintro (⟨hne, rfl⟩ | ⟨start, stop, hstart, hrun, rfl⟩)
    · exact ⟨_, _, le_rfl, isRun_word hopen hword hclose hne, (ofRun_word before word rest).symm⟩
    · exact ⟨start, stop, by omega, hrun, rfl⟩

/-- one character of a scan: a blank ends the word that is being read, and any other character belongs to it -/
theorem mem_scan_cons_iff {column : Nat} {c : Char} :
    t ∈ scan column word (c :: cs) ↔
      if Text.isBlank c then
        (word.reverse ≠ [] ∧ t = ⟨String.ofList word.reverse, column - word.length⟩) ∨ t ∈ scan (column + 1) [] cs
      else t ∈ scan (column + 1) (c :: word) cs := by
  cases word with
  | nil => by_cases hblank : Text.isBlank c = true <;> simp [scan, hblank]
  | cons w word => by_cases hblank : Text.isBlank c = true <;> simp [scan, hblank]

/-- **Scanning finds the runs,** from the start of the word that is being read on. -/
theorem mem_scan_iff (hopen : ∀ c, before.getLast? = some c → Text.isBlank c = true)
    (hword : ∀ c ∈ word, Text.isBlank c = false) :
    t ∈ scan (before.length + word.length + 1) word cs ↔
      IsRunFrom (before ++ word.reverse ++ cs) before.length t := by
  induction cs generalizing before word with
  | nil =>
    have hreverse : ∀ c ∈ word.reverse, Text.isBlank c = false := fun c hc => hword c (List.mem_reverse.1 hc)
    have hnone : ¬ IsRunFrom (before ++ word.reverse ++ []) (before.length + word.reverse.length + 1) t :=
      not_isRunFrom_of_le (by simp)
    rw [isRunFrom_iff_of_closed hopen hreverse (by simp), or_iff_left hnone]
    cases word with
    | nil => simp [scan]
    | cons w word =>
      have hcolumn : before.length + (w :: word).length + 1 - (w :: word).length = before.length + 1 := by omega
      rw [scan, hcolumn, List.mem_singleton]
      simp
  | cons c cs ih =>
    rw [mem_scan_cons_iff]
    by_cases hblank : Text.isBlank c = true
    · have hreverse : ∀ c ∈ word.reverse, Text.isBlank c = false := fun c hc => hword c (List.mem_reverse.1 hc)
      have hclose : ∀ d, (c :: cs).head? = some d → Text.isBlank d = true := by
        intro d hd
        rwa [← Option.some.inj hd]
      have hrest := @ih (before ++ word.reverse ++ [c]) [] (by simpa using hblank) (by simp)
      have hline : before ++ word.reverse ++ [c] ++ [].reverse ++ cs = before ++ word.reverse ++ c :: cs := by simp
      have hlength : (before ++ word.reverse ++ [c]).length = before.length + word.length + 1 := by simp; omega
      have hcolumn : before.length + word.length + 1 - word.length = before.length + 1 := by omega
      rw [hline, hlength] at hrest
      rw [if_pos hblank, isRunFrom_iff_of_closed hopen hreverse hclose, hcolumn, List.length_reverse]
      exact or_congr_right hrest
    · have hnext : ∀ d ∈ c :: word, Text.isBlank d = false := List.forall_mem_cons.2 ⟨Bool.eq_false_iff.2 hblank, hword⟩
      have hrest := @ih before (c :: word) hopen hnext
      have hline : before ++ (c :: word).reverse ++ cs = before ++ word.reverse ++ c :: cs := by simp
      rw [hline] at hrest
      rw [if_neg hblank]
      exact hrest

theorem le_column_of_mem_scan {column : Nat} (h : t ∈ scan column word cs) : column ≤ t.column + word.length := by
  induction cs generalizing column word with
  | nil =>
    cases word with
    | nil => cases h
    | cons w word =>
      rw [scan, List.mem_singleton] at h
      subst h
      exact Nat.le_add_of_sub_le le_rfl
  | cons c cs ih =>
    rw [mem_scan_cons_iff] at h
    split at h
    · rcases h with ⟨-, rfl⟩ | h
      · exact Nat.le_add_of_sub_le le_rfl
      · have := ih h
        simp only [List.length_nil] at this
        omega
    · have := ih h
      simp only [List.length_cons] at this
      omega

/-- the words are found from left to right -/
theorem pairwise_scan (column : Nat) (word cs : List Char) : (scan column word cs).Pairwise (·.column < ·.column) := by
  induction cs generalizing column word with
  | nil =>
    cases word with
    | nil => exact .nil
    | cons w word => exact List.pairwise_singleton _ _
  | cons c cs ih =>
    by_cases hblank : Text.isBlank c = true
    · cases word with
      | nil =>
        rw [scan, if_pos hblank]
        exact ih (column + 1) []
      | cons w word =>
        rw [scan, if_pos hblank]
        refine (ih (column + 1) []).cons fun t ht => ?_
        have hright : column + 1 ≤ t.column := le_column_of_mem_scan ht
        exact (Nat.sub_le _ _).trans_lt hright
    · cases word with
      | nil =>
        rw [scan, if_neg hblank]
        exact ih (column + 1) [c]
      | cons w word =>
        rw [scan, if_neg hblank]
        exact ih (column + 1) (c :: w :: word)

/-! ## Lines -/

theorem mem_ofLine_iff {line : String} :
    t ∈ ofLine line ↔ ∃ start stop, IsRun (line.toList.takeWhile (· ≠ commentMark)) start stop ∧
      t = ofRun (line.toList.takeWhile (· ≠ commentMark)) start stop := by
  have hscan := @mem_scan_iff [] [] (line.toList.takeWhile (· ≠ commentMark)) t nofun (by simp)
  simp only [List.length_nil, List.reverse_nil, List.nil_append] at hscan
  refine hscan.trans ?_
  simp only [IsRunFrom, Nat.zero_le, true_and]

/-- the characters from the column of a word on begin with the word -/
theorem StandsIn.isPrefix {line : List Char} (h : t.StandsIn line) :
    0 < t.column ∧ t.text.toList <+: line.drop (t.column - 1) := by
  obtain ⟨before, after, rfl, hcolumn⟩ := h
  refine ⟨by omega, after, ?_⟩
  rw [hcolumn, Nat.add_sub_cancel, List.append_assoc, List.drop_left]

/-- **The words of a line are its runs** before the first mark of a comment, or all of its runs if there is no mark. They
are found from left to right, and a word stands in the line at its column. -/
theorem ofLine_finds_runs (line : String) :
    ∃ code comment, line.toList = code ++ comment ∧ '#' ∉ code ∧ (∀ c, comment.head? = some c → c = '#') ∧
      (∀ t, t ∈ ofLine line ↔ ∃ start stop, IsRun code start stop ∧ t = ofRun code start stop) ∧
      (ofLine line).Pairwise (·.column < ·.column) ∧
      ∀ t ∈ ofLine line, 0 < t.column ∧ t.text.toList <+: line.toList.drop (t.column - 1) := by
  refine ⟨line.toList.takeWhile (· ≠ commentMark), line.toList.dropWhile (· ≠ commentMark),
    List.takeWhile_append_dropWhile.symm, fun hmem => ?_, fun c hc => ?_, fun t => mem_ofLine_iff,
    pairwise_scan 1 [] _, fun t ht => (standsIn_of_mem_ofLine ht).isPrefix⟩
  · have hmark := List.mem_takeWhile_imp hmem
    exact absurd hmark (by decide)
  · have hmark := List.head?_dropWhile_not (fun c => decide (c ≠ commentMark)) line.toList
    rw [hc] at hmark
    exact not_not.1 (of_decide_eq_false hmark)

/-- words between blanks of several kinds, the last one cut off by a comment -/
def mixedLine : String := "\tnum é\u00a016# 5"

theorem mixedLine_is_read :
    ofLine mixedLine = [⟨"num", 2⟩, ⟨"é", 6⟩, ⟨"16", 8⟩] ∧ "16".toList <+: mixedLine.toList.drop 7 := by
  have hwords : ofLine mixedLine = [⟨"num", 2⟩, ⟨"é", 6⟩, ⟨"16", 8⟩] := by decide
  obtain ⟨code, comment, -, -, -, -, -, hplaced⟩ := ofLine_finds_runs mixedLine
  exact ⟨hwords, (hplaced ⟨"16", 8⟩ (by rw [hwords]; simp)).2⟩

end ByteMachine.Token

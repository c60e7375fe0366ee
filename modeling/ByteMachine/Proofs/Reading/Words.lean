/-
Words and lines put together and read back. A line made of words with one space between them is cut into exactly these
words, and a text made of lines with one line feed between them is cut into exactly these lines.

- `Token.map_text_ofLine`: the words of a line, in order, whatever their columns are.
- `Text.lines_intercalate`: the lines of a text.
-/
import Mathlib.Data.List.TakeWhile
import Mathlib.Tactic
import ByteMachine.Text.Split
import ByteMachine.Token

namespace ByteMachine

namespace Text

/-! ## Lines -/

/-- a text that can stand as one line among others: it is not empty and has neither a line feed nor a carriage return -/
structure IsLine (cs : List Char) : Prop where
  ne_nil : cs ≠ []
  no_feed : '\n' ∉ cs
  no_return : '\r' ∉ cs

theorem cut_of_notMem {separator : Char} {cs : List Char} (h : separator ∉ cs) : cut separator cs = (cs, []) := by
  induction cs with
  | nil => rfl
  | cons c cs ih =>
    obtain ⟨hc, hcs⟩ := List.ne_and_not_mem_of_not_mem_cons h
    have := ih hcs
    simp only [cut, List.foldr_cons] at this ⊢
    rw [this]
    simp [Ne.symm hc]

theorem cut_append_cons {separator : Char} {cs : List Char} (h : separator ∉ cs) (rest : List Char) :
    cut separator (cs ++ separator :: rest) = (cs, (cut separator rest).1 :: (cut separator rest).2) := by
  induction cs with
  | nil => simp [cut]
  | cons c cs ih =>
    obtain ⟨hc, hcs⟩ := List.ne_and_not_mem_of_not_mem_cons h
    have := ih hcs
    simp only [cut, List.cons_append, List.foldr_cons] at this ⊢
    rw [this]
    simp [Ne.symm hc]

/-- a character is a separator or stands in a piece -/
theorem mem_pieces (separator : Char) {cs : List Char} {c : Char} (h : c ∈ cs) :
    c = separator ∨ ∃ piece ∈ pieces separator cs, c ∈ piece := by
  induction cs with
  | nil => cases h
  | cons d cs ih =>
    by_cases hd : d = separator
    · have hpieces : pieces separator (d :: cs) = [] :: pieces separator cs := by
        simp [pieces, cut, hd]
      rcases List.mem_cons.1 h with rfl | h
      · exact Or.inl hd
      · rcases ih h with h | ⟨piece, hpiece, h⟩
        · exact Or.inl h
        · exact Or.inr ⟨piece, hpieces ▸ List.mem_cons_of_mem _ hpiece, h⟩
    · have hpieces : pieces separator (d :: cs) = (d :: (cut separator cs).1) :: (cut separator cs).2 := by
        simp [pieces, cut, hd]
      rw [hpieces]
      rcases List.mem_cons.1 h with rfl | h
      · exact Or.inr ⟨_, List.mem_cons_self, List.mem_cons_self⟩
      · rcases ih h with h | ⟨piece, hpiece, h⟩
        · exact Or.inl h
        · rcases List.mem_cons.1 hpiece with rfl | hpiece
          · exact Or.inr ⟨_, List.mem_cons_self, List.mem_cons_of_mem _ h⟩
          · exact Or.inr ⟨piece, List.mem_cons_of_mem _ hpiece, h⟩

/-- pieces without the separator are found again between the separators -/
theorem pieces_intercalate {separator : Char} {css : List (List Char)} (hne : css ≠ [])
    (h : ∀ cs ∈ css, separator ∉ cs) : pieces separator ([separator].intercalate css) = css := by
  induction css with
  | nil => exact absurd rfl hne
  | cons cs rest ih =>
    have hcs := h cs List.mem_cons_self
    cases rest with
    | nil => rw [List.intercalate_singleton, pieces, cut_of_notMem hcs]
    | cons next rest =>
      have hrest := ih (List.cons_ne_nil _ _) fun x hx => h x (List.mem_cons_of_mem _ hx)
      rw [List.intercalate_cons_cons, List.append_assoc, List.singleton_append, pieces, cut_append_cons hcs]
      exact congrArg (cs :: ·) hrest

/-- the pieces with the separators between them are the text -/
theorem intercalate_pieces (separator : Char) (cs : List Char) : [separator].intercalate (pieces separator cs) = cs := by
  induction cs with
  | nil => rfl
  | cons c cs ih =>
    have hcut : pieces separator cs = (cut separator cs).1 :: (cut separator cs).2 := rfl
    by_cases hc : c = separator
    · have hpieces : pieces separator (c :: cs) = [] :: pieces separator cs := by
        simp [pieces, cut, hc]
      rw [hpieces, hcut, List.intercalate_cons_cons, ← hcut, ih, hc]
      rfl
    · have hpieces : pieces separator (c :: cs) = (c :: (cut separator cs).1) :: (cut separator cs).2 := by
        simp [pieces, cut, hc]
      rw [hpieces]
      rw [hcut] at ih
      cases hrest : (cut separator cs).2 with
      | nil =>
        rw [hrest, List.intercalate_singleton] at ih
        rw [List.intercalate_singleton, ih]
      | cons piece rest =>
        rw [hrest, List.intercalate_cons_cons] at ih
        rw [List.intercalate_cons_cons, List.cons_append, List.cons_append, ih]

theorem map_pieces_intercalate {separator : Char} {mark : String} (hmark : mark.toList = [separator])
    {texts : List String} (hne : texts ≠ []) (h : ∀ text ∈ texts, separator ∉ text.toList) :
    (pieces separator (mark.intercalate texts).toList).map String.ofList = texts := by
  have hpieces := @pieces_intercalate separator (texts.map String.toList) (by simpa using hne) (by simpa using h)
  rw [String.toList_intercalate, hmark, hpieces]
  simp

theorem intercalate_map_pieces {separator : Char} {mark : String} (hmark : mark.toList = [separator]) (text : String) :
    mark.intercalate ((pieces separator text.toList).map String.ofList) = text := by
  rw [← String.toList_inj, String.toList_intercalate, hmark, List.map_map]
  simpa using intercalate_pieces separator text.toList

theorem dropReturn_of_notMem {cs : List Char} (h : '\r' ∉ cs) : dropReturn cs = cs := by
  unfold dropReturn
  rw [if_neg]
  exact fun hlast => h (List.mem_of_getLast? hlast)

theorem linesOfPieces_cut_intercalate (lines : List (List Char)) (h : ∀ cs ∈ lines, IsLine cs) :
    linesOfPieces (cut '\n' (['\n'].intercalate lines)).1 (cut '\n' (['\n'].intercalate lines)).2 = lines := by
  induction lines with
  | nil => rfl
  | cons cs rest ih =>
    have hcs := h cs List.mem_cons_self
    cases rest with
    | nil => simp [cut_of_notMem hcs.no_feed, linesOfPieces, hcs.ne_nil]
    | cons next rest =>
      have ih := ih fun x hx => h x (List.mem_cons_of_mem _ hx)
      rw [List.intercalate_cons_cons, List.append_assoc, List.singleton_append, cut_append_cons hcs.no_feed]
      simp only [linesOfPieces, dropReturn_of_notMem hcs.no_return]
      rw [ih]

theorem lines_intercalate (texts : List String) (h : ∀ text ∈ texts, IsLine text.toList) :
    lines ("\n".intercalate texts) = texts := by
  have hlines : ∀ cs ∈ texts.map String.toList, IsLine cs := by
    intro cs hcs
    obtain ⟨text, ht, rfl⟩ := List.mem_map.1 hcs
    exact h text ht
  have key := linesOfPieces_cut_intercalate _ hlines
  simp only [lines, String.toList_intercalate]
  rw [show "\n".toList = ['\n'] from rfl, key, List.map_map]
  simp

end Text

namespace Token

/-! ## Words -/

/-- the characters of a word: at least one, no blank, and none that starts a comment -/
structure IsWord (cs : List Char) : Prop where
  ne_nil : cs ≠ []
  no_blank : ∀ c ∈ cs, Text.isBlank c = false
  no_comment : commentMark ∉ cs

theorem isWord_of_all {cs : List Char} (hne : cs.isEmpty = false)
    (h : cs.all (fun c => !Text.isBlank c && c != commentMark) = true) : IsWord cs := by
  rw [List.all_eq_true] at h
  refine ⟨by simpa using hne, fun c hc => ?_, fun hc => ?_⟩
  · have := h c hc
    simp_all
  · have := h _ hc
    simp at this

/-- a word ends where it is no longer read, and has been read from blanks and comments apart -/
theorem isWord_of_mem_scan {column : Nat} {word cs : List Char} {t : Token}
    (hword : ∀ c ∈ word, Text.isBlank c = false ∧ c ≠ commentMark) (hcs : commentMark ∉ cs)
    (h : t ∈ scan column word cs) : IsWord t.text.toList := by
  have hread : ∀ w read, (∀ c ∈ w :: read, Text.isBlank c = false ∧ c ≠ commentMark) →
      IsWord (String.ofList (w :: read).reverse).toList := by
    intro w read hread
    rw [String.toList_ofList]
    refine ⟨by simp, fun c hc => (hread c (List.mem_reverse.1 hc)).1, fun hc => ?_⟩
    exact (hread _ (List.mem_reverse.1 hc)).2 rfl
  induction cs generalizing column word with
  | nil =>
    cases word with
    | nil => cases h
    | cons w word =>
      rw [scan, List.mem_singleton] at h
      rw [h]
      exact hread w word hword
  | cons c cs ih =>
    obtain ⟨hc, hcs⟩ := List.ne_and_not_mem_of_not_mem_cons hcs
    have hnone : ∀ d ∈ ([] : List Char), Text.isBlank d = false ∧ d ≠ commentMark := by simp
    by_cases hblank : Text.isBlank c = true
    · cases word with
      | nil =>
        rw [scan, if_pos hblank] at h
        exact ih hnone hcs h
      | cons w word =>
        rw [scan, if_pos hblank] at h
        rcases List.mem_cons.1 h with rfl | h
        · exact hread w word hword
        · exact ih hnone hcs h
    · have hnext : ∀ d ∈ c :: word, Text.isBlank d = false ∧ d ≠ commentMark :=
        List.forall_mem_cons.2 ⟨⟨Bool.eq_false_iff.2 hblank, hc.symm⟩, hword⟩
      cases word with
      | nil =>
        rw [scan, if_neg hblank] at h
        exact ih hnext hcs h
      | cons w word =>
        rw [scan, if_neg hblank] at h
        exact ih hnext hcs h

theorem isWord_of_mem_ofLine {line : String} {t : Token} (h : t ∈ ofLine line) : IsWord t.text.toList := by
  refine isWord_of_mem_scan (by simp) ?_ h
  intro hmem
  have hcomment := List.mem_takeWhile_imp hmem
  simp at hcomment

theorem scan_append (column : Nat) (word cs rest : List Char) (h : ∀ c ∈ cs, Text.isBlank c = false) :
    scan column word (cs ++ rest) = scan (column + cs.length) (cs.reverse ++ word) rest := by
  induction cs generalizing column word with
  | nil => simp
  | cons c cs ih =>
    have hc := h c List.mem_cons_self
    have ih := ih (column + 1) (c :: word) fun x hx => h x (List.mem_cons_of_mem _ hx)
    have hstep : scan column word (c :: (cs ++ rest)) = scan (column + 1) (c :: word) (cs ++ rest) := by
      cases word <;> simp [scan, hc]
    rw [List.cons_append, hstep, ih]
    simp only [List.length_cons, List.reverse_cons, List.append_assoc, List.singleton_append]
    congr 1
    omega

theorem isBlank_space : Text.isBlank ' ' = true := by decide

theorem map_text_scan (column : Nat) (words : List (List Char)) (h : ∀ cs ∈ words, IsWord cs) :
    (scan column [] ([' '].intercalate words)).map (·.text) = words.map String.ofList := by
  induction words generalizing column with
  | nil => simp [scan]
  | cons cs rest ih =>
    have hcs := h cs List.mem_cons_self
    -- a word is read from its last character back, so it must not be empty for the reading to end in a token
    obtain ⟨c, reversed, hrev⟩ : ∃ c reversed, cs.reverse = c :: reversed := by
      rw [← List.ne_nil_iff_exists_cons, ne_eq, List.reverse_eq_nil_iff]
      exact hcs.ne_nil
    have hword : (c :: reversed).reverse = cs := by rw [← hrev, List.reverse_reverse]
    cases rest with
    | nil =>
      rw [List.intercalate_singleton, ← List.append_nil cs, scan_append _ _ _ _ hcs.no_blank, hrev]
      simp [scan, ← hword]
    | cons next rest =>
      have ih := fun column => ih column fun x hx => h x (List.mem_cons_of_mem _ hx)
      rw [List.intercalate_cons_cons, List.append_assoc, scan_append _ _ _ _ hcs.no_blank, hrev]
      simp only [List.singleton_append, List.append_nil, scan, isBlank_space, if_true, List.map_cons, hword, ih]

theorem takeWhile_intercalate (words : List (List Char)) (h : ∀ cs ∈ words, IsWord cs) :
    ([' '].intercalate words).takeWhile (· ≠ commentMark) = [' '].intercalate words := by
  rw [List.takeWhile_eq_self_iff]
  induction words with
  | nil => simp
  | cons cs rest ih =>
    have ih := ih fun x hx => h x (List.mem_cons_of_mem _ hx)
    have hcs : ∀ c ∈ cs, decide (c ≠ commentMark) = true := by
      intro c hc
      have := (h cs List.mem_cons_self).no_comment
      exact decide_eq_true fun heq => this (heq ▸ hc)
    cases rest with
    | nil => simpa using hcs
    | cons next rest =>
      intro c hc
      rw [List.intercalate_cons_cons, List.append_assoc, List.mem_append, List.mem_append] at hc
      rcases hc with hc | hc | hc
      · exact hcs c hc
      · rw [List.mem_singleton] at hc
        subst hc
        decide
      · exact ih c hc

/-- **Words are read back.** A line of words with one space between them has exactly these words. -/
theorem map_text_ofLine (words : List String) (h : ∀ word ∈ words, IsWord word.toList) :
    (ofLine (" ".intercalate words)).map (·.text) = words := by
  have hwords : ∀ cs ∈ words.map String.toList, IsWord cs := by
    intro cs hcs
    obtain ⟨word, hw, rfl⟩ := List.mem_map.1 hcs
    exact h word hw
  rw [ofLine, String.toList_intercalate, show " ".toList = [' '] from rfl, takeWhile_intercalate _ hwords,
    map_text_scan _ _ hwords, List.map_map]
  simp

theorem mem_intercalate_space {words : List (List Char)} {c : Char} (h : c ∈ [' '].intercalate words) :
    c = ' ' ∨ ∃ cs ∈ words, c ∈ cs := by
  induction words with
  | nil => simp at h
  | cons cs rest ih =>
    cases rest with
    | nil => exact Or.inr ⟨cs, List.mem_cons_self, by simpa using h⟩
    | cons next rest =>
      rw [List.intercalate_cons_cons, List.append_assoc, List.mem_append, List.mem_append] at h
      rcases h with h | h | h
      · exact Or.inr ⟨cs, List.mem_cons_self, h⟩
      · exact Or.inl (List.mem_singleton.1 h)
      · rcases ih h with h | ⟨cs', hcs', h⟩
        · exact Or.inl h
        · exact Or.inr ⟨cs', List.mem_cons_of_mem _ hcs', h⟩

theorem intercalate_ne_nil {words : List (List Char)} (hne : words ≠ []) (h : ∀ cs ∈ words, IsWord cs) :
    [' '].intercalate words ≠ [] := by
  obtain ⟨cs, rest, rfl⟩ := List.ne_nil_iff_exists_cons.1 hne
  have hcs := (h cs List.mem_cons_self).ne_nil
  cases rest with
  | nil => simpa using hcs
  | cons next rest => simp [List.intercalate_cons_cons]

/-- words with one space between them make a line -/
theorem isLine_intercalate (words : List String) (hne : words ≠ []) (h : ∀ word ∈ words, IsWord word.toList) :
    Text.IsLine (" ".intercalate words).toList := by
  have hwords : ∀ cs ∈ words.map String.toList, IsWord cs := by
    intro cs hcs
    obtain ⟨word, hw, rfl⟩ := List.mem_map.1 hcs
    exact h word hw
  have hblank : ∀ c ∈ [' '].intercalate (words.map String.toList), c = ' ' ∨ Text.isBlank c = false := by
    intro c hc
    rcases mem_intercalate_space hc with rfl | ⟨cs, hcs, hc⟩
    · exact Or.inl rfl
    · exact Or.inr ((hwords cs hcs).no_blank c hc)
  rw [String.toList_intercalate, show " ".toList = [' '] from rfl]
  refine ⟨intercalate_ne_nil (by simpa using hne) hwords, fun hc => ?_, fun hc => ?_⟩
  · exact absurd (hblank _ hc) (by decide)
  · exact absurd (hblank _ hc) (by decide)

end Token

end ByteMachine

/-
Paths as they are written: pieces with slashes between them. A path with another name in place of its last piece names
another thing in the same directory, and a name has one stem.

- `FileName.pieces_inDirectory`: the pieces of a path whose last name is replaced.
- `FileName.hasStem_stem`, `FileName.HasStem.stem_eq`: what a name has before its extension.
-/
import Mathlib.Data.List.DropRight
import Mathlib.Tactic
import ByteMachine.Files.FileTree
import ByteMachine.Proofs.Attempt
import ByteMachine.Proofs.Reading.Lines

namespace ByteMachine

namespace FileTree

/-! ## Pieces -/

theorem pieces_eq (path : String) : pieces path = (Text.pieces '/' path.toList).map String.ofList := rfl

theorem slash_notMem_of_mem_pieces {path piece : String} (h : piece ∈ pieces path) : '/' ∉ piece.toList := by
  rw [pieces_eq] at h
  obtain ⟨cs, hcs, rfl⟩ := List.mem_map.1 h
  rw [String.toList_ofList]
  exact Text.notMem_of_mem_pieces '/' _ cs hcs

theorem pieces_intercalate {names : List String} (hne : names ≠ []) (h : ∀ name ∈ names, '/' ∉ name.toList) :
    pieces ("/".intercalate names) = names :=
  Text.map_pieces_intercalate rfl hne h

theorem intercalate_pieces (path : String) : "/".intercalate (pieces path) = path :=
  Text.intercalate_map_pieces rfl path

theorem pieces_of_notMem {name : String} (h : '/' ∉ name.toList) : pieces name = [name] := by
  have hpieces := @pieces_intercalate [name] (List.cons_ne_nil _ _) (by simpa using h)
  rwa [String.intercalate_singleton] at hpieces

theorem exists_pieces_eq (path : String) : ∃ way name, pieces path = way ++ [name] :=
  ⟨_, _, (List.dropLast_append_getLast (List.cons_ne_nil _ _)).symm⟩

end FileTree

namespace FileName

/-- a name that a file can have -/
structure IsName (name : String) : Prop where
  notIdle : isIdle name = false
  notUp : name ≠ ".."
  noSlash : '/' ∉ name.toList

variable {path name other kept extension first : String} {way rest : List String}

theorem IsName.ne_empty (h : IsName name) : name ≠ "" := by
  rintro rfl
  exact absurd h.notIdle (by decide)

/-! ## The directory of a path -/

theorem dropIdle_concat (h : isIdle name = false) : dropIdle (rest ++ [name]) = rest ++ [name] :=
  List.rdropWhile_concat_neg _ _ _ (by simp [h])

theorem dropIdle_concat_idle (h : isIdle name = true) : dropIdle (rest ++ [name]) = dropIdle rest :=
  List.rdropWhile_concat_pos _ _ _ h

theorem mem_of_mem_dropIdle (h : name ∈ dropIdle rest) : name ∈ rest :=
  (List.rdropWhile_prefix isIdle rest).subset h

theorem ne_empty_of_dropIdle {front : List String} (h : dropIdle rest = front ++ [name]) : name ≠ "" := by
  have hne : List.rdropWhile isIdle rest ≠ [] := by
    change dropIdle rest ≠ []
    rw [h]
    exact List.append_ne_nil_of_right_ne_nil _ (List.cons_ne_nil _ _)
  have hlast := List.rdropWhile_last_not isIdle rest hne
  have hlasteq : (List.rdropWhile isIdle rest).getLast hne = name := by
    change (dropIdle rest).getLast hne = name
    simp [h]
  rw [hlasteq] at hlast
  rintro rfl
  exact hlast rfl

/-- the directory of a path with one piece -/
theorem directory?_of_single (hpieces : FileTree.pieces path = [name]) (hname : IsName name) :
    directory? path = some "" := by
  obtain ⟨hfirst, hrest⟩ := List.cons.inj hpieces
  have hpair : pieces path = (name, []) := Prod.ext hfirst hrest
  rw [directory?, hpair]
  simp [dropIdle, hname.ne_empty]

/-- the directory of a path with more pieces -/
theorem directory?_of_pieces (hpieces : FileTree.pieces path = first :: way ++ [name]) (hname : IsName name) :
    directory? path = some (match dropIdle way with
      | [] => if first = "" then "/" else first
      | rest => "/".intercalate (first :: rest)) := by
  obtain ⟨hfirst, hrest⟩ := List.cons.inj hpieces
  have hpair : pieces path = (first, way ++ [name]) := Prod.ext hfirst hrest
  rw [directory?, hpair]
  dsimp only
  rw [dropIdle_concat hname.notIdle]
  cases hwhole : way ++ [name] with
  | nil => simp at hwhole
  | cons head tail =>
    have hway : (head :: tail).dropLast = way := by rw [← hwhole, List.dropLast_concat]
    dsimp only
    rw [hway]
    cases dropIdle way <;> rfl

theorem last?_of_pieces (hpieces : FileTree.pieces path = way ++ [name]) (hname : IsName name) : last? path = some name := by
  have hlast : (dropIdle (pieces path).2).getLast?.getD (pieces path).1 = name := by
    cases way with
    | nil =>
      obtain ⟨hfirst, hrest⟩ := List.cons.inj hpieces
      rw [hfirst, hrest]
      rfl
    | cons first way =>
      obtain ⟨hfirst, hrest⟩ := List.cons.inj hpieces
      have hrest : (pieces path).2 = way ++ [name] := hrest
      rw [hrest, dropIdle_concat hname.notIdle, List.getLast?_concat, Option.getD_some]
  rw [last?]
  simp only [hlast]
  rw [if_neg (by simp [hname.notIdle, hname.notUp])]

/-- a name in a directory that is written by its pieces -/
theorem inDirectory_intercalate {front : List String} {last : String} (hlast : last ≠ "") (hslash : '/' ∉ last.toList)
    (name : String) :
    inDirectory ("/".intercalate (front ++ [last])) name = "/".intercalate (front ++ [last] ++ [name]) := by
  obtain ⟨c, hc⟩ := Option.ne_none_iff_exists'.1 (by simpa using hlast : last.toList.getLast? ≠ none)
  have hend : ("/".intercalate (front ++ [last])).toList.getLast? = some c := by
    cases front with
    | nil => simpa using hc
    | cons first front =>
      rw [String.intercalate_append_of_ne_nil (List.cons_ne_nil _ _) (List.cons_ne_nil _ _)]
      simp [List.getLast?_append, List.getLast?_cons, hc]
  have hne : "/".intercalate (front ++ [last]) ≠ "" := by
    intro h
    rw [h] at hend
    cases hend
  have hnoslash : ("/".intercalate (front ++ [last])).toList.getLast? ≠ some '/' := by
    rw [hend]
    rintro ⟨⟩
    exact hslash (List.mem_of_getLast? hc)
  have hjoined := @String.intercalate_append_of_ne_nil (front ++ [last]) [name] "/"
    (List.append_ne_nil_of_right_ne_nil _ (List.cons_ne_nil _ _)) (List.cons_ne_nil _ _)
  rw [inDirectory, if_neg hne, if_neg hnoslash, hjoined, String.intercalate_singleton]

/-- the pieces of a path with another name in place of its last piece -/
theorem pieces_inDirectory (hpieces : FileTree.pieces path = first :: way ++ [name]) (hname : IsName name)
    (hother : '/' ∉ other.toList) :
    FileTree.pieces (inDirectory ((directory? path).getD ".") other) = first :: dropIdle way ++ [other] := by
  have hslash : ∀ piece ∈ first :: way, '/' ∉ piece.toList := by
    intro piece hpiece
    exact FileTree.slash_notMem_of_mem_pieces (hpieces ▸ List.mem_append_left _ hpiece)
  have hkept : ∀ piece ∈ first :: dropIdle way ++ [other], '/' ∉ piece.toList := by
    intro piece hpiece
    rcases List.mem_append.1 hpiece with hpiece | hpiece
    · rcases List.mem_cons.1 hpiece with rfl | hpiece
      · exact hslash _ List.mem_cons_self
      · exact hslash _ (List.mem_cons_of_mem _ (mem_of_mem_dropIdle hpiece))
    · rw [List.mem_singleton.1 hpiece]
      exact hother
  suffices hwritten : inDirectory ((directory? path).getD ".") other = "/".intercalate (first :: dropIdle way ++ [other]) by
    rw [hwritten]
    exact FileTree.pieces_intercalate (List.cons_ne_nil _ _) hkept
  rw [directory?_of_pieces hpieces hname, Option.getD_some]
  rcases List.eq_nil_or_concat' (dropIdle way) with hway | ⟨front, last, hway⟩
  · rw [hway]
    dsimp only
    split_ifs with hroot
    · rw [hroot]
      rfl
    · exact @inDirectory_intercalate [] first hroot (hslash _ List.mem_cons_self) other
  · have hlast : last ∈ dropIdle way := by simp [hway]
    have hjoined := @inDirectory_intercalate (first :: front) last (ne_empty_of_dropIdle hway)
      (hslash _ (List.mem_cons_of_mem _ (mem_of_mem_dropIdle hlast))) other
    rw [hway]
    cases front <;> exact hjoined

/-! ## Stems -/

/-- a name is all stem, or a stem and an extension after the last point; no extension begins with a point at the start of
the name -/
inductive HasStem : String → String → Prop
  | whole {name : String} : '.' ∉ name.toList.tail → HasStem name name
  | cut {stem extension : String} : stem ≠ "" → '.' ∉ extension.toList → HasStem (stem ++ "." ++ extension) stem

theorem stem_of_notMem {name : String} (h : '.' ∉ name.toList) : stem name = name := by
  have hkept : name.toList.reverse.dropWhile (fun c => decide (c ≠ '.')) = [] := by
    rw [List.dropWhile_eq_nil_iff]
    intro c hc
    rw [decide_eq_true_eq]
    rintro rfl
    exact h (List.mem_reverse.1 hc)
  rw [stem, hkept]
  rfl

theorem stem_of_split {name : String} {front back : List Char} (h : name.toList = front ++ '.' :: back)
    (hback : '.' ∉ back) : stem name = if front = [] then name else String.ofList front := by
  have hkept : name.toList.reverse.dropWhile (fun c => decide (c ≠ '.')) = '.' :: front.reverse := by
    rw [h, List.reverse_append, List.reverse_cons, List.append_assoc, List.singleton_append,
      List.dropWhile_append_of_pos, List.dropWhile_cons_of_neg]
    · simp
    · intro c hc
      rw [decide_eq_true_eq]
      rintro rfl
      exact hback (List.mem_reverse.1 hc)
  rw [stem, hkept, List.drop_one, List.tail_cons]
  split
  next hnone => rw [if_pos (List.reverse_eq_nil_iff.1 hnone)]
  next hsome => rw [if_neg (fun hnil => hsome (by rw [hnil, List.reverse_nil])), List.reverse_reverse]

/-- **The stem of a name** is what the name has before its extension, -/
theorem hasStem_stem (name : String) : HasStem name (stem name) := by
  by_cases hpoint : '.' ∈ name.toList
  · obtain ⟨back, front, hsplit, hback⟩ := List.eq_append_cons_of_mem (List.mem_reverse.2 hpoint)
    have hname : name.toList = front.reverse ++ '.' :: back.reverse := by
      rw [← List.reverse_reverse name.toList, hsplit]
      simp
    have hback : '.' ∉ back.reverse := by rwa [List.mem_reverse]
    rw [stem_of_split hname hback]
    split_ifs with hfront
    · refine .whole ?_
      rw [hname, hfront]
      exact hback
    · have hcut := @HasStem.cut (String.ofList front.reverse) (String.ofList back.reverse) (by simpa using hfront)
        (by simpa using hback)
      have hwritten : String.ofList front.reverse ++ "." ++ String.ofList back.reverse = name := by
        rw [← String.toList_inj, hname]
        simp
      rwa [hwritten] at hcut
  · rw [stem_of_notMem hpoint]
    exact .whole fun htail => hpoint (List.mem_of_mem_tail htail)

/-- and there is no other. -/
theorem HasStem.stem_eq {name kept : String} (h : HasStem name kept) : stem name = kept := by
  cases h with
  | whole htail =>
    by_cases hpoint : '.' ∈ name.toList
    · cases hname : name.toList with
      | nil =>
        rw [hname] at hpoint
        cases hpoint
      | cons c tail =>
        rw [hname] at hpoint htail
        obtain rfl | hmem := List.mem_cons.1 hpoint
        · rw [@stem_of_split name [] tail hname htail, if_pos rfl]
        · exact absurd hmem htail
    · exact stem_of_notMem hpoint
  | @cut _ extension hne hextension =>
    rw [@stem_of_split _ kept.toList extension.toList (by simp) hextension, if_neg (by simpa using hne)]
    exact String.ofList_toList

theorem HasStem.ne_empty (h : HasStem name kept) (hname : IsName name) : kept ≠ "" := by
  cases h with
  | whole => exact hname.ne_empty
  | cut hne => exact hne

/-- the stem with any other extension is a name again -/
theorem HasStem.isName (h : HasStem name kept) (hname : IsName name) (hne : extension ≠ "")
    (hslash : '/' ∉ extension.toList) : IsName (kept ++ "." ++ extension) := by
  have hkept : '/' ∉ kept.toList := by
    have hnoslash := hname.noSlash
    cases h with
    | whole => exact hnoslash
    | cut =>
      rw [String.toList_append, String.toList_append, List.append_assoc, List.mem_append, not_or] at hnoslash
      exact hnoslash.1
  -- three characters at least: that is neither a piece that says nothing nor the way up
  have hlength : 2 < (kept ++ "." ++ extension).toList.length := by
    have hkeptlength := List.length_pos_of_ne_nil (by simpa using h.ne_empty hname : kept.toList ≠ [])
    have hextensionlength := List.length_pos_of_ne_nil (by simpa using hne : extension.toList ≠ [])
    have hpoint : ".".toList.length = 1 := rfl
    rw [String.toList_append, String.toList_append, List.length_append, List.length_append, hpoint]
    omega
  refine ⟨?_, ?_, ?_⟩
  · rw [← Bool.not_eq_true, isIdle, Bool.or_eq_true, decide_eq_true_eq, decide_eq_true_eq]
    rintro (hempty | hpoint)
    · rw [hempty] at hlength
      exact absurd hlength (by decide)
    · rw [hpoint] at hlength
      exact absurd hlength (by decide)
  · intro hup
    rw [hup] at hlength
    exact absurd hlength (by decide)
  · simp [hkept, hslash]

/-- a name is kept by an extension exactly if it has that extension already -/
theorem HasStem.append_eq_iff (h : HasStem name kept) (hname : IsName name) (hextension : '.' ∉ extension.toList) :
    kept ++ "." ++ extension = name ↔ ∃ front, front ≠ "" ∧ name = front ++ "." ++ extension := by
  constructor
  · intro heq
    exact ⟨kept, h.ne_empty hname, heq.symm⟩
  · rintro ⟨front, hfront, rfl⟩
    rw [← h.stem_eq, (HasStem.cut hfront hextension).stem_eq]

end FileName

end ByteMachine

/-
What files hold. A file can be read where a path names it, and written where a path names something that is no directory.
A write changes what lies at one place, and all paths lead where they led.

- `FileTree.lookup_eq_file_iff`, `FileTree.writeFile_eq_ok_iff`: which files are read, and which are written.
- `FileTree.Wrote`: a tree with one file made or rewritten; `FileTree.Wrote.lookup_eq`, `FileTree.Wrote.lookup_other`: where
  paths lead in it.
-/
import Mathlib.Tactic
import ByteMachine.Proofs.Files.Places

namespace ByteMachine.FileTree

variable {tree after : FileTree} {path name : String} {way : List String} {place directory : Location}
  {content : List Byte}

/-! ## Reading and writing -/

theorem Names.ne_empty (h : tree.Names path directory name) : path ≠ "" := by
  rintro rfl
  obtain ⟨way, hpieces, -⟩ := h.route
  have hlast := congrArg List.getLast? hpieces
  rw [List.getLast?_concat] at hlast
  exact h.isName.ne_empty (Option.some.inj hlast).symm

theorem lookup_of_ne_empty (h : path ≠ "") :
    tree.lookup path = tree.walk path (pieces path) >>= fun place =>
      match tree.find? place with
      | none => .error .notFound
      | some node => .ok node := by
  simp [lookup, h]
  rfl

theorem writeFile_of_ne_empty (h : path ≠ "") :
    tree.writeFile path content = tree.walk path ((pieces path).rdropWhile (· = "")) >>= fun place =>
      if (pieces path).getLast? = some "" then .error .isDirectory
      else match tree.find? place with
      | some .directory => .error .isDirectory
      | _ => .ok (tree.put place (.file content)) := by
  simp [writeFile, h]
  rfl

theorem lookup_of_names (h : tree.Names path directory name) :
    tree.lookup path = match tree.find? (directory.child name) with
      | none => .error .notFound
      | some node => .ok node := by
  rw [lookup_of_ne_empty h.ne_empty, h.walk]
  rfl

/-- **Reading a file:** a path leads to it that names it in its directory. -/
theorem lookup_eq_file_iff :
    tree.lookup path = .ok (.file content) ↔
      ∃ directory name, tree.Names path directory name ∧ tree.find? (directory.child name) = some (.file content) := by
  constructor
  · intro h
    have hne : path ≠ "" := by
      rintro rfl
      cases h
    rw [lookup_of_ne_empty hne, Attempt.bind_eq_ok_iff] at h
    obtain ⟨place, hwalk, hfound⟩ := h
    have hfile : tree.find? place = some (.file content) := by
      cases hnode : tree.find? place with
      | none =>
        rw [hnode] at hfound
        cases hfound
      | some node =>
        rw [hnode] at hfound
        cases hfound
        rfl
    obtain ⟨directory, name, hnames, rfl⟩ := exists_names_of_walk hwalk (by rw [hfile]; nofun)
    exact ⟨directory, name, hnames, hfile⟩
  · rintro ⟨directory, name, hnames, hfile⟩
    rw [lookup_of_names hnames, hfile]

/-- text is read from the files that are valid UTF-8 -/
theorem readText_eq_ok_iff {text : String} :
    tree.readText path = .ok text ↔
      ∃ content, tree.lookup path = .ok (.file content) ∧ String.fromUTF8? content.toByteArray = some text := by
  rw [readText, Attempt.bind_eq_ok_iff]
  constructor
  · rintro ⟨node, hnode, htext⟩
    cases node with
    | directory => cases htext
    | file content =>
      refine ⟨content, hnode, ?_⟩
      dsimp only at htext
      split at htext
      next hdecoded =>
        rw [hdecoded, Except.ok.inj htext]
      next => cases htext
  · rintro ⟨content, hnode, hdecoded⟩
    refine ⟨.file content, hnode, ?_⟩
    simp only [hdecoded]
    rfl

theorem rdropWhile_pieces_of_names (h : tree.Names path directory name) :
    (pieces path).rdropWhile (· = "") = pieces path := by
  obtain ⟨way, hpieces, -⟩ := h.route
  rw [hpieces]
  exact List.rdropWhile_concat_neg _ _ _ (by simpa using h.isName.ne_empty)

theorem getLast?_pieces_of_names (h : tree.Names path directory name) : (pieces path).getLast? = some name := by
  obtain ⟨way, hpieces, -⟩ := h.route
  rw [hpieces, List.getLast?_concat]

/-- **Writing a file:** it can be done exactly where the path names something in a directory that is no directory itself,
and it puts the content there. -/
theorem writeFile_eq_ok_iff :
    tree.writeFile path content = .ok after ↔
      ∃ directory name, tree.Names path directory name ∧ tree.find? (directory.child name) ≠ some .directory ∧
        tree.put (directory.child name) (.file content) = after := by
  constructor
  · intro h
    have hne : path ≠ "" := by
      rintro rfl
      cases h
    rw [writeFile_of_ne_empty hne, Attempt.bind_eq_ok_iff] at h
    obtain ⟨place, hwalk, hwritten⟩ := h
    split_ifs at hwritten with hslash
    have hwhole : (pieces path).rdropWhile (· = "") = pieces path := by
      rw [List.rdropWhile_eq_self_iff]
      intro hne' hempty
      rw [List.getLast?_eq_some_getLast hne'] at hslash
      exact hslash (congrArg some (by simpa using hempty))
    rw [hwhole] at hwalk
    have hfree : tree.find? place ≠ some .directory := by
      intro hdirectory
      rw [hdirectory] at hwritten
      cases hwritten
    have hput : tree.put place (.file content) = after := by
      rcases hnode : tree.find? place with _ | _ | _
      · rw [hnode] at hwritten
        exact Except.ok.inj hwritten
      · exact absurd hnode hfree
      · rw [hnode] at hwritten
        exact Except.ok.inj hwritten
    obtain ⟨directory, name, hnames, rfl⟩ := exists_names_of_walk hwalk hfree
    exact ⟨directory, name, hnames, hfree, hput⟩
  · rintro ⟨directory, name, hnames, hfree, rfl⟩
    have hslash : (pieces path).getLast? ≠ some "" := by
      rw [getLast?_pieces_of_names hnames]
      exact fun h => hnames.isName.ne_empty (Option.some.inj h)
    rw [writeFile_of_ne_empty hnames.ne_empty, rdropWhile_pieces_of_names hnames, hnames.walk, Attempt.ok_bind,
      if_neg hslash]
    rcases hnode : tree.find? (directory.child name) with _ | _ | _
    · rfl
    · exact absurd hnode hfree
    · rfl

/-- the directory of a path that names something is there -/
theorem Names.pathExists (h : tree.Names path directory name) {above : String}
    (habove : FileName.directory? path = some above) (hne : above ≠ "") : tree.pathExists above = true := by
  rw [FileTree.pathExists, lookup_of_ne_empty hne, h.walk_directory habove hne, Attempt.ok_bind, h.isDirectory]
  rfl

/-! ## After a write -/

/-- what lies at a place after another thing was put somewhere -/
theorem find?_put (tree : FileTree) (node : Node) (h : place.names ≠ []) (other : Location) :
    (tree.put place node).find? other = if other = place then some node else tree.find? other := by
  by_cases hroot : other.names = []
  · have hne : other ≠ place := by
      rintro rfl
      exact h hroot
    rw [find?_of_nil hroot, if_neg hne, find?_of_nil hroot]
  · rw [find?, find?, if_neg hroot, if_neg hroot, put]
    by_cases hthere : tree.entries.any (·.1 = place) = true
    · rw [if_pos hthere, List.find?_map]
      have hkeys : ((fun entry : Location × Node => decide (entry.1 = other)) ∘ fun entry =>
          if entry.1 = place then (place, node) else entry) = fun entry => decide (entry.1 = other) := by
        funext entry
        by_cases hentry : entry.1 = place <;> simp [hentry]
      rw [hkeys]
      cases hfound : tree.entries.find? (·.1 = other) with
      | none =>
        have hne : other ≠ place := by
          rintro rfl
          obtain ⟨entry, hentry, hkey⟩ := List.any_eq_true.1 hthere
          exact List.find?_eq_none.1 hfound entry hentry hkey
        simp [hne]
      | some entry =>
        have hkey : entry.1 = other := by simpa using List.find?_some hfound
        by_cases hsame : other = place <;> simp [hkey, hsame]
    · rw [if_neg hthere, List.find?_append]
      by_cases hsame : other = place
      · have hnone : tree.entries.find? (·.1 = place) = none := by
          rw [List.find?_eq_none]
          exact fun entry hentry hkey => hthere (List.any_eq_true.2 ⟨entry, hentry, hkey⟩)
        simp [hsame, hnone]
      · simp [hsame, Ne.symm hsame]

/-- the trees before and after one file was made or rewritten: nothing else has changed -/
structure Wrote (tree : FileTree) (place : Location) (content : List Byte) (after : FileTree) : Prop where
  notDirectory : tree.find? place ≠ some .directory
  written : after.find? place = some (.file content)
  others : ∀ other ≠ place, after.find? other = tree.find? other

theorem wrote_put (hfree : tree.find? place ≠ some .directory) :
    tree.Wrote place content (tree.put place (.file content)) := by
  have hplace : place.names ≠ [] := fun hnil => hfree (find?_of_nil hnil)
  refine ⟨hfree, ?_, fun other hother => ?_⟩
  · rw [find?_put _ _ hplace, if_pos rfl]
  · rw [find?_put _ _ hplace, if_neg hother]

namespace Wrote

variable (h : tree.Wrote place content after)

include h

theorem find?_directory (hdirectory : tree.find? directory = some .directory) :
    after.find? directory = some .directory := by
  have hne : directory ≠ place := by
    rintro rfl
    exact h.notDirectory hdirectory
  rw [h.others _ hne, hdirectory]

/-- the file blocks no way, by induction on the steps of the way -/
theorem walk (hway : tree.walk path way = .ok directory) : after.walk path way = .ok directory := by
  induction way using List.reverseRecOn generalizing directory with
  | nil => exact hway
  | append_singleton way piece ih =>
    obtain ⟨before, hbefore, hdirectory, hnext⟩ := walk_concat.1 hway
    exact walk_concat.2 ⟨before, ih hbefore, h.find?_directory hdirectory, hnext⟩

theorem names (hnames : tree.Names path directory name) : after.Names path directory name := by
  obtain ⟨way, hpieces, hway⟩ := hnames.route
  exact ⟨hnames.isName, h.find?_directory hnames.isDirectory, way, hpieces, h.walk hway⟩

/-- every path that names another thing leads to what it led to -/
theorem lookup_other (hnames : tree.Names path directory name) (hother : directory.child name ≠ place) :
    after.lookup path = tree.lookup path := by
  rw [lookup_of_names (h.names hnames), lookup_of_names hnames, h.others _ hother]

end Wrote

/-- every path that names the file reads what was written -/
theorem Wrote.lookup_eq (h : tree.Wrote (directory.child name) content after) (hnames : tree.Names path directory name) :
    after.lookup path = .ok (.file content) := by
  rw [lookup_of_names (h.names hnames), h.written]

end ByteMachine.FileTree

/-
Places in a tree of files. A path is followed piece by piece through directories. What it leads to, unless that is a
directory, is named by its last piece in the directory that the others lead to, and a path with another last piece names
something in the same directory.

- `FileTree.Names`: a path that names something in a directory, and `FileTree.exists_names_of_walk`: every path to
  something that is no directory is one.
- `FileTree.Names.withExtension`: the same name with another extension.
-/
import Mathlib.Tactic
import ByteMachine.Proofs.Files.Paths

namespace ByteMachine

open FileName (IsName isIdle)

/-! ## Ways through a tree -/

namespace Location

/-- the place that has the name in this directory -/
def child (directory : Location) (name : String) : Location := { directory with names := directory.names ++ [name] }

variable {place directory other : Location} {piece name otherName : String}

theorem child_inj : directory.child name = other.child otherName ↔ directory = other ∧ name = otherName := by
  obtain ⟨origin, names⟩ := directory
  obtain ⟨origin', names'⟩ := other
  simp [child, and_assoc]

theorem enter_of_idle (h : isIdle piece = true) : place.enter piece = place := by
  rw [enter, if_pos h]

theorem enter_of_name (h : IsName name) : place.enter name = place.child name := by
  rw [enter, if_neg (by simp [h.notIdle]), if_neg h.notUp]
  rfl

end Location

namespace FileTree

variable {tree : FileTree} {path first name otherName : String} {way : List String} {place directory : Location}

theorem find?_of_nil (h : place.names = []) : tree.find? place = some .directory := by
  rw [find?, if_pos h]

theorem walk_nil : tree.walk path [] = .ok (Location.start path) := rfl

theorem walk_concat {piece : String} :
    tree.walk path (way ++ [piece]) = .ok place ↔
      ∃ before, tree.walk path way = .ok before ∧ tree.find? before = some .directory ∧ before.enter piece = place := by
  have hfollow : ∀ before, tree.follow before piece = .ok place ↔
      tree.find? before = some .directory ∧ before.enter piece = place := by
    intro before
    rw [follow]
    rcases tree.find? before with _ | _ | _ <;> simp
  simp only [walk, List.foldlM_append, Attempt.bind_eq_ok_iff, List.foldlM_cons, List.foldlM_nil]
  constructor
  · rintro ⟨before, hbefore, next, hnext, hplace⟩
    cases hplace
    exact ⟨before, hbefore, (hfollow before).1 hnext⟩
  · rintro ⟨before, hbefore, hnext⟩
    exact ⟨before, hbefore, place, (hfollow before).2 hnext, rfl⟩

/-- all that lies above the place are directories -/
def IsRooted (tree : FileTree) (place : Location) : Prop :=
  ∀ k < place.names.length, tree.find? ⟨place.origin, place.names.take k⟩ = some .directory

theorem IsRooted.parent (h : tree.IsRooted place) : tree.IsRooted place.parent := by
  obtain ⟨origin, names⟩ := place
  rw [Location.parent]
  split_ifs with hempty
  · cases origin with
    | root => exact h
    | above levels => exact nofun
  · intro k hk
    have hshort : k < names.length - 1 := by simpa using hk
    have htake : names.dropLast.take k = names.take k := by
      rw [List.dropLast_eq_take, List.take_take, Nat.min_eq_left (by omega)]
    have habove : k < names.length := by omega
    rw [← h k habove, htake]

/-- above a place under directories lies a directory -/
theorem IsRooted.find?_parent (h : tree.IsRooted place) : tree.find? place.parent = some .directory := by
  obtain ⟨origin, names⟩ := place
  rw [Location.parent]
  split_ifs with hempty
  · have hnil : names = [] := List.isEmpty_iff.1 hempty
    cases origin with
    | root => exact find?_of_nil hnil
    | above levels => exact find?_of_nil rfl
  · have hlength : names.length ≠ 0 := fun hzero => hempty (List.isEmpty_iff.2 (List.eq_nil_of_length_eq_zero hzero))
    simp only [List.dropLast_eq_take]
    exact h (names.length - 1) (by simp only; omega)

theorem IsRooted.child (h : tree.IsRooted directory) (hdirectory : tree.find? directory = some .directory) :
    tree.IsRooted (directory.child name) := by
  intro k hk
  rw [Location.child, List.length_append, List.length_singleton] at hk
  simp only [Location.child]
  rw [List.take_append_of_le_length (by omega)]
  by_cases hlast : k = directory.names.length
  · rw [hlast, List.take_length]
    exact hdirectory
  · exact h k (by omega)

/-- a walk stays under directories, by induction on its steps -/
theorem isRooted_of_walk (hslash : ∀ piece ∈ way, '/' ∉ piece.toList) (h : tree.walk path way = .ok place) :
    tree.IsRooted place := by
  induction way using List.reverseRecOn generalizing place with
  | nil =>
    rw [walk_nil] at h
    cases h
    rw [Location.start]
    split_ifs <;> exact nofun
  | append_singleton way piece ih =>
    obtain ⟨before, hbefore, hdirectory, rfl⟩ := walk_concat.1 h
    have hrooted := ih (fun piece' hpiece => hslash piece' (List.mem_append_left _ hpiece)) hbefore
    by_cases hidle : isIdle piece = true
    · rwa [Location.enter_of_idle hidle]
    · by_cases hup : piece = ".."
      · rw [Location.enter, if_neg hidle, if_pos hup]
        exact hrooted.parent
      · have hname : IsName piece := ⟨by simpa using hidle, hup, hslash piece (by simp)⟩
        rw [Location.enter_of_name hname]
        exact hrooted.child hdirectory

/-! ## Names in directories -/

/-- the path leads to a directory of the tree and then names something there, whether it is there or not -/
structure Names (tree : FileTree) (path : String) (directory : Location) (name : String) : Prop where
  isName : IsName name
  isDirectory : tree.find? directory = some .directory
  route : ∃ way, pieces path = way ++ [name] ∧ tree.walk path way = .ok directory

theorem Names.walk (h : tree.Names path directory name) : tree.walk path (pieces path) = .ok (directory.child name) := by
  obtain ⟨way, hpieces, hway⟩ := h.route
  rw [hpieces, walk_concat]
  exact ⟨directory, hway, h.isDirectory, Location.enter_of_name h.isName⟩

/-- a path names one thing in one directory -/
theorem Names.unique (h : tree.Names path directory name) {directory' : Location} {name' : String}
    (h' : tree.Names path directory' name') : directory' = directory ∧ name' = name := by
  have hwalk := h'.walk
  rw [h.walk] at hwalk
  exact Location.child_inj.1 (Except.ok.inj hwalk).symm

/-- what is no directory is named in one -/
theorem exists_names_of_walk (h : tree.walk path (pieces path) = .ok place) (hfree : tree.find? place ≠ some .directory) :
    ∃ directory name, tree.Names path directory name ∧ directory.child name = place := by
  obtain ⟨way, name, hpieces⟩ := exists_pieces_eq path
  have hslash : ∀ piece ∈ way ++ [name], '/' ∉ piece.toList := fun piece hpiece =>
    slash_notMem_of_mem_pieces (hpieces ▸ hpiece)
  rw [hpieces] at h
  obtain ⟨directory, hway, hdirectory, hplace⟩ := walk_concat.1 h
  have hidle : isIdle name = false := by
    by_contra hidle
    rw [Location.enter_of_idle (by simpa using hidle)] at hplace
    exact hfree (hplace ▸ hdirectory)
  have hup : name ≠ ".." := by
    rintro rfl
    have hrooted := isRooted_of_walk (fun piece hpiece => hslash piece (List.mem_append_left _ hpiece)) hway
    rw [Location.enter, if_neg (by simp [hidle]), if_pos rfl] at hplace
    exact hfree (hplace ▸ hrooted.find?_parent)
  have hname : IsName name := ⟨hidle, hup, hslash name (by simp)⟩
  rw [Location.enter_of_name hname] at hplace
  exact ⟨directory, name, ⟨hname, hdirectory, way, hpieces, hway⟩, hplace⟩

/-! ## Another name in the same directory -/

/-- a path of several pieces starts at the root if nothing stands before its first slash, -/
theorem start_of_pieces (h : pieces path = first :: way) (hway : way ≠ []) :
    Location.start path = if first = "" then ⟨.root, []⟩ else ⟨.above 0, []⟩ := by
  have hslash : '/' ∉ first.toList := slash_notMem_of_mem_pieces (h ▸ List.mem_cons_self)
  have hpath := intercalate_pieces path
  rw [h, String.intercalate_cons_of_ne_nil hway] at hpath
  have habsolute : FileName.isAbsolute path = true ↔ first = "" := by
    rw [FileName.isAbsolute, decide_eq_true_eq, ← hpath]
    cases hcs : first.toList with
    | nil => simp [String.toList_eq_nil_iff.1 hcs]
    | cons c cs =>
      have hc : c ≠ '/' := by
        rintro rfl
        exact hslash (hcs ▸ List.mem_cons_self)
      have hne : first ≠ "" := by
        rintro rfl
        cases hcs
      simp [hcs, hc, hne]
  simp only [Location.start, habsolute]

/-- and one of a single piece at the directory at hand -/
theorem start_of_single (h : pieces path = [first]) : Location.start path = ⟨.above 0, []⟩ := by
  have hslash : '/' ∉ first.toList := slash_notMem_of_mem_pieces (h ▸ List.mem_cons_self)
  have hpath := intercalate_pieces path
  rw [h, String.intercalate_singleton] at hpath
  rw [Location.start, if_neg]
  rw [FileName.isAbsolute, decide_eq_true_eq, ← hpath]
  exact fun hhead => hslash (List.mem_of_head? hhead)

/-- pieces that say nothing may be left out at the end of a way -/
theorem walk_dropIdle {path' : String} (hstart : Location.start path' = Location.start path)
    (h : tree.walk path (first :: way) = .ok directory) :
    tree.walk path' (first :: FileName.dropIdle way) = .ok directory := by
  induction way using List.reverseRecOn generalizing directory with
  | nil =>
    rw [walk, hstart]
    exact h
  | append_singleton way piece ih =>
    by_cases hidle : isIdle piece = true
    · rw [FileName.dropIdle_concat_idle hidle]
      rw [← List.cons_append, walk_concat] at h
      obtain ⟨before, hbefore, -, hnext⟩ := h
      rw [Location.enter_of_idle hidle] at hnext
      exact ih (hnext ▸ hbefore)
    · rw [FileName.dropIdle_concat (by simpa using hidle), walk, hstart]
      exact h

/-- **The same directory:** a path with another name in place of its last piece names that one where the path leads to. -/
theorem Names.inDirectory (h : tree.Names path directory name) (hother : IsName otherName) :
    tree.Names (FileName.inDirectory ((FileName.directory? path).getD ".") otherName) directory otherName := by
  obtain ⟨way, hpieces, hway⟩ := h.route
  refine ⟨hother, h.isDirectory, ?_⟩
  cases way with
  | nil =>
    rw [FileName.directory?_of_single hpieces h.isName, Option.getD_some, FileName.inDirectory, if_pos rfl]
    have hsingle := pieces_of_notMem hother.noSlash
    refine ⟨[], hsingle, ?_⟩
    rw [walk_nil] at hway ⊢
    rw [← hway, start_of_single hsingle, start_of_single hpieces]
  | cons first way =>
    have hwritten := FileName.pieces_inDirectory hpieces h.isName hother.noSlash
    refine ⟨first :: FileName.dropIdle way, hwritten, walk_dropIdle ?_ hway⟩
    rw [start_of_pieces hwritten (by simp), start_of_pieces hpieces (by simp)]

/-- the directory of a path, unless it is the one at hand, leads to where the path names something -/
theorem Names.walk_directory (h : tree.Names path directory name) {above : String}
    (habove : FileName.directory? path = some above) (hne : above ≠ "") :
    tree.walk above (pieces above) = .ok directory := by
  obtain ⟨way, hpieces, hway⟩ := h.route
  cases way with
  | nil =>
    rw [FileName.directory?_of_single hpieces h.isName] at habove
    exact absurd (Option.some.inj habove).symm hne
  | cons first way =>
    have hslash : ∀ piece ∈ first :: way, '/' ∉ piece.toList := by
      intro piece hpiece
      exact slash_notMem_of_mem_pieces (hpieces ▸ List.mem_append_left _ hpiece)
    have hstart := start_of_pieces hpieces (List.append_ne_nil_of_right_ne_nil _ (List.cons_ne_nil _ _))
    rw [FileName.directory?_of_pieces hpieces h.isName] at habove
    obtain rfl := Option.some.inj habove
    cases hkept : FileName.dropIdle way with
    | nil =>
      dsimp only
      split_ifs with hroot
      · have hwalk := @walk_dropIdle _ _ _ _ _ "/" (by rw [hstart, if_pos hroot]; rfl) hway
        rw [hkept, hroot] at hwalk
        -- the root is written with an idle piece after its slash
        exact (@walk_concat tree "/" [""] directory "").2 ⟨directory, hwalk, h.isDirectory, rfl⟩
      · have hsingle := pieces_of_notMem (hslash _ List.mem_cons_self)
        have hwalk := walk_dropIdle ((start_of_single hsingle).trans (by rw [hstart, if_neg hroot])) hway
        rw [hkept] at hwalk
        rwa [hsingle]
    | cons second rest =>
      dsimp only
      have hwritten : pieces ("/".intercalate (first :: second :: rest)) = first :: second :: rest := by
        refine pieces_intercalate (List.cons_ne_nil _ _) fun piece hpiece => ?_
        rcases List.mem_cons.1 hpiece with rfl | hpiece
        · exact hslash _ List.mem_cons_self
        · exact hslash _ (List.mem_cons_of_mem _ (FileName.mem_of_mem_dropIdle (hkept ▸ hpiece)))
      have hwalk := walk_dropIdle ((start_of_pieces hwritten (List.cons_ne_nil _ _)).trans hstart.symm) hway
      rw [hkept] at hwalk
      rwa [hwritten]

/-- a path with another extension names the stem with that extension, in the same directory -/
theorem Names.withExtension (h : tree.Names path directory name) {extension : String} (hne : extension ≠ "")
    (hslash : '/' ∉ extension.toList) :
    tree.Names (FileName.withExtension path extension) directory (FileName.stem name ++ "." ++ extension) := by
  obtain ⟨way, hpieces, -⟩ := h.route
  have hother := (FileName.hasStem_stem name).isName h.isName hne hslash
  rw [FileName.withExtension, FileName.last?_of_pieces hpieces h.isName]
  exact h.inDirectory hother

end FileTree

end ByteMachine

/-
Two images side by side. Drafts that match have the same names leading to the same addresses, so the second reading gives
the same bytes or ends for a like reason, and the lists of names differ by the names of the symbols only.

`assembleStatements` is the way from statements to an image, without texts. A text whose lines say statements has their
image (`assemble_agrees`).
-/
import Mathlib.Tactic
import ByteMachine.Proofs.Layout.Image
import ByteMachine.Proofs.Parallel.Drafts

namespace ByteMachine

open Attempt AssemblyError

/-- an error for a like reason, on a related line -/
def AssemblyError.Matches (r : Renaming) (lines : Nat → Nat → Prop) (e e' : AssemblyError) : Prop :=
  lines e.line e'.line ∧ e.cause.Matches r e'.cause

/-! ## Names with addresses -/

namespace LabelTable

/-- all names that lead to addresses, in the order of their bindings -/
def foundPaths (table : LabelTable) : List (Path × Word) :=
  table.entries.toList.filterMap fun entry => (table.resolve entry.name).toOption.map (entry.name, ·)

theorem Matches.foundPaths_eq {lines : Nat → Nat → Prop} {table table' : LabelTable} (h : table.Matches lines table') :
    table'.foundPaths = table.foundPaths := by
  have hnames : table'.entries.toList.map (·.name) = table.entries.toList.map (·.name) := by
    rw [← List.forall₂_eq_eq_eq, List.forall₂_map_left_iff, List.forall₂_map_right_iff]
    exact h.flip.imp fun _ _ hentry => hentry.name
  have hfound : ∀ table : LabelTable, table.foundPaths = (table.entries.toList.map (·.name)).filterMap fun name =>
      (table.resolve name).toOption.map (name, ·) := by
    intro table
    rw [List.filterMap_map]
    rfl
  rw [hfound, hfound, hnames, h.resolve_eq]

end LabelTable

namespace Draft

theorem foundSymbols_eq_map (draft : Draft) :
    draft.foundSymbols = draft.labels.foundPaths.map fun found => (draft.render found.1, found.2) := by
  rw [foundSymbols, LabelTable.foundPaths, List.map_filterMap]
  apply List.filterMap_congr
  intro entry _
  rw [Option.map_map]
  rfl

namespace Matches

variable {r : Renaming} {lines : Nat → Nat → Prop} {draft draft' : Draft} (texts texts' : List String)

/-! ## The second reading -/

theorem unresolved (h : draft.Matches r lines draft') {line line' : Nat} (hline : lines line line') (column column' : Nat)
    (reason : Unresolved) :
    (draft.unresolved texts line column reason).Matches r lines (draft'.unresolved texts' line' column' reason) := by
  refine ⟨hline, ?_, ?_⟩
  · cases reason <;> rfl
  · rintro rfl
    cases reason with
    | missing name => exact congrArg Cause.undefinedLabel (h.render_eq name)
    | cycle name => exact congrArg Cause.aliasCycle (h.render_eq name)

theorem checkEntry (h : draft.Matches r lines draft') {entry entry' : LabelTable.Entry}
    (hentry : entry.Matches lines entry') :
    Agree (AssemblyError.Matches r lines) (· = ·) (draft.checkEntry texts entry) (draft'.checkEntry texts' entry') := by
  rw [Draft.checkEntry, Draft.checkEntry, hentry.binding, hentry.name, h.labels.resolve_eq]
  cases entry.binding with
  | address value => exact .ok rfl
  | aliasOf target =>
    cases draft.labels.resolve entry.name with
    | ok address => exact .ok rfl
    | error reason => exact .error (h.unresolved texts texts' hentry.line 0 0 reason)

theorem resolveCell (h : draft.Matches r lines draft') {cell cell' : Cell} (hcell : cell.Matches lines cell') :
    Agree (AssemblyError.Matches r lines) (· = ·) (draft.resolveCell texts cell) (draft'.resolveCell texts' cell') := by
  cases hcell with
  | byte value => exact .ok rfl
  | half hline =>
    simp only [Draft.resolveCell, h.labels.resolve_eq]
    split
    · exact .ok rfl
    · exact .error (h.unresolved texts texts' hline _ _ _)

/-- **Matching drafts have the same bytes.** -/
theorem link (h : draft.Matches r lines draft') :
    Agree (AssemblyError.Matches r lines)
      (fun assembly assembly' => assembly'.bytes = assembly.bytes ∧ assembly'.mount = assembly.mount ∧
        assembly.symbols = draft.symbolList ∧ assembly'.symbols = draft'.symbolList)
      (draft.link texts) (draft'.link texts') := by
  refine (Agree.forM h.labels fun _ _ hentry => h.checkEntry texts texts' hentry).bind fun _ _ _ => ?_
  refine (Agree.mapM h.cells fun _ _ hcell => h.resolveCell texts texts' hcell).bind fun bytes bytes' hbytes => ?_
  rw [List.forall₂_eq_eq_eq] at hbytes
  exact .ok ⟨hbytes.symm, h.mount, rfl, rfl⟩

theorem symbolList_eq (h : draft.Matches .refl lines draft') : draft'.symbolList = draft.symbolList := by
  rw [Draft.symbolList_eq, Draft.symbolList_eq, foundSymbols_eq_map, foundSymbols_eq_map, h.labels.foundPaths_eq]
  simp only [h.render_eq]

/-- where no name changes, the images are the same -/
theorem link_eq (h : draft.Matches .refl lines draft') :
    Agree (AssemblyError.Matches .refl lines) (· = ·) (draft.link texts) (draft'.link texts') := by
  refine (h.link texts texts').mono (fun _ _ => id) ?_
  rintro ⟨bytes, mount, symbols⟩ ⟨bytes', mount', symbols'⟩ ⟨hbytes, hmount, hsymbols, hsymbols'⟩
  obtain rfl : bytes' = bytes := hbytes
  obtain rfl : mount' = mount := hmount
  obtain rfl : symbols' = symbols := hsymbols'.trans (h.symbolList_eq.trans hsymbols.symm)
  rfl

/-! ## Whole readings -/

protected theorem refl (draft : Draft) : draft.Matches .refl (· = ·) draft where
  mount := rfl
  symbols := draft.symbols.renamed_id.symm
  scope := rfl
  labels := List.forall₂_same.2 fun _ _ => ⟨rfl, rfl, rfl⟩
  cells := by
    refine List.forall₂_same.2 fun cell _ => ?_
    cases cell with
    | byte value => exact .byte value
    | half target half line column => exact .half rfl

end Matches

theorem symbols_start (mount : Word) : (start mount).symbols = ⟨#[anonymousName]⟩ := by
  simp [start, SymbolTable.intern, SymbolTable.empty]

theorem matches_start (r : Renaming) (lines : Nat → Nat → Prop) (mount : Word) :
    (start mount).Matches r lines (start mount) where
  mount := rfl
  symbols := by
    rw [symbols_start, SymbolTable.renamed, List.map_toArray, List.map_singleton, r.anonymous]
  scope := rfl
  labels := .nil
  cells := .nil

/-- the effect of statements, the first of which is that of the line with the given number -/
def addStatements (draft : Draft) (number : Nat) : List Statement → Except AssemblyError Draft
  | [] => .ok draft
  | statement :: statements => do
    let draft ← (draft.add number statement).mapError fun cause => ⟨number, 0, "", cause⟩
    draft.addStatements (number + 1) statements

/-- lines of text have the effect of their statements -/
theorem addLines_agrees {texts : List String} {statements : List Statement}
    (h : List.Forall₂ (fun text statement => Statement.parse text = .ok statement) texts statements) (number : Nat)
    (draft : Draft) :
    Agree (fun e e' => e'.line = e.line ∧ e'.cause = e.cause) (· = ·) (draft.addLines number texts)
      (draft.addStatements number statements) := by
  induction h generalizing draft number with
  | nil => exact .ok rfl
  | @cons text statement texts statements hparse _ ih =>
    rw [addLines, addStatements, addLine_of_parse hparse]
    refine Agree.bind (R := (· = ·)) ?_ ?_
    · cases draft.add number statement with
      | error cause => exact .error ⟨rfl, rfl⟩
      | ok next => exact .ok rfl
    · rintro next _ rfl
      exact ih _ _

end Draft

/-- the image of statements, one on each line, for a mount address -/
def assembleStatements (statements : List Statement) (mount : Word) : Except AssemblyError Assembly := do
  let draft ← (Draft.start mount).addStatements 1 statements
  draft.link []

/-- **A text has the image of what its lines say.** -/
theorem assemble_agrees {source : String} {statements : List Statement}
    (h : List.Forall₂ (fun text statement => Statement.parse text = .ok statement) (Text.lines source) statements)
    (mount : Word) :
    Agree (fun e e' => e'.line = e.line ∧ e'.cause = e.cause) (· = ·) (assemble source mount)
      (assembleStatements statements mount) := by
  refine (Draft.addLines_agrees h 1 (Draft.start mount)).bind ?_
  rintro draft _ rfl
  refine ((Draft.Matches.refl draft).link_eq (Text.lines source) []).mono ?_ fun _ _ => id
  rintro e e' ⟨hline, -, hcause⟩
  exact ⟨hline.symm, hcause rfl⟩

end ByteMachine

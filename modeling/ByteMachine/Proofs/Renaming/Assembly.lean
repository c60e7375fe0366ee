/-
Names are only names. When every identifier of a program is renamed and no two of them are merged, the program assembles
as before: the image has the same bytes, and its list of names is the old one with the new names. A program that does not
assemble still does not, and is at fault in the same line for the same kind of reason.

`assembly_of_renamed`: two readings of the statements side by side.
-/
import Mathlib.Tactic
import ByteMachine.Proofs.Parallel.Images
import ByteMachine.Proofs.Renaming.Symbols

namespace ByteMachine

open Attempt

def Identifier := {text : String // isIdentifier text = true}

instance : DecidableEq Identifier := inferInstanceAs (DecidableEq {text : String // isIdentifier text = true})

namespace Identifier

/-- a map of identifiers as a map of texts, where what is no identifier stays as it is -/
def extend (f : Identifier → Identifier) (text : String) : String :=
  if h : isIdentifier text = true then (f ⟨text, h⟩).1 else text

variable {f : Identifier → Identifier} {text : String}

theorem extend_of_identifier (h : isIdentifier text = true) : extend f text = (f ⟨text, h⟩).1 := dif_pos h

theorem extend_of_other (h : isIdentifier text ≠ true) : extend f text = text := dif_neg h

/-- a map that merges no two identifiers merges no two texts: an identifier goes to an identifier, and nothing else does -/
theorem extend_injective (hf : Function.Injective f) : Function.Injective (extend f) := by
  intro first second heq
  by_cases hfirst : isIdentifier first = true
  · rw [extend_of_identifier hfirst] at heq
    by_cases hsecond : isIdentifier second = true
    · rw [extend_of_identifier hsecond] at heq
      exact congrArg Subtype.val (hf (Subtype.ext heq))
    · rw [extend_of_other hsecond] at heq
      exact absurd (heq ▸ (f ⟨first, hfirst⟩).2) hsecond
  · rw [extend_of_other hfirst] at heq
    by_cases hsecond : isIdentifier second = true
    · rw [extend_of_identifier hsecond] at heq
      exact absurd (heq ▸ (f ⟨second, hsecond⟩).2) hfirst
    · rwa [extend_of_other hsecond] at heq

/-- the mark of a nameless namespace is no identifier, so no identifier becomes it -/
def toRenaming (f : Identifier → Identifier) (hf : Function.Injective f) : Renaming where
  apply := extend f
  injective := extend_injective hf
  anonymous := extend_of_other (by decide)

end Identifier

namespace Draft

variable {r : Renaming} {draft draft' : Draft}

theorem Matches.addStatements (h : draft.Matches r (· = ·) draft') (number : Nat) (statements : List Statement) :
    Agree (AssemblyError.Matches r (· = ·)) (Draft.Matches r (· = ·)) (draft.addStatements number statements)
      (draft'.addStatements number (statements.map (Statement.renamed r.apply))) := by
  induction statements generalizing draft draft' number with
  | nil => exact .ok h
  | cons statement statements ih =>
    have hadd := h.add (rfl : number = number) (.refl (statement.renamed r.apply))
    exact (hadd.mapError fun _ _ hcause => ⟨rfl, hcause⟩).bind fun _ _ hnext => ih hnext _

/-- the lists of names of two drafts that match, if all names can be told apart in a text -/
theorem Matches.perm_symbolList (h : draft.Matches r (· = ·) draft') (hempty : r.apply "" = "")
    (hclear : draft.symbols.All IsClear) :
    draft'.symbolList.Perm (draft.symbolList.map fun symbol => (renameText r.apply symbol.1, symbol.2)) := by
  have hrender : ∀ path, draft'.render path = renameText r.apply (draft.render path) := by
    intro path
    rw [render, h.symbols]
    exact Path.render_renamed hempty hclear path
  have hfound : draft'.foundSymbols = draft.foundSymbols.map fun symbol => (renameText r.apply symbol.1, symbol.2) := by
    rw [foundSymbols_eq_map, foundSymbols_eq_map, h.labels.foundPaths_eq, List.map_map]
    simp only [hrender]
    rfl
  calc draft'.symbolList.Perm draft'.foundSymbols := List.mergeSort_perm _ _
    _ = draft.foundSymbols.map fun symbol => (renameText r.apply symbol.1, symbol.2) := hfound
    List.Perm _ _ := (List.mergeSort_perm _ _).symm.map _

end Draft

/-- **Names are only names.** Identifiers of read lines can be renamed in any way that merges no two of them: the image
of the renamed lines has the same bytes, and the same names with every segment renamed and every tag as it was; and where
one of them has no image, neither has the other, for a reason of the same kind in the same line. The image of statements
is that of every text whose lines say them. -/
theorem assembly_of_renamed (f : Identifier → Identifier) (hf : Function.Injective f) (statements : List Statement)
    (hread : ∀ statement ∈ statements, ∃ text, Statement.parse text = .ok statement) (mount : Word) :
    Agree (fun e e' => e'.line = e.line ∧ e'.cause.kind = e.cause.kind)
        (fun assembly assembly' => assembly'.bytes = assembly.bytes ∧
          assembly'.symbols.Perm
            (assembly.symbols.map fun symbol => (renameText (Identifier.extend f) symbol.1, symbol.2)))
        (assembleStatements statements mount)
        (assembleStatements (statements.map (Statement.renamed (Identifier.extend f))) mount) ∧
      ∀ source said,
        List.Forall₂ (fun text statement => Statement.parse text = .ok statement) (Text.lines source) said →
          Agree (fun e e' => e'.line = e.line ∧ e'.cause = e.cause) (· = ·) (assemble source mount)
            (assembleStatements said mount) := by
  refine ⟨?_, fun source said hsaid => assemble_agrees hsaid mount⟩
  have hnames : ∀ statement ∈ statements, ∀ name ∈ statement.names, IsClear name := by
    intro statement hstatement name hname
    obtain ⟨text, htext⟩ := hread statement hstatement
    exact isClear_of_isIdentifier (Statement.identifiers_of_ofTokens htext name hname)
  have hstart : (Draft.start mount).symbols.All IsClear := by
    intro name hname
    rw [Draft.symbols_start, List.mem_singleton] at hname
    exact hname ▸ isClear_anonymousName
  let r := Identifier.toRenaming f hf
  have hrun := (Draft.matches_start r (· = ·) mount).addStatements 1 statements
  refine (hrun.strengthen.bind ?_).mono (fun e e' he => ⟨he.1.symm, he.2.1⟩) fun _ _ => id
  rintro draft draft' ⟨hmatches, hdraft, -⟩
  have hclear := Draft.all_addStatements hstart isClear_anonymousName hnames hdraft
  have hempty : Identifier.extend f "" = "" := Identifier.extend_of_other (by decide)
  refine (hmatches.link [] []).mono (fun _ _ => id) ?_
  rintro assembly assembly' ⟨hbytes, -, hsymbols, hsymbols'⟩
  rw [hsymbols, hsymbols']
  exact ⟨hbytes, hmatches.perm_symbolList hempty hclear⟩

/-- a label, a label in a nameless namespace, and the addresses of both -/
def twoLabels : List Statement :=
  [.label "a" .concealed, .scope (.enterPrivate none), .label "b" .concealed,
   .data [⟨.address ⟨.above 0, ["b"]⟩ .low, ⟨":b", 5⟩⟩, ⟨.address ⟨.above 1, ["a"]⟩ .low, ⟨":$.a", 8⟩⟩]]

/-- the one label takes the name of the other -/
def swapLabels : Identifier ≃ Identifier := Equiv.swap ⟨"a", by decide⟩ ⟨"b", by decide⟩

theorem twoLabels_renamed :
    ∃ assembly assembly', assembleStatements twoLabels 0x20 = .ok assembly ∧
      assembleStatements (twoLabels.map (Statement.renamed (Identifier.extend swapLabels))) 0x20 = .ok assembly' ∧
      assembly.bytes = [0x20, 0x20] ∧ assembly'.bytes = assembly.bytes ∧
      assembly'.symbols.Perm
        (assembly.symbols.map fun symbol => (renameText (Identifier.extend swapLabels) symbol.1, symbol.2)) := by
  have hread : ∀ statement ∈ twoLabels, ∃ text, Statement.parse text = .ok statement := by
    simp only [twoLabels, List.forall_mem_cons]
    exact ⟨⟨".a", by decide +kernel⟩, ⟨"private namespace", by decide +kernel⟩, ⟨".b", by decide +kernel⟩,
      ⟨"dat :b :$.a", by decide +kernel⟩, by simp⟩
  obtain ⟨hagree, -⟩ := assembly_of_renamed swapLabels swapLabels.injective twoLabels hread 0x20
  have hbytes : (assembleStatements twoLabels 0x20).map (·.bytes) = .ok [0x20, 0x20] := by decide +kernel
  cases h : assembleStatements twoLabels 0x20 with
  | error e => simp [h, Except.map] at hbytes
  | ok assembly =>
    rw [h] at hagree hbytes
    generalize assembleStatements (twoLabels.map _) 0x20 = result at hagree
    cases hagree with
    | ok hsame => exact ⟨assembly, _, rfl, rfl, Except.ok.inj hbytes, hsame.1, hsame.2⟩

end ByteMachine

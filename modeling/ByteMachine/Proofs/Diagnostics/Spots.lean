/-
Where a text is rejected. Every rejection is at a line that has words, quotes that line, and is at one of its words or, in
column 0, at the line as a whole. The first reading finds out of a line what is wrong with it, and leaves with every
binding and every cell where it was written, so the second reading can tell that as well.

- `Text.Spot`: a line with words, and the column of one of them.
- `Draft.Spotted`: every binding and every cell was written somewhere.
- `spot_of_assemble`: where a text is rejected.
-/
import Mathlib.Tactic
import ByteMachine.Assembly.Image
import ByteMachine.Proofs.InStep
import ByteMachine.Proofs.Layout.Places
import ByteMachine.Proofs.Reading.Columns

namespace ByteMachine

open Attempt

/-- the line with that number, which has words, and the column of one of them or 0 -/
structure Text.Spot (texts : List String) (number column : Nat) (text : String) : Prop where
  positive : 1 ≤ number
  line : texts[number - 1]? = some text
  words : Token.ofLine text ≠ []
  column : column = 0 ∨ ∃ t ∈ Token.ofLine text, column = t.column

/-- the error is at a line of the text, which it quotes -/
def AssemblyError.IsAt (texts : List String) (e : AssemblyError) : Prop := Text.Spot texts e.line e.column e.text

/-! ## Lines with words -/

namespace Statement

variable {text : String}

theorem words_of_parse_error {complaint : Complaint} (h : parse text = .error complaint) : Token.ofLine text ≠ [] := by
  intro hnone
  rw [parse, hnone, ofTokens] at h
  cases h

theorem words_of_parse {statement : Statement} (h : parse text = .ok statement) (hblank : statement ≠ .blank) :
    Token.ofLine text ≠ [] := by
  intro hnone
  rw [parse, hnone, ofTokens] at h
  exact hblank (Except.ok.inj h).symm

end Statement

namespace Draft

open Layout

variable {texts : List String} {draft next : Draft} {number : Nat} {text : String}

/-- every binding and every cell was written at a line with words -/
structure Spotted (texts : List String) (draft : Draft) : Prop where
  entries : ∀ entry ∈ draft.labels.entries.toList, ∃ text, Text.Spot texts entry.line 0 text
  cells : ∀ target half line column, Cell.half target half line column ∈ draft.cells.toList →
    ∃ text, Text.Spot texts line column text

theorem spotted_start (texts : List String) (mount : Word) : (start mount).Spotted texts where
  entries := nofun
  cells := nofun

/-! ## The first reading -/

/-- the bytes of a statement are written on its line, and those of its operands at their words -/
theorem column_of_mem_emitted {space : Space} {statement : Statement} {emitted : Emitted}
    (h : emitted ∈ space.emitted number statement) :
    emitted.number = number ∧
      (emitted.column = 0 ∨ ∃ argument ∈ statement.arguments, emitted.column = argument.token.column) := by
  have hoperands : ∀ arguments : List Argument, emitted ∈ arguments.map (space.emittedOperand number) →
      emitted.number = number ∧
        (emitted.column = 0 ∨ ∃ argument ∈ arguments, emitted.column = argument.token.column) := by
    intro arguments hmem
    obtain ⟨argument, hargument, rfl⟩ := List.mem_map.1 hmem
    exact ⟨rfl, .inr ⟨argument, hargument, rfl⟩⟩
  cases statement with
  | data arguments => exact hoperands arguments h
  | instruction op arguments =>
    rcases List.mem_cons.1 h with rfl | hrest
    · exact ⟨rfl, .inl rfl⟩
    · exact hoperands arguments hrest
  | _ => cases h

theorem Spotted.add (h : draft.Spotted texts) {statement : Statement} (hwhole : Text.Spot texts number 0 text)
    (hread : Statement.ReadFrom (Token.ofLine text) statement.arguments)
    (hadd : draft.add number statement = .ok next) : next.Spotted texts := by
  obtain ⟨⟨entries, hentries, hlines⟩, ⟨cells, hcells, hstands⟩⟩ := leaves_add Space.initial hadd
  constructor
  · intro entry hentry
    rw [hentries, List.mem_append] at hentry
    rcases hentry with hold | hnew
    · exact h.entries entry hold
    · rw [hlines entry hnew]
      exact ⟨text, hwhole⟩
  · intro target half line column hcell
    rw [hcells, List.mem_append] at hcell
    rcases hcell with hold | hnew
    · exact h.cells target half line column hold
    · obtain ⟨emitted, hemitted, hstand⟩ := InStep.exists_right hstands hnew
      cases hstand
      obtain ⟨hnumber, hcolumn⟩ := column_of_mem_emitted hemitted
      refine ⟨text, hnumber ▸ hwhole.positive, hnumber ▸ hwhole.line, hwhole.words, ?_⟩
      rcases hcolumn with hzero | ⟨argument, hargument, hcolumn⟩
      · exact .inl hzero
      · exact .inr ⟨argument.token, hread argument hargument, hcolumn⟩

/-- **A line that is not read is rejected where it is,** and one that is read leaves behind where it is. -/
theorem Spotted.addLine (h : draft.Spotted texts) (hpositive : 1 ≤ number) (hline : texts[number - 1]? = some text) :
    Ends (AssemblyError.IsAt texts) (Spotted texts) (draft.addLine number text) := by
  have hblames := Statement.blames_parse text
  cases hparse : Statement.parse text with
  | error complaint =>
    rw [hparse] at hblames
    have hwords := Statement.words_of_parse_error hparse
    rw [Draft.addLine, Statement.parseLine, hparse]
    exact .error ⟨hpositive, hline, hwords, hblames.of_error⟩
  | ok statement =>
    rw [hparse] at hblames
    rw [addLine_of_parse hparse]
    by_cases hblank : statement = .blank
    · rw [hblank]
      exact .ok h
    · have hwords := Statement.words_of_parse hparse hblank
      have hwhole : Text.Spot texts number 0 text := ⟨hpositive, hline, hwords, .inl rfl⟩
      cases hadd : draft.add number statement with
      | error cause => exact .error hwhole
      | ok next => exact .ok (h.add hwhole hblames.of_ok hadd)

theorem Spotted.addLines (h : draft.Spotted texts) (before : List String) {after : List String}
    (htexts : texts = before ++ after) (hnumber : number = before.length + 1) :
    Ends (AssemblyError.IsAt texts) (Spotted texts) (draft.addLines number after) := by
  induction after generalizing draft before number with
  | nil => exact .ok h
  | cons text after ih =>
    have hline : texts[number - 1]? = some text := by rw [htexts, hnumber]; simp
    refine (h.addLine (by omega) hline).bind fun next hnext => ?_
    exact ih hnext (before ++ [text]) (by simp [htexts]) (by simp [hnumber])

theorem ends_ofLines (texts : List String) (mount : Word) :
    Ends (AssemblyError.IsAt texts) (Spotted texts) (ofLines texts mount) :=
  (spotted_start texts mount).addLines [] rfl rfl

/-! ## The second reading -/

theorem isAt_unresolved {column : Nat} (h : Text.Spot texts number column text) (reason : Unresolved) :
    (draft.unresolved texts number column reason).IsAt texts := by
  have htext : (draft.unresolved texts number column reason).text = text := by
    simp only [unresolved, List.getD_eq_getElem?_getD, h.line, Option.getD_some]
  rw [AssemblyError.IsAt, htext]
  exact h

theorem Spotted.link (h : draft.Spotted texts) : Ends (AssemblyError.IsAt texts) (fun _ => True) (draft.link texts) := by
  have hentries : Ends (AssemblyError.IsAt texts) (fun _ => True)
      (draft.labels.entries.toList.forM (draft.checkEntry texts)) := by
    refine Ends.forM fun entry hentry => ?_
    obtain ⟨text, hspot⟩ := h.entries entry hentry
    unfold checkEntry
    split
    · exact .ok trivial
    · split
      · exact .ok trivial
      · exact .error (isAt_unresolved hspot _)
  have hcells : Ends (AssemblyError.IsAt texts) (fun _ => True) (draft.cells.toList.mapM (draft.resolveCell texts)) := by
    refine Ends.mapM fun cell hcell => ?_
    cases cell with
    | byte value => exact .ok trivial
    | half target half line column =>
      obtain ⟨text, hspot⟩ := h.cells target half line column hcell
      unfold resolveCell
      dsimp only
      split
      · exact .ok trivial
      · exact .error (isAt_unresolved hspot _)
  exact hentries.bind fun _ _ => hcells.bind fun _ _ => .ok trivial

end Draft

/-- **A text is rejected at one of its lines,** at a word of it or at the line as a whole. -/
theorem spot_of_assemble {source : String} {mount : Word} {e : AssemblyError} (h : assemble source mount = .error e) :
    e.IsAt (Text.lines source) := by
  have hends : Ends (AssemblyError.IsAt (Text.lines source)) (fun _ => True) (assemble source mount) :=
    (Draft.ends_ofLines _ mount).bind fun _ hspotted => hspotted.link
  rw [h] at hends
  exact hends.of_error

end ByteMachine

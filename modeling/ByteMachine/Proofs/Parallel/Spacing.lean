/-
Spacing does not matter. A reading sees the words of a line, not the blanks and the comment around them and not how the
line ends, and a line without words does nothing. Two texts with the same words on each line have the same image, or are
rejected for the same reason on the same line. Where lines without words are put in or left out as well, only the numbers
of the lines change.

- `Draft.Matches.addLines_same`, `Draft.Matches.addLines_written`: two readings side by side.
- `assemble_ignores_spacing`: the images of two texts.
-/
import Mathlib.Tactic
import ByteMachine.Proofs.Parallel.Words

namespace ByteMachine

open Attempt

def Text.wordsByLine (source : String) : List (List String) := (Text.lines source).map Token.words

def Text.written (texts : List String) : List String := texts.filter fun text => Token.words text ≠ []

/-! ## Two readings -/

namespace Draft

variable {draft draft' : Draft} {number number' : Nat} {text : String} {texts texts' : List String}

theorem addLine_of_wordless (h : Token.words text = []) : draft.addLine number text = .ok draft := by
  have htokens : Token.ofLine text = [] := List.map_eq_nil_iff.1 h
  have hparse : Statement.parse text = .ok .blank := by rw [Statement.parse, htokens, Statement.ofTokens]
  exact addLine_eq_ok_iff.2 ⟨.blank, hparse, rfl⟩

theorem addLines_of_wordless (h : ∀ text ∈ texts, Token.words text = []) : draft.addLines number texts = .ok draft := by
  induction texts generalizing number with
  | nil => rfl
  | cons text texts ih =>
    have hfirst : draft.addLine number text = .ok draft := addLine_of_wordless (h text List.mem_cons_self)
    exact addLines_cons_eq_ok_iff.2 ⟨draft, hfirst, ih fun text htext => h text (List.mem_cons_of_mem _ htext)⟩

/-- the same words on each line -/
theorem Matches.addLines_same (h : draft.Matches .refl (· = ·) draft')
    (hwords : List.Forall₂ (fun text text' => Token.words text = Token.words text') texts texts') :
    Agree (fun e e' => e.line = e'.line ∧ e'.cause = e.cause) (Draft.Matches .refl (· = ·))
      (draft.addLines number texts) (draft'.addLines number texts') := by
  induction hwords generalizing draft draft' number with
  | nil => exact .ok h
  | cons hfirst _ ih => exact (h.addLine rfl hfirst).bind fun _ _ hnext => ih hnext

/-- the same words on each line that has any -/
theorem Matches.addLines_written (h : draft.Matches .refl anyLines draft')
    (hwords : (Text.written texts).map Token.words = (Text.written texts').map Token.words) :
    Agree (fun e e' => e'.cause = e.cause) (Draft.Matches .refl anyLines) (draft.addLines number texts)
      (draft'.addLines number' texts') := by
  induction texts generalizing draft draft' number number' texts' with
  | nil =>
    have hnone : Text.written texts' = [] := List.map_eq_nil_iff.1 hwords.symm
    have hwordless : ∀ text ∈ texts', Token.words text = [] := by simpa [Text.written] using hnone
    rw [addLines_of_wordless hwordless]
    exact .ok h
  | cons text texts ih =>
    by_cases hblank : Token.words text = []
    · have hskip : Text.written (text :: texts) = Text.written texts := by simp [Text.written, hblank]
      rw [Draft.addLines, addLine_of_wordless hblank]
      exact ih h (hskip ▸ hwords)
    · have hkeep : Text.written (text :: texts) = text :: Text.written texts := by simp [Text.written, hblank]
      rw [hkeep, List.map_cons] at hwords
      -- the other text comes to the line with the same words behind lines without any
      obtain ⟨text', rest, hcut, hfirst, hrest⟩ := List.map_eq_cons_iff.1 hwords.symm
      obtain ⟨before, after, rfl, hbefore, -, hafter⟩ := List.filter_eq_cons_iff.1 hcut
      have hwordless : ∀ text ∈ before, Token.words text = [] := by simpa using hbefore
      rw [addLines_append, addLines_of_wordless hwordless, ok_bind, Draft.addLines, Draft.addLines]
      have hplaced : anyLines number (number' + before.length) := trivial
      have hline := (h.addLine hplaced hfirst.symm).mono (fun _ _ herror => herror.2) fun _ _ => id
      exact hline.bind fun _ _ hnext => ih hnext (hrest.symm.trans (congrArg _ hafter.symm))

end Draft

/-! ## Two texts -/

/-- **Spacing does not matter.** Texts with the same words on each line have the same image at every mount, or are both
rejected, for the same reason on the same line. Texts with the same words on each line that has any have the same image
as well, wherever their lines without words stand, or are both rejected for the same reason. -/
theorem assemble_ignores_spacing (source source' : String) (mount : Word) :
    (Text.wordsByLine source = Text.wordsByLine source' →
      Agree (fun e e' => e.line = e'.line ∧ e'.cause = e.cause) (· = ·) (assemble source mount)
        (assemble source' mount)) ∧
    ((Text.wordsByLine source).filter (· ≠ []) = (Text.wordsByLine source').filter (· ≠ []) →
      Agree (fun e e' => e'.cause = e.cause) (· = ·) (assemble source mount) (assemble source' mount)) := by
  constructor
  · intro hwords
    have hlines : List.Forall₂ (fun text text' => Token.words text = Token.words text') (Text.lines source)
        (Text.lines source') := by
      rwa [Text.wordsByLine, Text.wordsByLine, ← List.forall₂_eq_eq_eq, List.forall₂_map_left_iff,
        List.forall₂_map_right_iff] at hwords
    refine ((Draft.matches_start .refl (· = ·) mount).addLines_same hlines).bind ?_
    intro draft draft' hmatches
    exact (hmatches.link_eq _ _).mono (fun e e' herror => ⟨herror.1, herror.2.2 rfl⟩) fun _ _ => id
  · intro hwords
    have hlines : (Text.written (Text.lines source)).map Token.words =
        (Text.written (Text.lines source')).map Token.words := by
      simpa [Text.wordsByLine, Text.written, List.filter_map, Function.comp_def] using hwords
    refine ((Draft.matches_start .refl anyLines mount).addLines_written hlines).bind ?_
    intro draft draft' hmatches
    exact (hmatches.link_eq _ _).mono (fun e e' herror => herror.2.2 rfl) fun _ _ => id

/-- a jump over a line without words -/
def wideJump : String := "jmp %end # away\n\n.end"

/-- the same with other blanks, other comments and other line ends -/
def tabbedJump : String := "\tjmp\u00a0%end\r\n \r\n.end# here"

/-- the same without the line between -/
def tightJump : String := "jmp %end\n.end"

theorem wideJump_ignores_spacing :
    Text.wordsByLine wideJump = Text.wordsByLine tabbedJump ∧
      Agree (fun e e' => e.line = e'.line ∧ e'.cause = e.cause) (· = ·) (assemble "dat 1\nnum a" 0x10)
        (assemble "dat 1#\r\n num  a" 0x10) ∧
      ∃ assembly, assemble wideJump 0x10 = .ok assembly ∧ assemble tabbedJump 0x10 = .ok assembly ∧
        assemble tightJump 0x10 = .ok assembly ∧ assembly.bytes = [Opcode.jmp.code, 0x13, 0x00] := by
  have hsame : Text.wordsByLine wideJump = Text.wordsByLine tabbedJump := by decide +kernel
  have hwritten : (Text.wordsByLine wideJump).filter (· ≠ []) = (Text.wordsByLine tightJump).filter (· ≠ []) := by
    decide +kernel
  have hrejected := (assemble_ignores_spacing "dat 1\nnum a" "dat 1#\r\n num  a" 0x10).1 (by decide +kernel)
  have htabbed := (assemble_ignores_spacing wideJump tabbedJump 0x10).1 hsame
  have htight := (assemble_ignores_spacing wideJump tightJump 0x10).2 hwritten
  have hbytes : (assemble wideJump 0x10).map (·.bytes) = .ok [Opcode.jmp.code, 0x13, 0x00] := by decide +kernel
  obtain ⟨assembly, hassembly, hassembled⟩ := map_eq_ok_iff.1 hbytes
  exact ⟨hsame, hrejected, assembly, hassembly, htabbed.eq_ok_iff.1 hassembly, htight.eq_ok_iff.1 hassembly, hassembled⟩

end ByteMachine

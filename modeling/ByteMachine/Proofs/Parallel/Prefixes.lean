/-
Texts that begin alike. The first reading goes through the lines in order and only appends to what it has: no line looks
ahead, and none takes anything back. So what is wrong with a line is wrong in every text that has the same lines up to
there, and the bindings and bytes of some lines are the first ones of every text that begins with them.

- `Draft.Extends`: names, bindings and cells were appended, at most.
- `Draft.extends_add`, `Draft.extends_addLines`: one line, and any number of lines.
- `reading_depends_on_lines_before`: both statements about the first reading.
-/
import Mathlib.Tactic
import ByteMachine.Assembly.Image
import ByteMachine.Proofs.Layout.Correspondence

namespace ByteMachine

namespace Draft

/-- the second draft has what the first has, at the same places, and perhaps more behind it -/
structure Extends (draft next : Draft) : Prop where
  mount : next.mount = draft.mount
  symbols : draft.symbols.names.toList <+: next.symbols.names.toList
  labels : draft.labels.entries.toList <+: next.labels.entries.toList
  cells : draft.cells.toList <+: next.cells.toList

variable {draft middle next : Draft} {line number : Nat}

theorem Extends.refl (draft : Draft) : draft.Extends draft :=
  ⟨rfl, List.prefix_rfl, List.prefix_rfl, List.prefix_rfl⟩

theorem Extends.trans (h : draft.Extends middle) (h' : middle.Extends next) : draft.Extends next :=
  ⟨h'.mount.trans h.mount, h.symbols.trans h'.symbols, h.labels.trans h'.labels, h.cells.trans h'.cells⟩

/-- the namespace at hand is of no account -/
theorem Extends.scope (h : draft.Extends next) (scope : Scope) : draft.Extends { next with scope } :=
  ⟨h.mount, h.symbols, h.labels, h.cells⟩

/-! ## Operations -/

theorem Learns.extends (h : draft.Learns next) : draft.Extends next := by
  rw [h.rest]
  exact ⟨rfl, h.grows.1, List.prefix_rfl, List.prefix_rfl⟩

theorem extends_intern (draft : Draft) (name : String) : draft.Extends (draft.intern name).2 :=
  (draft.intern_spec name).1.extends

theorem extends_internAll (draft : Draft) (names : List String) : draft.Extends (draft.internAll names).2 :=
  (draft.internAll_spec names).1.extends

theorem extends_bind {name : Path} {binding : Binding} (h : draft.bind line name binding = .ok next) :
    draft.Extends next := by
  obtain ⟨labels, hdefine, rfl⟩ := bind_eq_ok_iff.1 h
  obtain ⟨hentries, -⟩ := LabelTable.entries_of_define? hdefine
  exact ⟨rfl, List.prefix_rfl, ⟨_, hentries.symm⟩, List.prefix_rfl⟩

theorem extends_expose {declared : Path} {name : String} {newName : Option Name}
    (h : draft.expose line declared name newName = .ok next) : draft.Extends next := by
  have hlearned := draft.extends_internAll (publicParts name newName)
  obtain ⟨space, -, h⟩ := expose_eq_ok_iff.1 h
  rcases h with ⟨-, rfl⟩ | ⟨-, hbind⟩
  · exact hlearned
  · exact hlearned.trans (extends_bind hbind)

theorem extends_declare {name : String} {visibility : Visibility} {symbol : Symbol}
    (h : draft.declare line name visibility = .ok (symbol, next)) : draft.Extends next := by
  obtain ⟨-, value, bound, -, hbind, h⟩ := declare_eq_ok_iff.1 h
  have hbound := (draft.extends_intern name).trans (extends_bind hbind)
  cases visibility with
  | concealed => exact h ▸ hbound
  | exposed newName => exact hbound.trans (extends_expose h)

theorem extends_changeScope {change : ScopeChange} (h : draft.changeScope change = .ok next) : draft.Extends next := by
  cases change with
  | enter name =>
    obtain rfl := Except.ok.inj h
    exact (draft.extends_internAll name.parts).scope _
  | enterPrivate name =>
    obtain rfl := Except.ok.inj h
    exact (draft.extends_intern (name.getD anonymousName)).scope _
  | leave =>
    obtain ⟨scope, -, rfl⟩ := changeScope_leave_eq_ok_iff.1 h
    exact (Extends.refl draft).scope scope
  | reset path =>
    obtain rfl := Except.ok.inj h
    exact (draft.extends_internAll path.parts).scope _

theorem extends_push (draft : Draft) (cell : Cell) : draft.Extends (draft.push cell) :=
  ⟨rfl, List.prefix_rfl, List.prefix_rfl, ⟨[cell], Array.toList_push.symm⟩⟩

theorem extends_emit (line : Nat) (draft : Draft) (argument : Argument) : draft.Extends (emit line draft argument) := by
  unfold emit
  cases argument.operand with
  | literal value => exact draft.extends_push _
  | register r => exact draft.extends_push _
  | address name half => exact (draft.extends_internAll name.parts).trans (extends_push _ _)

theorem extends_emits (line : Nat) (draft : Draft) (arguments : List Argument) :
    draft.Extends (arguments.foldl (emit line) draft) := by
  induction arguments generalizing draft with
  | nil => exact Extends.refl draft
  | cons argument arguments ih => exact (extends_emit line draft argument).trans (ih _)

/-! ## Lines -/

/-- **A line takes nothing back.** -/
theorem extends_add {statement : Statement} (h : draft.add line statement = .ok next) : draft.Extends next := by
  cases statement with
  | blank =>
    obtain rfl := Except.ok.inj h
    exact Extends.refl draft
  | label name visibility =>
    obtain ⟨symbol, hdeclare⟩ := add_label_eq_ok_iff.1 h
    exact extends_declare hdeclare
  | subroutine name visibility =>
    obtain ⟨symbol, declared, hdeclare, rfl⟩ := add_subroutine_eq_ok_iff.1 h
    exact (extends_declare hdeclare).scope _
  | scope change => exact extends_changeScope h
  | exportName name newName =>
    obtain ⟨-, hbind⟩ := add_exportName_eq_ok_iff.1 h
    have hlearned := (draft.extends_internAll name.parts).trans (extends_internAll _ (newName.getD name).parts)
    exact hlearned.trans (extends_bind hbind)
  | useName name newName =>
    have hlearned := (draft.extends_internAll name.parts).trans (extends_internAll _ (newName.getD name).parts)
    exact hlearned.trans (extends_bind h)
  | data arguments =>
    obtain ⟨-, rfl⟩ := checkSize_eq_ok_iff.1 h
    exact extends_emits line draft arguments
  | instruction op arguments =>
    obtain ⟨-, rfl⟩ := checkSize_eq_ok_iff.1 h
    exact (draft.extends_push _).trans (extends_emits line _ arguments)

theorem extends_addLines {texts : List String} (h : draft.addLines number texts = .ok next) : draft.Extends next := by
  induction texts generalizing draft number with
  | nil =>
    obtain rfl := Except.ok.inj h
    exact Extends.refl draft
  | cons text texts ih =>
    obtain ⟨added, hadded, hrest⟩ := addLines_cons_eq_ok_iff.1 h
    obtain ⟨statement, -, hadd⟩ := addLine_eq_ok_iff.1 hadded
    exact (extends_add hadd).trans (ih hrest)

/-! ## Texts that begin alike -/

variable {texts others : List String} {mount : Word} {e : AssemblyError}

/-- a text is rejected at one of its lines -/
theorem line_of_ofLines (h : ofLines texts mount = .error e) : 1 ≤ e.line ∧ e.line ≤ texts.length := by
  obtain ⟨before, text, after, middle, rfl, -, hrejected⟩ := ofLines_eq_error_iff.1 h
  obtain ⟨hline, -⟩ := place_of_addLine hrejected
  rw [hline, List.length_append, List.length_cons]
  omega

/-- what is wrong with a line is wrong with it in every text that is the same up to there -/
theorem ofLines_eq_error_of_take_eq (h : ofLines texts mount = .error e)
    (hsame : others.take e.line = texts.take e.line) : ofLines others mount = .error e := by
  obtain ⟨before, text, after, middle, rfl, hbefore, hrejected⟩ := ofLines_eq_error_iff.1 h
  obtain ⟨hline, -⟩ := place_of_addLine hrejected
  have htake : (before ++ text :: after).take e.line = before ++ [text] := by
    rw [hline, List.append_cons]
    exact List.take_left' (by simp)
  have hothers : others = before ++ text :: others.drop e.line := by
    calc others
      _ = others.take e.line ++ others.drop e.line := (List.take_append_drop _ _).symm
      _ = before ++ [text] ++ others.drop e.line := by rw [hsame, htake]
      _ = before ++ text :: others.drop e.line := (List.append_cons ..).symm
  exact ofLines_eq_error_iff.2 ⟨before, text, _, middle, hothers, hbefore, hrejected⟩

theorem extends_ofLines {more : List String} (h : ofLines texts mount = .ok draft)
    (h' : ofLines (texts ++ more) mount = .ok next) : draft.Extends next := by
  obtain ⟨middle, hmiddle, hmore⟩ := addLines_append_eq_ok_iff.1 h'
  obtain rfl := Except.ok.inj (h.symm.trans hmiddle)
  exact extends_addLines hmore

end Draft

/-- **The first reading depends on the lines before it only.** If it rejects a text, it does so at one of the lines, and
with the same error it rejects all lines that begin with the lines up to there; so every source text with these first
lines is rejected with that error. And where it comes to the end of a text and of a longer one, the names, bindings and
cells of the first are the first ones of the second. -/
theorem reading_depends_on_lines_before (texts : List String) (mount : Word) :
    (∀ e, Draft.ofLines texts mount = .error e →
      1 ≤ e.line ∧ e.line ≤ texts.length ∧
      (∀ others, others.take e.line = texts.take e.line → Draft.ofLines others mount = .error e) ∧
      ∀ source, (Text.lines source).take e.line = texts.take e.line → assemble source mount = .error e) ∧
    ∀ draft, Draft.ofLines texts mount = .ok draft →
      ∀ more next, Draft.ofLines (texts ++ more) mount = .ok next → draft.Extends next := by
  constructor
  · intro e h
    obtain ⟨hfirst, hlast⟩ := Draft.line_of_ofLines h
    refine ⟨hfirst, hlast, fun others hsame => Draft.ofLines_eq_error_of_take_eq h hsame, ?_⟩
    intro source hsame
    rw [assemble, Draft.ofLines_eq_error_of_take_eq h hsame]
    rfl
  · intro draft h more next h'
    exact Draft.extends_ofLines h h'

/-- a subroutine that declares one label twice, before a line of no known form -/
def twiceDeclared : List String := ["def f public", "dat %later", ".g", ".g", "dat dat"]

theorem twiceDeclared_stops_alike :
    Draft.ofLines twiceDeclared 0x10 = .error ⟨4, 0, ".g", .duplicateLabel "f#0.g"⟩ ∧
      assemble "def f public\r\ndat %later\n.g\n.g\n.later" 0x10 = .error ⟨4, 0, ".g", .duplicateLabel "f#0.g"⟩ ∧
      ∃ draft next, Draft.ofLines (twiceDeclared.take 2) 0x10 = .ok draft ∧
        Draft.ofLines (twiceDeclared.take 2 ++ [".g", "namespace pop", ".later"]) 0x10 = .ok next ∧ draft.Extends next := by
  have hrejected : Draft.ofLines twiceDeclared 0x10 = .error ⟨4, 0, ".g", .duplicateLabel "f#0.g"⟩ := by decide +kernel
  obtain ⟨-, -, -, hassemble⟩ := (reading_depends_on_lines_before twiceDeclared 0x10).1 _ hrejected
  have hread : (Draft.ofLines (twiceDeclared.take 2) 0x10).toOption.isSome := by decide +kernel
  have hmore : (Draft.ofLines (twiceDeclared.take 2 ++ [".g", "namespace pop", ".later"]) 0x10).toOption.isSome := by
    decide +kernel
  obtain ⟨draft, hdraft⟩ := Attempt.exists_ok_of_isSome hread
  obtain ⟨next, hnext⟩ := Attempt.exists_ok_of_isSome hmore
  refine ⟨hrejected, hassemble _ (by decide +kernel), draft, next, hdraft, hnext, ?_⟩
  exact (reading_depends_on_lines_before (twiceDeclared.take 2) 0x10).2 draft hdraft _ next hnext

end ByteMachine

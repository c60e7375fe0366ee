/-
Two readings side by side. The second one reads renamed statements, and perhaps from other lines. Its draft has the same
paths in the same places, with the new names behind their symbols (`Draft.Matches`); each operation of the reading keeps
this, or ends both readings for a like reason (`Draft.Matches.add`).
-/
import Mathlib.Tactic
import ByteMachine.Proofs.Aliases.Resolution
import ByteMachine.Proofs.Drafting
import ByteMachine.Proofs.InStep
import ByteMachine.Proofs.Parallel.Renaming

namespace ByteMachine

open Attempt

/-! ## Reasons -/

namespace AssemblyError

inductive Kind where
  | malformed
  | unknownMnemonic
  | arityMismatch
  | invalidOperand
  | duplicateLabel
  | popRoot
  | exportFromAnonymous
  | exportFromRoot
  | undefinedLabel
  | aliasCycle
  | programTooLarge
  | unreadable
  deriving DecidableEq, Repr

/-- a reason without its texts and numbers -/
def Cause.kind : Cause → Kind
  | .malformed _ => .malformed
  | .unknownMnemonic _ => .unknownMnemonic
  | .arityMismatch _ _ _ => .arityMismatch
  | .invalidOperand _ _ => .invalidOperand
  | .duplicateLabel _ => .duplicateLabel
  | .popRoot => .popRoot
  | .exportFromAnonymous _ => .exportFromAnonymous
  | .exportFromRoot _ => .exportFromRoot
  | .undefinedLabel _ => .undefinedLabel
  | .aliasCycle _ => .aliasCycle
  | .programTooLarge _ _ => .programTooLarge
  | .unreadable _ => .unreadable

/-- a reason of the same kind, and the same reason where no name changes -/
def Cause.Matches (r : Renaming) (cause cause' : Cause) : Prop :=
  cause'.kind = cause.kind ∧ (r = .refl → cause' = cause)

theorem Cause.Matches.rfl {r : Renaming} {cause : Cause} : cause.Matches r cause := ⟨by rfl, fun _ => by rfl⟩

end AssemblyError

open AssemblyError

/-! ## Label tables and cells -/

/-- lines of the one text with any lines of the other -/
def anyLines (_ _ : Nat) : Prop := True

/-- the entries bind the same name to the same, on lines that are related -/
structure LabelTable.Entry.Matches (lines : Nat → Nat → Prop) (entry entry' : LabelTable.Entry) : Prop where
  name : entry'.name = entry.name
  binding : entry'.binding = entry.binding
  line : lines entry.line entry'.line

/-- the same byte, or the same half of the address of the same name, on lines that are related -/
inductive Cell.Matches (lines : Nat → Nat → Prop) : Cell → Cell → Prop
  | byte (value : Byte) : Matches lines (.byte value) (.byte value)
  | half {target : Path} {half : Half} {line line' column column' : Nat} :
      lines line line' → Matches lines (.half target half line column) (.half target half line' column')

namespace LabelTable

variable {lines : Nat → Nat → Prop} {table table' : LabelTable}

def Matches (lines : Nat → Nat → Prop) (table table' : LabelTable) : Prop :=
  List.Forall₂ (Entry.Matches lines) table.entries.toList table'.entries.toList

theorem Matches.find? (h : table.Matches lines table') (name : Path) :
    Option.Rel (Entry.Matches lines) (table.find? name) (table'.find? name) := by
  rw [LabelTable.find?, LabelTable.find?, ← Array.find?_toList, ← Array.find?_toList]
  unfold Matches at h
  generalize table.entries.toList = entries at h
  generalize table'.entries.toList = entries' at h
  induction h with
  | nil => exact .none
  | cons hentry _ ih =>
    rw [List.find?_cons, List.find?_cons, hentry.name]
    split
    · exact .some hentry
    · exact ih

theorem Matches.define? (h : table.Matches lines table') {line line' : Nat} (hline : lines line line') (name : Path)
    (binding : Binding) :
    Option.Rel (LabelTable.Matches lines) (table.define? name binding line) (table'.define? name binding line') := by
  have hfind := h.find? name
  unfold LabelTable.define?
  generalize table.find? name = found at hfind
  generalize table'.find? name = found' at hfind
  cases hfind with
  | some => exact .none
  | none =>
    refine .some ?_
    simp only [Matches, Array.toList_push]
    exact List.rel_append h (.cons ⟨rfl, rfl, hline⟩ .nil)

theorem Matches.binding?_eq (h : table.Matches lines table') : table'.binding? = table.binding? := by
  funext name
  have hfind := h.find? name
  rw [LabelTable.binding?, LabelTable.binding?]
  generalize table.find? name = found at hfind
  generalize table'.find? name = found' at hfind
  cases hfind with
  | none => rfl
  | some hentry => rw [Option.map_some, Option.map_some, hentry.binding]

/-- what a name leads to does not depend on lines -/
theorem Matches.resolve_eq (h : table.Matches lines table') : table'.resolve = table.resolve :=
  resolve_congr h.binding?_eq

end LabelTable

/-! ## Drafts -/

/-- the second draft has what the first has, with other names for the symbols and from other lines -/
structure Draft.Matches (r : Renaming) (lines : Nat → Nat → Prop) (draft draft' : Draft) : Prop where
  mount : draft'.mount = draft.mount
  symbols : draft'.symbols = draft.symbols.renamed r.apply
  scope : draft'.scope = draft.scope
  labels : draft.labels.Matches lines draft'.labels
  cells : List.Forall₂ (Cell.Matches lines) draft.cells.toList draft'.cells.toList

namespace Draft.Matches

variable {r : Renaming} {lines : Nat → Nat → Prop} {draft draft' : Draft} {number number' : Nat}

theorem size_eq (h : draft.Matches r lines draft') : draft'.cells.size = draft.cells.size := by
  rw [← Array.length_toList, ← Array.length_toList, h.cells.length_eq]

theorem address_eq (h : draft.Matches r lines draft') : draft'.address = draft.address := by
  rw [address, address, h.mount, h.size_eq]

theorem tooLarge_eq (h : draft.Matches r lines draft') : draft'.tooLarge = draft.tooLarge := by
  rw [tooLarge, tooLarge, h.mount, h.size_eq]

theorem render_eq (h : draft.Matches .refl lines draft') (path : Path) : draft'.render path = draft.render path := by
  have hsymbols : draft'.symbols = draft.symbols := h.symbols.trans draft.symbols.renamed_id
  rw [render, render, hsymbols]

theorem here (h : draft.Matches r lines draft') : Agree (Cause.Matches r) (· = ·) draft.here draft'.here := by
  rw [Draft.here, Draft.here, h.address_eq, h.tooLarge_eq]
  split
  · exact .ok rfl
  · exact .error .rfl

theorem checkSize (h : draft.Matches r lines draft') :
    Agree (Cause.Matches r) (Draft.Matches r lines) draft.checkSize draft'.checkSize := by
  rw [Draft.checkSize, Draft.checkSize, h.address_eq, h.tooLarge_eq]
  split
  · exact .ok h
  · exact .error .rfl

/-! ### Names -/

theorem intern (h : draft.Matches r lines draft') (name : String) :
    (draft'.intern (r.apply name)).1 = (draft.intern name).1 ∧
      (draft.intern name).2.Matches r lines (draft'.intern (r.apply name)).2 := by
  have hintern := draft.symbols.intern_renamed r.injective name
  rw [← h.symbols] at hintern
  exact ⟨congrArg (·.1) hintern, { h with symbols := congrArg (·.2) hintern }⟩

theorem internAll (h : draft.Matches r lines draft') (names : List String) :
    (draft'.internAll (names.map r.apply)).1 = (draft.internAll names).1 ∧
      (draft.internAll names).2.Matches r lines (draft'.internAll (names.map r.apply)).2 := by
  have hintern := draft.symbols.internAll_renamed r.injective names
  rw [← h.symbols] at hintern
  exact ⟨congrArg (·.1) hintern, { h with symbols := congrArg (·.2) hintern }⟩

theorem internParts (h : draft.Matches r lines draft') (name : Name) :
    (draft'.internAll (name.renamed r.apply).parts).1 = (draft.internAll name.parts).1 ∧
      (draft.internAll name.parts).2.Matches r lines (draft'.internAll (name.renamed r.apply).parts).2 :=
  h.internAll name.parts

/-- the second name of a name, which is the name itself where there is no other -/
theorem internSecond (h : draft.Matches r lines draft') (name : Name) (newName : Option Name) :
    (draft'.internAll ((newName.map (Name.renamed r.apply)).getD (name.renamed r.apply)).parts).1 =
        (draft.internAll (newName.getD name).parts).1 ∧
      (draft.internAll (newName.getD name).parts).2.Matches r lines
        (draft'.internAll ((newName.map (Name.renamed r.apply)).getD (name.renamed r.apply)).parts).2 := by
  cases newName with
  | none => exact h.internParts name
  | some newName => exact h.internParts newName

theorem qualify (h : draft.Matches r lines draft') (name : Name) (levels : Nat) :
    (draft'.qualify (name.renamed r.apply) levels).1 = (draft.qualify name levels).1 ∧
      (draft.qualify name levels).2.Matches r lines (draft'.qualify (name.renamed r.apply) levels).2 := by
  obtain ⟨hsymbols, hlearned⟩ := h.internAll name.parts
  refine ⟨?_, hlearned⟩
  have hbase : (draft'.internAll (name.parts.map r.apply)).2.base (name.renamed r.apply) levels =
      (draft.internAll name.parts).2.base name levels := by
    rw [base, base, hlearned.scope]
    rfl
  simp only [Draft.qualify]
  exact congrArg₂ Path.join hbase hsymbols

theorem bind (h : draft.Matches r lines draft') (hline : lines number number') (name : Path) (binding : Binding) :
    Agree (Cause.Matches r) (Draft.Matches r lines) (draft.bind number name binding) (draft'.bind number' name binding) := by
  have hdefine := h.labels.define? hline name binding
  unfold Draft.bind
  generalize draft.labels.define? name binding number = labels at hdefine
  generalize draft'.labels.define? name binding number' = labels' at hdefine
  cases hdefine with
  | none =>
    refine .error ⟨rfl, ?_⟩
    rintro rfl
    exact congrArg Cause.duplicateLabel (h.render_eq name)
  | some hlabels => exact .ok { h with labels := hlabels }

theorem publicParts_renamed (name : String) (newName : Option Name) :
    publicParts (r.apply name) (newName.map (Name.renamed r.apply)) = (publicParts name newName).map r.apply := by
  cases newName <;> rfl

theorem expose (h : draft.Matches r lines draft') (hline : lines number number') (declared : Path) (name : String)
    (newName : Option Name) :
    Agree (Cause.Matches r) (Draft.Matches r lines) (draft.expose number declared name newName)
      (draft'.expose number' declared (r.apply name) (newName.map (Name.renamed r.apply))) := by
  unfold Draft.expose
  rw [h.scope]
  cases draft.scope.current.demangle? anonymous with
  | none =>
    refine .error ⟨rfl, ?_⟩
    rintro rfl
    rfl
  | some space =>
    obtain ⟨hsymbols, hlearned⟩ := h.internAll (publicParts name newName)
    rw [← publicParts_renamed] at hsymbols hlearned
    simp only [publicParts] at hsymbols hlearned ⊢
    rw [hsymbols]
    split
    · exact .ok hlearned
    · exact hlearned.bind hline _ _

theorem declare (h : draft.Matches r lines draft') (hline : lines number number') (name : String)
    (visibility : Visibility) :
    Agree (Cause.Matches r) (fun made made' => made'.1 = made.1 ∧ made.2.Matches r lines made'.2)
      (draft.declare number name visibility) (draft'.declare number' (r.apply name) (visibility.renamed r.apply)) := by
  obtain ⟨hsymbol, hlearned⟩ := h.intern name
  unfold Draft.declare
  simp only [hsymbol]
  rw [hlearned.scope]
  refine hlearned.here.bind ?_
  rintro value _ rfl
  refine (hlearned.bind hline _ _).bind ?_
  intro bound bound' hbound
  cases visibility with
  | concealed => exact .ok ⟨rfl, hbound⟩
  | exposed newName => exact (hbound.expose hline _ name newName).bind fun _ _ hexposed => .ok ⟨rfl, hexposed⟩

theorem changeScope (h : draft.Matches r lines draft') (change : ScopeChange) :
    Agree (Cause.Matches r) (Draft.Matches r lines) (draft.changeScope change)
      (draft'.changeScope (change.renamed r.apply)) := by
  cases change with
  | enter name =>
    obtain ⟨hsymbols, hlearned⟩ := h.internParts name
    exact .ok { hlearned with scope := congrArg₂ Scope.push hlearned.scope hsymbols }
  | enterPrivate name =>
    have hname : (name.map r.apply).getD anonymousName = r.apply (name.getD anonymousName) := by
      cases name with
      | none => exact r.anonymous.symm
      | some name => rfl
    obtain ⟨hsymbol, hlearned⟩ := h.intern (name.getD anonymousName)
    rw [← hname] at hsymbol hlearned
    exact .ok { hlearned with scope := congrArg₂ Scope.pushPrivate hlearned.scope hsymbol }
  | leave =>
    simp only [Draft.changeScope, ScopeChange.renamed]
    rw [h.scope]
    cases draft.scope.pop? with
    | none => exact .error .rfl
    | some scope => exact .ok { h with scope := rfl }
  | reset path =>
    obtain ⟨hsymbols, hlearned⟩ := h.internParts path
    exact .ok { hlearned with scope := congrArg₂ Scope.reset hlearned.scope hsymbols }

/-! ### Bytes -/

theorem push (h : draft.Matches r lines draft') {cell cell' : Cell} (hcell : cell.Matches lines cell') :
    (draft.push cell).Matches r lines (draft'.push cell') := by
  refine { h with cells := ?_ }
  simp only [Draft.push, Array.toList_push]
  exact List.rel_append h.cells (.cons hcell .nil)

theorem emit (h : draft.Matches r lines draft') (hline : lines number number') {argument argument' : Argument}
    (hoperand : argument'.operand = argument.operand.renamed r.apply) :
    (draft.emit number argument).Matches r lines (draft'.emit number' argument') := by
  unfold Draft.emit
  rw [hoperand]
  cases argument.operand with
  | literal value => exact h.push (.byte value)
  | register r => exact h.push (.byte r.index)
  | address name half =>
    obtain ⟨htarget, hlearned⟩ := h.qualify name 0
    simp only [Operand.renamed]
    rw [htarget]
    exact hlearned.push (.half hline)

theorem emits (h : draft.Matches r lines draft') (hline : lines number number') {arguments arguments' : List Argument}
    (harguments : List.Forall₂ (fun a a' => a'.operand = a.operand.renamed r.apply) arguments arguments') :
    (arguments.foldl (Draft.emit number) draft).Matches r lines (arguments'.foldl (Draft.emit number') draft') := by
  induction harguments generalizing draft draft' with
  | nil => exact h
  | cons hoperand _ ih => exact ih (h.emit hline hoperand)

/-! ### Lines -/

/-- **A renamed line does the same.** -/
theorem add (h : draft.Matches r lines draft') (hline : lines number number') {statement statement' : Statement}
    (hsense : (statement.renamed r.apply).SameSense statement') :
    Agree (Cause.Matches r) (Draft.Matches r lines) (draft.add number statement) (draft'.add number' statement') := by
  cases statement with
  | blank =>
    cases hsense with
    | refl => exact .ok h
  | label name visibility =>
    cases hsense with
    | refl => exact (h.declare hline name visibility).bind fun _ _ hmade => .ok hmade.2
  | subroutine name visibility =>
    cases hsense with
    | refl =>
      refine (h.declare hline name visibility).bind ?_
      intro made made' hmade
      exact .ok { hmade.2 with scope := congrArg₂ Scope.pushPrivate hmade.2.scope hmade.1 }
  | scope change =>
    cases hsense with
    | refl => exact h.changeScope change
  | exportName name newName =>
    cases hsense with
    | refl =>
      simp only [Draft.add, Statement.renamed]
      rw [h.scope]
      split
      · refine .error ⟨rfl, ?_⟩
        rintro rfl
        exact congrArg (Cause.exportFromRoot ∘ Name.bare) name.renamed_id
      · obtain ⟨htarget, hlearned⟩ := h.internParts name
        obtain ⟨halias, hrenamed⟩ := hlearned.internSecond name newName
        simp only [hlearned.scope, hrenamed.scope, htarget, halias]
        exact hrenamed.bind hline _ _
  | useName name newName =>
    cases hsense with
    | refl =>
      obtain ⟨htarget, hlearned⟩ := h.qualify name 1
      obtain ⟨halias, hrenamed⟩ := hlearned.internSecond name newName
      simp only [Draft.add, Statement.renamed]
      simp only [hrenamed.scope, htarget, halias]
      exact hrenamed.bind hline _ _
  | data arguments =>
    obtain ⟨arguments', rfl, harguments⟩ := hsense.of_data
    exact (h.emits hline harguments).checkSize
  | instruction op arguments =>
    obtain ⟨arguments', rfl, harguments⟩ := hsense.of_instruction
    exact ((h.push (.byte op.code)).emits hline harguments).checkSize

end Draft.Matches

end ByteMachine

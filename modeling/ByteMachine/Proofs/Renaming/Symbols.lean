/-
Renamed names, written out. The segments of a qualified name are separated by points and tags follow a `#`, and neither
character stands in a name, so the text of a qualified name can be taken apart and renamed segment by segment. This gives
the text that the renamed symbols have (`Path.render_renamed`), as long as all symbols stand for such names, and they do
(`Draft.all_add`).
-/
import Mathlib.Tactic
import ByteMachine.Proofs.Drafting
import ByteMachine.Proofs.Hygiene.Names
import ByteMachine.Proofs.Parallel.Images
import ByteMachine.Proofs.Reading.Numerals
import ByteMachine.Proofs.Reading.Words
import ByteMachine.Proofs.Renaming.Identifiers

namespace ByteMachine

/-! ## Qualified names as texts -/

def renameSegment (rename : String → String) (segment : List Char) : List Char :=
  (rename (String.ofList (segment.takeWhile (· ≠ '#')))).toList ++ segment.dropWhile (· ≠ '#')

def renameText (rename : String → String) (text : String) : String :=
  ".".intercalate ((Text.pieces '.' text.toList).map fun segment => String.ofList (renameSegment rename segment))

/-- a name that can be told from the characters around it -/
structure IsClear (name : String) : Prop where
  no_point : '.' ∉ name.toList
  no_mark : '#' ∉ name.toList

theorem isClear_of_isIdentifier {name : String} (h : isIdentifier name = true) : IsClear name := by
  have hall : ∀ c ∈ name.toList, isIdentifierChar c = true := List.all_eq_true.1 (Bool.and_eq_true_iff.1 h).2
  exact ⟨fun hmem => absurd (hall _ hmem) (by decide), fun hmem => absurd (hall _ hmem) (by decide)⟩

theorem isClear_anonymousName : IsClear Draft.anonymousName := ⟨by decide, by decide⟩

theorem renameSegment_of_notMem {rename : String → String} {name : String} (h : '#' ∉ name.toList) :
    renameSegment rename name.toList = (rename name).toList := by
  have hall : ∀ c ∈ name.toList, decide (c ≠ '#') = true := fun c hc => decide_eq_true fun heq => h (heq ▸ hc)
  rw [renameSegment, List.takeWhile_eq_self_iff.2 hall, List.dropWhile_eq_nil_iff.2 hall, String.ofList_toList,
    List.append_nil]

theorem renameSegment_append_mark {rename : String → String} {name : String} (h : '#' ∉ name.toList) (tag : List Char) :
    renameSegment rename (name.toList ++ '#' :: tag) = (rename name).toList ++ '#' :: tag := by
  have hall : ∀ c ∈ name.toList, decide (c ≠ '#') = true := fun c hc => decide_eq_true fun heq => h (heq ▸ hc)
  rw [renameSegment, List.takeWhile_append_of_pos hall, List.dropWhile_append_of_pos hall]
  simp

/-! ## Symbols and their names -/

namespace SymbolTable

def All (table : SymbolTable) (P : String → Prop) : Prop := ∀ name ∈ table.names.toList, P name

variable {table : SymbolTable} {P : String → Prop}

theorem all_intern (h : table.All P) {name : String} (hname : P name) : (table.intern name).2.All P := by
  unfold intern
  split
  · exact h
  · intro name' hname'
    rw [Array.toList_push] at hname'
    rcases List.mem_append.1 hname' with hname' | hname'
    · exact h name' hname'
    · rwa [List.mem_singleton.1 hname']

theorem all_internAll (h : table.All P) {names : List String} (hnames : ∀ name ∈ names, P name) :
    (table.internAll names).2.All P := by
  induction names generalizing table with
  | nil => exact h
  | cons name names ih =>
    obtain ⟨hname, hnames⟩ := List.forall_mem_cons.1 hnames
    exact ih (all_intern h hname) hnames

theorem nameOf_renamed {rename : String → String} (hempty : rename "" = "") (symbol : Symbol) :
    (table.renamed rename).nameOf symbol = rename (table.nameOf symbol) := by
  rw [nameOf, nameOf, Array.getD_eq_getD_getElem?, Array.getD_eq_getD_getElem?, renamed, Array.getElem?_map]
  cases table.names[symbol.index]? with
  | none => exact hempty.symm
  | some name => rfl

theorem isClear_nameOf (h : table.All IsClear) (symbol : Symbol) : IsClear (table.nameOf symbol) := by
  rw [nameOf, Array.getD_eq_getD_getElem?, ← Array.getElem?_toList]
  cases hname : table.names.toList[symbol.index]? with
  | none => exact ⟨by decide, by decide⟩
  | some name => exact h name (List.mem_of_getElem? hname)

end SymbolTable

namespace Path

variable {table : SymbolTable} {rename : String → String}

theorem point_notMem_renderSegment (h : table.All IsClear) (segment : Segment) :
    '.' ∉ (renderSegment table segment).toList := by
  have hname := (SymbolTable.isClear_nameOf h segment.name).no_point
  unfold renderSegment
  split
  · exact hname
  · rename_i tag _
    simp only [String.toList_append, List.mem_append]
    rintro ((hmem | hmem) | hmem)
    · exact hname hmem
    · exact absurd hmem (by decide)
    · exact absurd (Operand.isDigit_of_mem_toString hmem) (by decide)

theorem renderSegment_renamed (hempty : rename "" = "") (h : table.All IsClear) (segment : Segment) :
    renameSegment rename (renderSegment table segment).toList =
      (renderSegment (table.renamed rename) segment).toList := by
  have hname := (SymbolTable.isClear_nameOf h segment.name).no_mark
  unfold renderSegment
  cases segment.tag with
  | none =>
    simp only [SymbolTable.nameOf_renamed hempty]
    exact renameSegment_of_notMem hname
  | some tag =>
    simp only [SymbolTable.nameOf_renamed hempty, String.toList_append, List.append_assoc]
    exact renameSegment_append_mark hname _

/-- **Renamed symbols have the renamed text.** -/
theorem render_renamed (hempty : rename "" = "") (h : table.All IsClear) (path : Path) :
    path.render (table.renamed rename) = renameText rename (path.render table) := by
  obtain ⟨segments⟩ := path
  by_cases hne : segments = []
  · subst hne
    simp [render, renameText, Text.pieces, Text.cut, renameSegment, hempty]
  · have hpieces : Text.pieces '.' (render table ⟨segments⟩).toList =
        segments.map fun segment => (renderSegment table segment).toList := by
      rw [render, String.toList_intercalate, List.map_map]
      apply Text.pieces_intercalate
      · simpa using hne
      · intro cs hcs
        obtain ⟨segment, -, rfl⟩ := List.mem_map.1 hcs
        exact point_notMem_renderSegment h segment
    rw [renameText, hpieces, List.map_map, render]
    congr 1
    apply List.map_congr_left
    intro segment _
    rw [Function.comp_apply, renderSegment_renamed hempty h, String.ofList_toList]

end Path

/-! ## The symbols of a draft -/

namespace Draft

variable {draft next : Draft} {number : Nat} {P : String → Prop}

theorem all_expose (h : draft.symbols.All P) {declared : Path} {name : String} {newName : Option Name} (hname : P name)
    (hnew : ∀ name ∈ newNames newName, P name) (he : draft.expose number declared name newName = .ok next) :
    next.symbols.All P := by
  have hparts : ∀ part ∈ publicParts name newName, P part := by
    cases newName with
    | none => simpa [publicParts] using hname
    | some newName => exact hnew
  have hlearned := SymbolTable.all_internAll h hparts
  obtain ⟨space, -, ⟨-, rfl⟩ | ⟨-, hbind⟩⟩ := expose_eq_ok_iff.1 he
  · exact hlearned
  · rw [symbols_of_bind hbind]
    exact hlearned

theorem all_declare (h : draft.symbols.All P) {name : String} {visibility : Visibility} {symbol : Symbol} (hname : P name)
    (hnew : ∀ name ∈ visibility.names, P name) (hd : draft.declare number name visibility = .ok (symbol, next)) :
    next.symbols.All P := by
  obtain ⟨-, value, bound, -, hbind, hd⟩ := declare_eq_ok_iff.1 hd
  have hbound : bound.symbols.All P := by
    rw [symbols_of_bind hbind]
    exact SymbolTable.all_intern h hname
  cases visibility with
  | concealed => exact hd ▸ hbound
  | exposed newName => exact all_expose hbound hname hnew hd

theorem all_emits (h : draft.symbols.All P) {arguments : List Argument}
    (hnames : ∀ name ∈ arguments.flatMap fun argument => argument.operand.names, P name) :
    (arguments.foldl (emit number) draft).symbols.All P := by
  induction arguments generalizing draft with
  | nil => exact h
  | cons argument arguments ih =>
    rw [List.flatMap_cons, List.forall_mem_append] at hnames
    refine ih ?_ hnames.2
    have hoperand := hnames.1
    unfold emit
    cases hargument : argument.operand with
    | address name half =>
      rw [hargument] at hoperand
      exact SymbolTable.all_internAll h hoperand
    | _ => exact h

theorem all_changeScope (h : draft.symbols.All P) (hanonymous : P anonymousName) {change : ScopeChange}
    (hnames : ∀ name ∈ change.names, P name) (hc : draft.changeScope change = .ok next) : next.symbols.All P := by
  cases change with
  | enter name | reset name =>
    obtain rfl := Except.ok.inj hc
    exact SymbolTable.all_internAll h hnames
  | enterPrivate name =>
    obtain rfl := Except.ok.inj hc
    refine SymbolTable.all_intern h ?_
    cases name with
    | none => exact hanonymous
    | some name => exact hnames name List.mem_cons_self
  | leave =>
    obtain ⟨scope, -, rfl⟩ := changeScope_leave_eq_ok_iff.1 hc
    exact h

/-- a name and its second name have no other parts than these -/
theorem forall_mem_second {name : Name} {newName : Option Name} (h : ∀ part ∈ name.parts ++ newNames newName, P part) :
    (∀ part ∈ name.parts, P part) ∧ ∀ part ∈ (newName.getD name).parts, P part := by
  obtain ⟨hparts, hnew⟩ := List.forall_mem_append.1 h
  refine ⟨hparts, ?_⟩
  cases newName with
  | none => exact hparts
  | some newName => exact hnew

/-- **A line shows its own names only.** -/
theorem all_add (h : draft.symbols.All P) (hanonymous : P anonymousName) {statement : Statement}
    (hnames : ∀ name ∈ statement.names, P name) (ha : draft.add number statement = .ok next) : next.symbols.All P := by
  cases statement with
  | blank =>
    obtain rfl := Except.ok.inj ha
    exact h
  | label name visibility =>
    obtain ⟨hname, hvisibility⟩ := List.forall_mem_cons.1 hnames
    obtain ⟨symbol, hdeclare⟩ := add_label_eq_ok_iff.1 ha
    exact all_declare h hname hvisibility hdeclare
  | subroutine name visibility =>
    obtain ⟨hname, hvisibility⟩ := List.forall_mem_cons.1 hnames
    obtain ⟨symbol, declared, hdeclare, rfl⟩ := add_subroutine_eq_ok_iff.1 ha
    have hdeclared := all_declare h hname hvisibility hdeclare
    exact hdeclared
  | scope change => exact all_changeScope h hanonymous hnames ha
  | exportName name newName =>
    obtain ⟨-, hbind⟩ := add_exportName_eq_ok_iff.1 ha
    obtain ⟨hparts, hsecond⟩ := forall_mem_second hnames
    rw [symbols_of_bind hbind]
    exact SymbolTable.all_internAll (SymbolTable.all_internAll h hparts) hsecond
  | useName name newName =>
    obtain ⟨hparts, hsecond⟩ := forall_mem_second hnames
    rw [symbols_of_bind ha]
    exact SymbolTable.all_internAll (SymbolTable.all_internAll h hparts) hsecond
  | data arguments =>
    obtain ⟨-, rfl⟩ := checkSize_eq_ok_iff.1 ha
    exact all_emits h hnames
  | instruction op arguments =>
    obtain ⟨-, rfl⟩ := checkSize_eq_ok_iff.1 ha
    exact @all_emits (draft.push (.byte op.code)) number P h arguments hnames

theorem all_addStatements (h : draft.symbols.All P) (hanonymous : P anonymousName) {statements : List Statement}
    (hnames : ∀ statement ∈ statements, ∀ name ∈ statement.names, P name)
    (ha : draft.addStatements number statements = .ok next) : next.symbols.All P := by
  induction statements generalizing draft number with
  | nil =>
    obtain rfl := Except.ok.inj ha
    exact h
  | cons statement statements ih =>
    obtain ⟨hstatement, hstatements⟩ := List.forall_mem_cons.1 hnames
    obtain ⟨added, hadded, ha⟩ := Attempt.bind_eq_ok_iff.1 ha
    exact ih (all_add h hanonymous hstatement (Attempt.mapError_eq_ok_iff.1 hadded)) hstatements ha

end Draft

end ByteMachine

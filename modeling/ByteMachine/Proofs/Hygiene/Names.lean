/-
Hygiene of private namespaces. A line qualifies its names by the namespace at hand, by one above it or by the root, and
what it joins to them has no tag (`Draft.keeps_of_mem_formed`). So every tag in a name that a line forms is the tag of a
namespace that the line stands in, and that namespace was opened by one line only.
-/
import Mathlib.Tactic
import ByteMachine.Proofs.Hygiene.Openings
import ByteMachine.Proofs.Layout.Correspondence

namespace ByteMachine

open Layout

def Path.tags (path : Path) : List Nat := path.segments.filterMap (·.tag)

/-- every tagged segment of the path is the segment of the open namespaces at its position -/
def Scope.Keeps (scope : Scope) (path : Path) : Prop :=
  ∀ (i : Nat) (segment : Segment), path.segments[i]? = some segment → segment.tag ≠ none →
    scope.current.segments[i]? = some segment

namespace Draft

/-! ## The names that a statement forms -/

def declaredName (draft : Draft) (name : String) : Path := draft.scope.current.join [(draft.intern name).1]

/-- the names that a statement binds in the namespace at hand -/
def localNames (draft : Draft) : Statement → List Path
  | .label name _ | .subroutine name _ => [draft.declaredName name]
  | .useName name newName =>
    [draft.scope.current.join ((draft.qualify name 1).2.internAll (newName.getD name).parts).1]
  | _ => []

def exposedNames (draft : Draft) (name : String) : Visibility → List Path
  | .concealed => []
  | .exposed newName =>
    match draft.scope.current.demangle? anonymous with
    | none => []
    | some space => [space.join ((draft.intern name).2.internAll (publicParts name newName)).1]

def operandNames (line : Nat) : Draft → List Argument → List Path
  | _, [] => []
  | draft, argument :: arguments =>
    (match argument.operand with
      | .address name _ => [(draft.qualify name 0).1]
      | _ => []) ++ operandNames line (draft.emit line argument) arguments

/-- the names that a statement binds elsewhere or refers to -/
def otherNames (draft : Draft) (line : Nat) : Statement → List Path
  | .label name visibility | .subroutine name visibility => draft.exposedNames name visibility
  | .exportName name newName =>
    if draft.scope.depth = 0 then []
    else
      let (symbols, learned) := draft.internAll name.parts
      [draft.scope.current.join symbols,
        (draft.scope.ancestor 1).join (learned.internAll (newName.getD name).parts).1]
  | .useName name _ => [(draft.qualify name 1).1]
  | .data arguments => operandNames line draft arguments
  | .instruction op arguments => operandNames line (draft.push (.byte op.code)) arguments
  | _ => []

/-- every qualified name that a statement forms -/
def formed (draft : Draft) (line : Nat) (statement : Statement) : List Path :=
  draft.localNames statement ++ draft.otherNames line statement

/-! ## They keep the tags of the namespace at hand -/

variable {draft next : Draft}

theorem keeps_take_join (scope : Scope) (length : Nat) (symbols : List Symbol) :
    scope.Keeps ((Path.mk (scope.segments.take length)).join symbols) := by
  intro i segment hi htag
  simp only [Path.join] at hi
  by_cases hlt : i < (scope.segments.take length).length
  · rw [List.getElem?_append_left hlt, List.getElem?_take_of_lt (by simp at hlt; omega)] at hi
    exact hi
  · rw [List.getElem?_append_right (by omega)] at hi
    obtain ⟨symbol, -, rfl⟩ := List.mem_map.1 (List.mem_of_getElem? hi)
    exact absurd rfl htag

theorem keeps_current_join (scope : Scope) (symbols : List Symbol) : scope.Keeps (scope.current.join symbols) := by
  have h := keeps_take_join scope scope.segments.length symbols
  rwa [List.take_length] at h

theorem keeps_demangle_join (scope : Scope) {path shown : Path} {nameless : Symbol}
    (h : path.demangle? nameless = some shown) (symbols : List Symbol) : scope.Keeps (shown.join symbols) := by
  unfold Path.demangle? at h
  split at h
  · simp at h
  · obtain rfl := Option.some.inj h
    intro i segment hi htag
    rcases List.mem_append.1 (List.mem_of_getElem? hi) with hmem | hmem
    · obtain ⟨segment', -, rfl⟩ := List.mem_map.1 hmem
      exact absurd rfl htag
    · obtain ⟨symbol, -, rfl⟩ := List.mem_map.1 hmem
      exact absurd rfl htag

theorem keeps_qualify (draft : Draft) (name : Name) (levels : Nat) :
    draft.scope.Keeps (draft.qualify name levels).1 := by
  simp only [qualify, base]
  cases name.origin with
  | root => exact keeps_take_join draft.scope 0 _
  | above climbed => exact keeps_take_join draft.scope _ _

theorem scope_emit (line : Nat) (draft : Draft) (argument : Argument) : (emit line draft argument).scope = draft.scope := by
  unfold emit
  cases argument.operand <;> rfl

theorem keeps_of_mem_operandNames {line : Nat} {arguments : List Argument} {path : Path}
    (h : path ∈ operandNames line draft arguments) : draft.scope.Keeps path := by
  induction arguments generalizing draft with
  | nil => simp [operandNames] at h
  | cons argument arguments ih =>
    rcases List.mem_append.1 h with h | h
    · cases hoperand : argument.operand with
      | address name half =>
        simp only [hoperand, List.mem_singleton] at h
        rw [h]
        exact keeps_qualify draft name 0
      | _ => simp [hoperand] at h
    · rw [← scope_emit line draft argument]
      exact ih h

/-- **A name keeps the tags of the namespace at hand.** -/
theorem keeps_of_mem_formed {line : Nat} {statement : Statement} {path : Path}
    (h : path ∈ draft.formed line statement) : draft.scope.Keeps path := by
  have hexposed : ∀ name visibility, path ∈ draft.exposedNames name visibility → draft.scope.Keeps path := by
    intro name visibility h
    cases visibility with
    | concealed => simp [exposedNames] at h
    | exposed newName =>
      cases hshown : draft.scope.current.demangle? anonymous with
      | none => simp [exposedNames, hshown] at h
      | some shown =>
        simp only [exposedNames, hshown, List.mem_singleton] at h
        rw [h]
        exact keeps_demangle_join draft.scope hshown _
  cases statement with
  | blank => simp [formed, localNames, otherNames] at h
  | scope change => simp [formed, localNames, otherNames] at h
  | label name visibility =>
    rcases List.mem_cons.1 h with rfl | h
    · exact keeps_current_join draft.scope _
    · exact hexposed name visibility h
  | subroutine name visibility =>
    rcases List.mem_cons.1 h with rfl | h
    · exact keeps_current_join draft.scope _
    · exact hexposed name visibility h
  | exportName name newName =>
    simp only [formed, localNames, otherNames, List.nil_append] at h
    split at h
    · simp at h
    · rcases List.mem_pair.1 h with rfl | rfl
      · exact keeps_current_join draft.scope _
      · exact keeps_take_join draft.scope _ _
  | useName name newName =>
    rcases List.mem_pair.1 h with rfl | rfl
    · exact keeps_current_join draft.scope _
    · exact keeps_qualify draft name 1
  | data arguments => exact keeps_of_mem_operandNames h
  | instruction op arguments => exact @keeps_of_mem_operandNames (draft.push (.byte op.code)) line arguments path h

/-! ## They are all the names that a statement leaves behind -/

/-- the names that the second draft has in its bindings and cells, and the first had not, are among these -/
structure Adds (names : List Path) (draft next : Draft) : Prop where
  entries : ∀ entry ∈ next.labels.entries.toList, entry ∈ draft.labels.entries.toList ∨
    (entry.name ∈ names ∧ ∀ target, entry.binding = .aliasOf target → target ∈ names)
  cells : ∀ cell ∈ next.cells.toList, cell ∈ draft.cells.toList ∨
    ∀ target half line column, cell = .half target half line column → target ∈ names

theorem Adds.of_eq {names : List Path} (hlabels : next.labels = draft.labels) (hcells : next.cells = draft.cells) :
    Adds names draft next :=
  ⟨fun _ h => Or.inl (hlabels ▸ h), fun _ h => Or.inl (hcells ▸ h)⟩

theorem Adds.trans {names : List Path} {a b c : Draft} (hab : Adds names a b) (hbc : Adds names b c) :
    Adds names a c := by
  constructor
  · intro entry h
    rcases hbc.entries entry h with h | h
    · exact hab.entries entry h
    · exact Or.inr h
  · intro cell h
    rcases hbc.cells cell h with h | h
    · exact hab.cells cell h
    · exact Or.inr h

theorem adds_bind {names : List Path} {line : Nat} {name : Path} {binding : Binding} (hname : name ∈ names)
    (hbinding : ∀ target, binding = .aliasOf target → target ∈ names) (h : draft.bind line name binding = .ok next) :
    Adds names draft next := by
  obtain ⟨labels, hdefine, rfl⟩ := bind_eq_ok_iff.1 h
  obtain ⟨hentries, -⟩ := LabelTable.entries_of_define? hdefine
  refine ⟨fun entry hentry => ?_, fun _ => Or.inl⟩
  rw [hentries] at hentry
  rcases List.mem_append.1 hentry with hentry | hentry
  · exact Or.inl hentry
  · rw [List.mem_singleton.1 hentry]
    exact Or.inr ⟨hname, hbinding⟩

theorem adds_push {names : List Path} {cell : Cell}
    (h : ∀ target half line column, cell = .half target half line column → target ∈ names) :
    Adds names draft (draft.push cell) := by
  refine ⟨fun _ => Or.inl, fun found hfound => ?_⟩
  rw [push, Array.toList_push] at hfound
  rcases List.mem_append.1 hfound with hfound | hfound
  · exact Or.inl hfound
  · rw [List.mem_singleton.1 hfound]
    exact Or.inr h

theorem adds_emit {names : List Path} {line : Nat} {argument : Argument}
    (h : ∀ name half, argument.operand = .address name half → (draft.qualify name 0).1 ∈ names) :
    Adds names draft (emit line draft argument) := by
  unfold emit
  cases hoperand : argument.operand with
  | literal value => exact adds_push (by simp)
  | register r => exact adds_push (by simp)
  | address name half =>
    have hlearned : Adds names draft (draft.qualify name 0).2 := .of_eq rfl rfl
    refine hlearned.trans (adds_push ?_)
    rintro target half line column heq
    obtain ⟨rfl, -⟩ := Cell.half.inj heq
    exact h name _ hoperand

theorem adds_emits {line : Nat} {names : List Path} {arguments : List Argument}
    (h : ∀ path ∈ operandNames line draft arguments, path ∈ names) :
    Adds names draft (arguments.foldl (emit line) draft) := by
  induction arguments generalizing draft with
  | nil => exact .of_eq rfl rfl
  | cons argument arguments ih =>
    have hfirst : Adds names draft (emit line draft argument) := by
      apply adds_emit
      intro name half hoperand
      apply h
      simp [operandNames, hoperand]
    exact hfirst.trans (ih fun path hpath => h path (List.mem_append_right _ hpath))

theorem scope_of_bind {line : Nat} {name : Path} {binding : Binding} (h : draft.bind line name binding = .ok next) :
    next.scope = draft.scope := by
  obtain ⟨labels, -, rfl⟩ := bind_eq_ok_iff.1 h
  rfl

theorem symbols_of_bind {line : Nat} {name : Path} {binding : Binding} (h : draft.bind line name binding = .ok next) :
    next.symbols = draft.symbols := by
  obtain ⟨labels, -, rfl⟩ := bind_eq_ok_iff.1 h
  rfl

theorem scope_of_expose {line : Nat} {declared : Path} {name : String} {newName : Option Name}
    (h : draft.expose line declared name newName = .ok next) : next.scope = draft.scope := by
  obtain ⟨space, -, ⟨-, rfl⟩ | ⟨-, hbind⟩⟩ := expose_eq_ok_iff.1 h
  · rfl
  · rw [scope_of_bind hbind]
    rfl

theorem scope_of_declare {line : Nat} {name : String} {visibility : Visibility} {symbol : Symbol}
    (h : draft.declare line name visibility = .ok (symbol, next)) : next.scope = draft.scope := by
  obtain ⟨-, value, bound, -, hbind, h⟩ := declare_eq_ok_iff.1 h
  have hbound := scope_of_bind hbind
  cases visibility with
  | concealed => rw [← h, hbound]; rfl
  | exposed newName => rw [scope_of_expose h, hbound]; rfl

theorem adds_expose {names : List Path} {line : Nat} {declared : Path} {name : String} {newName : Option Name}
    (hdeclared : declared ∈ names)
    (hshown : ∀ space, draft.scope.current.demangle? anonymous = some space →
      space.join (draft.internAll (publicParts name newName)).1 ∈ names)
    (h : draft.expose line declared name newName = .ok next) : Adds names draft next := by
  have hlearned : Adds names draft (draft.internAll (publicParts name newName)).2 := .of_eq rfl rfl
  obtain ⟨space, hspace, ⟨-, rfl⟩ | ⟨-, hbind⟩⟩ := expose_eq_ok_iff.1 h
  · exact hlearned
  · refine hlearned.trans (adds_bind (hshown space hspace) ?_ hbind)
    rintro target ⟨⟩
    exact hdeclared

theorem adds_declare {names : List Path} {line : Nat} {name : String} {visibility : Visibility} {symbol : Symbol}
    (hdeclared : draft.declaredName name ∈ names) (hexposed : ∀ path ∈ draft.exposedNames name visibility, path ∈ names)
    (h : draft.declare line name visibility = .ok (symbol, next)) : Adds names draft next := by
  obtain ⟨rfl, value, bound, -, hbind, h⟩ := declare_eq_ok_iff.1 h
  have hlearned : Adds names draft (draft.intern name).2 := .of_eq rfl rfl
  have hbound := hlearned.trans (adds_bind hdeclared (by simp) hbind)
  cases visibility with
  | concealed => rwa [← h]
  | exposed newName =>
    refine hbound.trans (adds_expose hdeclared ?_ h)
    intro space hspace
    apply hexposed
    have hscope : draft.scope.current.demangle? anonymous = some space := by
      rw [scope_of_bind hbind] at hspace
      exact hspace
    simp [exposedNames, hscope, internAll, symbols_of_bind hbind]

/-- **A line leaves no other names behind.** -/
theorem adds_of_add {line : Nat} {statement : Statement} (h : draft.add line statement = .ok next) :
    Adds (draft.formed line statement) draft next := by
  cases statement with
  | blank =>
    obtain rfl := Except.ok.inj h
    exact .of_eq rfl rfl
  | label name visibility =>
    obtain ⟨symbol, hdeclare⟩ := add_label_eq_ok_iff.1 h
    exact adds_declare List.mem_cons_self (fun _ => List.mem_cons_of_mem _) hdeclare
  | subroutine name visibility =>
    obtain ⟨symbol, declared, hdeclare, rfl⟩ := add_subroutine_eq_ok_iff.1 h
    have hdeclared := adds_declare List.mem_cons_self (fun _ => List.mem_cons_of_mem _) hdeclare
    exact hdeclared.trans (.of_eq rfl rfl)
  | scope change =>
    cases change with
    | leave =>
      obtain ⟨scope, -, rfl⟩ := changeScope_leave_eq_ok_iff.1 h
      exact .of_eq rfl rfl
    | _ =>
      obtain rfl := Except.ok.inj h
      exact .of_eq rfl rfl
  | exportName name newName =>
    obtain ⟨hdepth, hbind⟩ := add_exportName_eq_ok_iff.1 h
    have hformed : draft.formed line (.exportName name newName) =
        [draft.scope.current.join (draft.internAll name.parts).1, (draft.scope.ancestor 1).join
          ((draft.internAll name.parts).2.internAll (newName.getD name).parts).1] := if_neg hdepth
    have hlearned : Adds (draft.formed line (.exportName name newName)) draft
      ((draft.internAll name.parts).2.internAll (newName.getD name).parts).2 := .of_eq rfl rfl
    refine hlearned.trans (adds_bind ?_ ?_ hbind)
    · rw [hformed]
      exact List.mem_cons_of_mem _ List.mem_cons_self
    · rintro target ⟨⟩
      rw [hformed]
      exact List.mem_cons_self
  | useName name newName =>
    have hlearned : Adds (draft.formed line (.useName name newName)) draft
      ((draft.qualify name 1).2.internAll (newName.getD name).parts).2 := .of_eq rfl rfl
    refine hlearned.trans (adds_bind List.mem_cons_self ?_ h)
    rintro target ⟨⟩
    exact List.mem_cons_of_mem _ List.mem_cons_self
  | data arguments =>
    obtain ⟨-, rfl⟩ := checkSize_eq_ok_iff.1 h
    exact adds_emits fun _ => id
  | instruction op arguments =>
    obtain ⟨-, rfl⟩ := checkSize_eq_ok_iff.1 h
    have hcode : Adds (draft.formed line (.instruction op arguments)) draft (draft.push (.byte op.code)) :=
      adds_push (by simp)
    exact hcode.trans (adds_emits fun _ => id)

end Draft

end ByteMachine

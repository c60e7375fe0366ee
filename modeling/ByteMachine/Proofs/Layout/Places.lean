/-
Where bindings and bytes come from. The layout numbers its lines, and each binding and each byte has the number of its
line, a byte also the column of its word. The first reading keeps the number of the line in every binding that it makes,
and number and column in every cell whose name is still to be looked up (`Draft.leaves_add`), so the label table and the
cells of a draft come in the order of the lines and say where they were written (`Draft.placed_of_ofLines`).
-/
import Mathlib.Tactic
import ByteMachine.Proofs.Layout.Correspondence

namespace ByteMachine

namespace Layout

/-- a binding with the number of the line that makes it -/
structure Made where
  route : Route
  meaning : Meaning
  number : Nat
  deriving DecidableEq, Repr

/-- a byte of the image with the number of its line and the column of its word (0 for the byte of an opcode) -/
structure Emitted where
  site : Site
  number : Nat
  column : Nat
  deriving DecidableEq, Repr

def Space.emittedOperand (space : Space) (number : Nat) (argument : Argument) : Emitted :=
  ⟨space.site argument.operand, number, argument.token.column⟩

def Space.emitted (space : Space) (number : Nat) : Statement → List Emitted
  | .data arguments => arguments.map (space.emittedOperand number)
  | .instruction op arguments => ⟨.byte op.code, number, 0⟩ :: arguments.map (space.emittedOperand number)
  | _ => []

def Line.made (line : Line) (number : Nat) : List Made := line.bindings.map fun b => ⟨b.1, b.2, number⟩

/-- the bindings of all lines in order, the first line having the given number -/
def madeFrom (number : Nat) (lines : List Line) : List Made :=
  (lines.zipIdx number).flatMap fun line => line.1.made line.2

/-- the bytes of all lines in order, the first line having the given number -/
def emittedFrom (number : Nat) (lines : List Line) : List Emitted :=
  (lines.zipIdx number).flatMap fun line => line.1.space.emitted line.2 line.1.statement

theorem madeFrom_cons (number : Nat) (line : Line) (lines : List Line) :
    madeFrom number (line :: lines) = line.made number ++ madeFrom (number + 1) lines := by
  rw [madeFrom, List.zipIdx_cons, List.flatMap_cons]
  rfl

theorem emittedFrom_cons (number : Nat) (line : Line) (lines : List Line) :
    emittedFrom number (line :: lines) =
      line.space.emitted number line.statement ++ emittedFrom (number + 1) lines := by
  rw [emittedFrom, List.zipIdx_cons, List.flatMap_cons]
  rfl

theorem map_binding_madeFrom (number : Nat) (lines : List Line) :
    (madeFrom number lines).map (fun made => (made.route, made.meaning)) = tableOf lines := by
  induction lines generalizing number with
  | nil => rfl
  | cons line lines ih =>
    rw [madeFrom_cons, List.map_append, ih, Line.made, List.map_map]
    exact congrArg (· ++ _) (List.map_id _)

theorem map_site_emitted (space : Space) (number : Nat) (statement : Statement) :
    (space.emitted number statement).map (·.site) = space.sites statement := by
  cases statement <;> simp [Space.emitted, Space.sites, Space.emittedOperand]

theorem map_site_emittedFrom (number : Nat) (lines : List Line) :
    (emittedFrom number lines).map (·.site) = lines.flatMap Line.sites := by
  induction lines generalizing number with
  | nil => rfl
  | cons line lines ih =>
    rw [emittedFrom_cons, List.map_append, ih, map_site_emitted, List.flatMap_cons]
    rfl

end Layout

open Layout

/-- the cell of a byte: one whose name is still to be looked up knows where its operand is written -/
inductive Cell.StandsAt : Cell → Emitted → Prop
  | byte (value : Byte) (emitted : Emitted) : StandsAt (.byte value) emitted
  | half {target : Path} {half : Half} {emitted : Emitted} :
      StandsAt (.half target half emitted.number emitted.column) emitted

namespace Draft

/-- what a line leaves behind in a draft: bindings with the number of the line, and the cells of its bytes, all after
those that are there -/
structure Leaves (number : Nat) (emitted : List Emitted) (draft next : Draft) : Prop where
  entries : ∃ new, next.labels.entries.toList = draft.labels.entries.toList ++ new ∧ ∀ entry ∈ new, entry.line = number
  cells : ∃ new, next.cells.toList = draft.cells.toList ++ new ∧ List.Forall₂ Cell.StandsAt new emitted

variable {draft next : Draft} {number : Nat}

theorem Leaves.of_eq (hlabels : next.labels = draft.labels) (hcells : next.cells = draft.cells) :
    Leaves number [] draft next :=
  ⟨⟨[], by rw [hlabels, List.append_nil], by simp⟩, ⟨[], by rw [hcells, List.append_nil], .nil⟩⟩

theorem Leaves.trans {first second : List Emitted} {middle : Draft} (h : Leaves number first draft middle)
    (h' : Leaves number second middle next) : Leaves number (first ++ second) draft next := by
  obtain ⟨⟨entries, hentries, hlines⟩, ⟨cells, hcells, hstands⟩⟩ := h
  obtain ⟨⟨entries', hentries', hlines'⟩, ⟨cells', hcells', hstands'⟩⟩ := h'
  refine ⟨⟨entries ++ entries', ?_, ?_⟩, ⟨cells ++ cells', ?_, List.rel_append hstands hstands'⟩⟩
  · rw [hentries', hentries, List.append_assoc]
  · intro entry hentry
    rcases List.mem_append.1 hentry with hentry | hentry
    · exact hlines entry hentry
    · exact hlines' entry hentry
  · rw [hcells', hcells, List.append_assoc]

/-! ## Bindings -/

theorem leaves_bind {name : Path} {binding : Binding} (h : draft.bind number name binding = .ok next) :
    Leaves number [] draft next := by
  obtain ⟨labels, hdefine, rfl⟩ := bind_eq_ok_iff.1 h
  obtain ⟨hentries, -⟩ := LabelTable.entries_of_define? hdefine
  exact ⟨⟨_, hentries, by simp⟩, ⟨[], by rw [List.append_nil], .nil⟩⟩

theorem leaves_expose {declared : Path} {name : String} {newName : Option Name}
    (h : draft.expose number declared name newName = .ok next) : Leaves number [] draft next := by
  have hlearned : Leaves number [] draft (draft.internAll (publicParts name newName)).2 := .of_eq rfl rfl
  obtain ⟨space, -, ⟨-, rfl⟩ | ⟨-, hbind⟩⟩ := expose_eq_ok_iff.1 h
  · exact hlearned
  · exact hlearned.trans (leaves_bind hbind)

theorem leaves_declare {name : String} {visibility : Visibility} {symbol : Symbol}
    (h : draft.declare number name visibility = .ok (symbol, next)) : Leaves number [] draft next := by
  obtain ⟨-, value, bound, -, hbind, h⟩ := declare_eq_ok_iff.1 h
  have hlearned : Leaves number [] draft (draft.intern name).2 := .of_eq rfl rfl
  have hbound := hlearned.trans (leaves_bind hbind)
  cases visibility with
  | concealed => rwa [← h]
  | exposed newName => exact hbound.trans (leaves_expose h)

/-! ## Bytes -/

theorem leaves_push {cell : Cell} {emitted : Emitted} (h : cell.StandsAt emitted) :
    Leaves number [emitted] draft (draft.push cell) :=
  ⟨⟨[], by rw [List.append_nil]; rfl, by simp⟩, ⟨[cell], Array.toList_push, .cons h .nil⟩⟩

theorem leaves_emit (space : Space) (argument : Argument) :
    Leaves number [space.emittedOperand number argument] draft (emit number draft argument) := by
  unfold emit
  cases argument.operand with
  | literal value => exact leaves_push (.byte _ _)
  | register r => exact leaves_push (.byte _ _)
  | address name half =>
    have hlearned : Leaves number [] draft (draft.qualify name 0).2 := .of_eq rfl rfl
    exact hlearned.trans (leaves_push (@Cell.StandsAt.half _ _ (space.emittedOperand number argument)))

theorem leaves_emits (space : Space) (arguments : List Argument) :
    Leaves number (arguments.map (space.emittedOperand number)) draft (arguments.foldl (emit number) draft) := by
  induction arguments generalizing draft with
  | nil => exact .of_eq rfl rfl
  | cons argument arguments ih => exact (leaves_emit space argument).trans ih

/-! ## Lines -/

/-- **A line leaves its number behind.** -/
theorem leaves_add (space : Space) {statement : Statement} (h : draft.add number statement = .ok next) :
    Leaves number (space.emitted number statement) draft next := by
  cases statement with
  | blank =>
    obtain rfl := Except.ok.inj h
    exact .of_eq rfl rfl
  | label name visibility =>
    obtain ⟨symbol, hdeclare⟩ := add_label_eq_ok_iff.1 h
    exact leaves_declare hdeclare
  | subroutine name visibility =>
    obtain ⟨symbol, declared, hdeclare, rfl⟩ := add_subroutine_eq_ok_iff.1 h
    exact (leaves_declare hdeclare).trans (.of_eq rfl rfl)
  | scope change =>
    cases change with
    | leave =>
      obtain ⟨scope, -, rfl⟩ := changeScope_leave_eq_ok_iff.1 h
      exact .of_eq rfl rfl
    | _ =>
      obtain rfl := Except.ok.inj h
      exact .of_eq rfl rfl
  | exportName name newName =>
    obtain ⟨-, hbind⟩ := add_exportName_eq_ok_iff.1 h
    have hlearned : Leaves number [] draft
      ((draft.internAll name.parts).2.internAll (newName.getD name).parts).2 := .of_eq rfl rfl
    exact hlearned.trans (leaves_bind hbind)
  | useName name newName =>
    have hlearned : Leaves number [] draft
      ((draft.qualify name 1).2.internAll (newName.getD name).parts).2 := .of_eq rfl rfl
    exact hlearned.trans (leaves_bind h)
  | data arguments =>
    obtain ⟨-, rfl⟩ := checkSize_eq_ok_iff.1 h
    exact leaves_emits space arguments
  | instruction op arguments =>
    obtain ⟨-, rfl⟩ := checkSize_eq_ok_iff.1 h
    have hcode : Leaves number [⟨.byte op.code, number, 0⟩] draft (draft.push (.byte op.code)) :=
      leaves_push (.byte _ _)
    exact hcode.trans (leaves_emits space arguments)

variable {mount : Word} {space : Space} {table : List (Route × Meaning)} {sites : List Site}

/-- the bindings that a line leaves behind are as many as the layout says, so their numbers are known -/
theorem Follows.numbers_add (h : draft.Follows mount space table sites) {statement : Statement}
    (ha : draft.add number statement = .ok next) :
    next.labels.entries.toList.map (·.line) = draft.labels.entries.toList.map (·.line) ++
      ((Line.mk space draft.address statement).made number).map (·.number) := by
  obtain ⟨new, hnew, hlines⟩ := (leaves_add space ha).entries
  have hlength : new.length = ((Line.mk space draft.address statement).made number).length := by
    have hbefore := h.bound.length_eq
    have hafter := (h.add ha).bound.length_eq
    rw [hnew, List.length_append, List.length_append, hbefore] at hafter
    rw [Line.made, List.length_map]
    exact Nat.add_left_cancel hafter
  have hnumbers : ((Line.mk space draft.address statement).made number).map (·.number) =
      List.replicate new.length number := by
    rw [hlength, List.map_eq_replicate_iff]
    intro made hmade
    obtain ⟨binding, -, rfl⟩ := List.mem_map.1 hmade
    rfl
  rw [hnew, List.map_append, hnumbers, List.map_eq_replicate_iff.2 hlines]

theorem Follows.places_addLines (h : draft.Follows mount space table sites) {texts : List String}
    {statements : List Statement}
    (hparses : List.Forall₂ (fun text statement => Statement.parse text = .ok statement) texts statements)
    (ha : draft.addLines number texts = .ok next) :
    next.labels.entries.toList.map (·.line) = draft.labels.entries.toList.map (·.line) ++
        (madeFrom number (lay space draft.address statements)).map (·.number) ∧
      ∃ new, next.cells.toList = draft.cells.toList ++ new ∧
        List.Forall₂ Cell.StandsAt new (emittedFrom number (lay space draft.address statements)) := by
  induction hparses generalizing draft number space table sites with
  | nil =>
    obtain rfl := Except.ok.inj ha
    exact ⟨by simp [lay, madeFrom], [], by simp, .nil⟩
  | @cons text statement texts statements hparse _ ih =>
    obtain ⟨added, hadded, ha⟩ := addLines_cons_eq_ok_iff.1 ha
    obtain ⟨statement', hparse', hadd⟩ := addLine_eq_ok_iff.1 hadded
    obtain rfl := Except.ok.inj (hparse.symm.trans hparse')
    have hfollows := h.add hadd
    have haddress : added.address = draft.address + (space.sites statement).length := by
      rw [hfollows.address_eq, h.address_eq, List.length_append, Nat.add_assoc]
    obtain ⟨hnumbers, cells, hcells, hstands⟩ := ih hfollows ha
    obtain ⟨cells', hcells', hstands'⟩ := (leaves_add space hadd).cells
    rw [haddress] at hnumbers hstands
    rw [lay, madeFrom_cons, emittedFrom_cons]
    refine ⟨?_, cells' ++ cells, ?_, List.rel_append hstands' hstands⟩
    · rw [hnumbers, h.numbers_add hadd, List.append_assoc, List.map_append]
    · rw [hcells, hcells', List.append_assoc]

/-- a draft whose bindings and cells come in the order of the lines and say where they were written -/
structure Placed (draft : Draft) (lines : List Line) : Prop where
  distinct : draft.symbols.Distinct
  once : draft.labels.Once
  bound : List.Forall₂ (fun entry made => entry.Means draft.symbols (made.route, made.meaning) ∧
    entry.line = made.number) draft.labels.entries.toList (madeFrom 1 lines)
  laid : List.Forall₂ (fun cell emitted => cell.Means draft.symbols emitted.site ∧ cell.StandsAt emitted)
    draft.cells.toList (emittedFrom 1 lines)

/-- **The first reading keeps places.** -/
theorem placed_of_ofLines {texts : List String} (h : ofLines texts mount = .ok draft) :
    ∃ statements, List.Forall₂ (fun text statement => Statement.parse text = .ok statement) texts statements ∧
      draft.Placed (lay Space.initial mount.toNat statements) := by
  have hstart := start_follows mount
  obtain ⟨statements, hparses, hfollows⟩ := hstart.addLines h
  obtain ⟨hnumbers, cells, hcells, hstands⟩ := hstart.places_addLines hparses h
  have haddress : (start mount).address = mount.toNat := hstart.address_eq
  rw [haddress] at hnumbers hstands hfollows
  refine ⟨statements, hparses, hfollows.distinct, hfollows.once, ?_, ?_⟩
  · have hbound := hfollows.bound
    rw [List.nil_append, ← map_binding_madeFrom 1, List.forall₂_map_right_iff] at hbound
    have hlines : List.Forall₂ (fun (entry : LabelTable.Entry) made => entry.line = made.number)
        draft.labels.entries.toList (madeFrom 1 (lay Space.initial mount.toNat statements)) := by
      have hempty : (start mount).labels.entries.toList = [] := rfl
      rw [hempty, List.map_nil, List.nil_append, ← List.forall₂_eq_eq_eq] at hnumbers
      rwa [List.forall₂_map_left_iff, List.forall₂_map_right_iff] at hnumbers
    exact List.Forall₂.mp (fun _ _ hmeans hline => ⟨hmeans, hline⟩) hbound hlines
  · have hlaid := hfollows.laid
    rw [List.nil_append, ← map_site_emittedFrom 1, List.forall₂_map_right_iff] at hlaid
    have hcells : draft.cells.toList = cells := hcells
    rw [hcells] at hlaid
    rw [hcells]
    exact List.Forall₂.mp (fun _ _ hmeans hstands => ⟨hmeans, hstands⟩) hlaid hstands

end Draft

end ByteMachine

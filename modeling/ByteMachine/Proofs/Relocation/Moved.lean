/-
Drafts moved to another mount address. `Draft.moved` changes the mount and moves the address of every label along with
it; symbols, namespaces and cells stay. Each operation of the reading does the same to a moved draft, as long as it does
not run out of addresses, which it does not where the mount moves down (`Draft.moved_addLines`).
-/
import Mathlib.Tactic
import ByteMachine.Assembly.Image
import ByteMachine.Proofs.Layout.Correspondence

namespace ByteMachine

def Word.moved (value old new : Word) : Word := value - old + new

def Binding.moved (old new : Word) : Binding → Binding
  | .address value => .address (value.moved old new)
  | .aliasOf target => .aliasOf target

def LabelTable.Entry.moved (old new : Word) (entry : Entry) : Entry :=
  { entry with binding := entry.binding.moved old new }

def LabelTable.moved (table : LabelTable) (old new : Word) : LabelTable :=
  ⟨table.entries.map (Entry.moved old new)⟩

/-- the draft of the same lines at another mount address -/
def Draft.moved (draft : Draft) (mount : Word) : Draft :=
  { draft with mount, labels := draft.labels.moved draft.mount mount }

namespace LabelTable

variable (table : LabelTable) (old new : Word)

theorem find?_moved (name : Path) : (table.moved old new).find? name = (table.find? name).map (Entry.moved old new) := by
  simp only [find?, moved, Array.find?_map]
  rfl

theorem define?_moved (name : Path) (binding : Binding) (line : Nat) :
    (table.moved old new).define? name (binding.moved old new) line =
      (table.define? name binding line).map (·.moved old new) := by
  unfold define?
  rw [find?_moved, Option.isSome_map]
  by_cases hbound : (table.find? name).isSome
  · rw [if_pos hbound, if_pos hbound, Option.map_none]
  · rw [if_neg hbound, if_neg hbound, Option.map_some]
    simp [moved, Entry.moved]

theorem binding?_moved (name : Path) :
    (table.moved old new).binding? name = (table.binding? name).map (Binding.moved old new) := by
  rw [binding?, binding?, find?_moved, Option.map_map, Option.map_map]
  rfl

theorem follow_moved (fuel : Nat) (visited : List Path) (name : Path) :
    follow (table.moved old new).binding? fuel visited name =
      (follow table.binding? fuel visited name).map (·.moved old new) := by
  induction fuel generalizing visited name with
  | zero => rfl
  | succ fuel ih =>
    rw [follow, follow, binding?_moved]
    by_cases hvisited : name ∈ visited
    · rw [if_pos hvisited, if_pos hvisited]
      rfl
    · rw [if_neg hvisited, if_neg hvisited]
      cases table.binding? name with
      | none => rfl
      | some binding =>
        cases binding with
        | address value => rfl
        | aliasOf target => exact ih _ _

theorem resolve_moved (name : Path) :
    (table.moved old new).resolve name = (table.resolve name).map (·.moved old new) := by
  have hsize : (table.moved old new).size = table.size := Array.size_map
  rw [resolve, resolve, hsize, follow_moved]

end LabelTable

namespace Draft

variable {draft next : Draft} {mount : Word}

/-! ## Operations of a moved draft -/

theorem address_moved_le (hle : mount ≤ draft.mount) : (draft.moved mount).address ≤ draft.address :=
  Nat.add_le_add_right (UInt16.le_iff_toNat_le.1 hle) _

/-- a byte of an image keeps its distance from the first one -/
theorem moved_ofNat_add (old new : Word) (offset : Nat) :
    Word.moved (UInt16.ofNat (old.toNat + offset)) old new = UInt16.ofNat (new.toNat + offset) := by
  apply UInt16.toNat_inj.1
  have := old.toNat_lt
  have := new.toNat_lt
  simp only [Word.moved, UInt16.toNat_add, UInt16.toNat_sub, UInt16.toNat_ofNat']
  omega

theorem moved_here (hle : mount ≤ draft.mount) {value : Word} (h : draft.here = .ok value) :
    (draft.moved mount).here = .ok (value.moved draft.mount mount) := by
  obtain ⟨hlt, rfl⟩ := here_eq_ok_iff.1 h
  refine here_eq_ok_iff.2 ⟨(address_moved_le hle).trans_lt hlt, ?_⟩
  exact (moved_ofNat_add draft.mount mount draft.cells.size).symm

theorem moved_checkSize (hle : mount ≤ draft.mount) (h : draft.checkSize = .ok next) :
    (draft.moved mount).checkSize = .ok (next.moved mount) := by
  obtain ⟨hfits, rfl⟩ := checkSize_eq_ok_iff.1 h
  exact checkSize_eq_ok_iff.2 ⟨(address_moved_le hle).trans hfits, rfl⟩

theorem moved_bind {line : Nat} {name : Path} {binding : Binding} (h : draft.bind line name binding = .ok next) :
    (draft.moved mount).bind line name (binding.moved draft.mount mount) = .ok (next.moved mount) := by
  obtain ⟨labels, hdefine, rfl⟩ := bind_eq_ok_iff.1 h
  have hmoved := draft.labels.define?_moved draft.mount mount name binding line
  rw [hdefine] at hmoved
  exact bind_eq_ok_iff.2 ⟨_, hmoved, rfl⟩

theorem moved_expose {line : Nat} {declared : Path} {name : String} {newName : Option Name}
    (h : draft.expose line declared name newName = .ok next) :
    (draft.moved mount).expose line declared name newName = .ok (next.moved mount) := by
  obtain ⟨space, hspace, ⟨hsame, rfl⟩ | ⟨hother, hbind⟩⟩ := expose_eq_ok_iff.1 h
  · exact expose_eq_ok_iff.2 ⟨space, hspace, Or.inl ⟨hsame, rfl⟩⟩
  · exact expose_eq_ok_iff.2 ⟨space, hspace, Or.inr ⟨hother, moved_bind hbind⟩⟩

theorem moved_declare (hle : mount ≤ draft.mount) {line : Nat} {name : String} {visibility : Visibility} {symbol : Symbol}
    (h : draft.declare line name visibility = .ok (symbol, next)) :
    (draft.moved mount).declare line name visibility = .ok (symbol, next.moved mount) := by
  obtain ⟨hsymbol, value, bound, hhere, hbind, h⟩ := declare_eq_ok_iff.1 h
  have hhere' := @moved_here (draft.intern name).2 mount hle value hhere
  have hbind' := @moved_bind _ _ mount _ _ _ hbind
  refine declare_eq_ok_iff.2 ⟨hsymbol, _, _, hhere', hbind', ?_⟩
  cases visibility with
  | concealed => exact congrArg (·.moved mount) h
  | exposed newName => exact moved_expose h

theorem moved_changeScope {change : ScopeChange} (h : draft.changeScope change = .ok next) :
    (draft.moved mount).changeScope change = .ok (next.moved mount) := by
  cases change with
  | leave =>
    obtain ⟨scope, hpop, rfl⟩ := changeScope_leave_eq_ok_iff.1 h
    exact changeScope_leave_eq_ok_iff.2 ⟨scope, hpop, rfl⟩
  | _ =>
    obtain rfl := Except.ok.inj h
    rfl

theorem moved_emit (line : Nat) (argument : Argument) :
    emit line (draft.moved mount) argument = (emit line draft argument).moved mount := by
  unfold emit
  cases argument.operand <;> rfl

theorem moved_emits (line : Nat) (arguments : List Argument) :
    arguments.foldl (emit line) (draft.moved mount) = (arguments.foldl (emit line) draft).moved mount := by
  induction arguments generalizing draft with
  | nil => rfl
  | cons argument arguments ih => rw [List.foldl_cons, List.foldl_cons, moved_emit, ih]

theorem mount_emits (line : Nat) (arguments : List Argument) :
    (arguments.foldl (emit line) draft).mount = draft.mount := by
  induction arguments generalizing draft with
  | nil => rfl
  | cons argument arguments ih =>
    rw [List.foldl_cons, ih]
    unfold emit
    cases argument.operand <;> rfl

/-! ## Lines of a moved draft -/

theorem moved_add (hle : mount ≤ draft.mount) {line : Nat} {statement : Statement}
    (h : draft.add line statement = .ok next) :
    (draft.moved mount).add line statement = .ok (next.moved mount) := by
  cases statement with
  | blank =>
    obtain rfl := Except.ok.inj h
    rfl
  | label name visibility =>
    obtain ⟨symbol, hdeclare⟩ := add_label_eq_ok_iff.1 h
    exact add_label_eq_ok_iff.2 ⟨symbol, moved_declare hle hdeclare⟩
  | subroutine name visibility =>
    obtain ⟨symbol, declared, hdeclare, rfl⟩ := add_subroutine_eq_ok_iff.1 h
    exact add_subroutine_eq_ok_iff.2 ⟨symbol, _, moved_declare hle hdeclare, rfl⟩
  | scope change => exact moved_changeScope h
  | exportName name newName =>
    obtain ⟨hdepth, hbind⟩ := add_exportName_eq_ok_iff.1 h
    exact add_exportName_eq_ok_iff.2 ⟨hdepth, moved_bind hbind⟩
  | useName name newName => exact @moved_bind _ _ mount _ _ _ h
  | data arguments =>
    have hmount := @mount_emits draft line arguments
    simp only [Draft.add] at h ⊢
    rw [moved_emits]
    exact moved_checkSize (hmount ▸ hle) h
  | instruction op arguments =>
    have hmount := @mount_emits (draft.push (.byte op.code)) line arguments
    simp only [Draft.add] at h ⊢
    have hcode : (draft.moved mount).push (.byte op.code) = (draft.push (.byte op.code)).moved mount := rfl
    rw [hcode, moved_emits]
    exact moved_checkSize (hmount ▸ hle) h

end Draft

end ByteMachine

/-
Drafts that continue others. After some lines the next ones can be read as if the image began with them, at the next
address, with the names and namespaces at hand. The cells laid out before are put in front afterwards.

`Draft.continued_addLines`: lines do the same to a draft and to the one it continues.
-/
import Mathlib.Tactic
import ByteMachine.Proofs.Parallel.Prefixes

namespace ByteMachine.Draft

/-- nothing laid out yet, and the next address as the mount address -/
def ended (draft : Draft) : Draft := { draft with mount := UInt16.ofNat draft.address, cells := #[] }

/-- the draft after cells that were laid out before it, the first of which lies at the mount address -/
def continued (draft : Draft) (mount : Word) (before : List Cell) : Draft :=
  { draft with mount, cells := (before ++ draft.cells.toList).toArray }

/-- a draft continues itself from its end -/
theorem continued_ended (draft : Draft) : draft.ended.continued draft.mount draft.cells.toList = draft := by
  simp [ended, continued]

variable {draft next : Draft} {mount : Word} {before : List Cell} {line : Nat}

theorem mount_ended (h : draft.address < addressSpace) : draft.ended.mount.toNat = draft.address :=
  UInt16.toNat_ofNat_of_lt' h

/-! ## Operations of a continued draft -/

section Place

variable (hplace : mount.toNat + before.length = draft.mount.toNat)

include hplace

theorem address_continued : (draft.continued mount before).address = draft.address := by
  rw [address, address, continued, List.size_toArray, List.length_append, ← Nat.add_assoc, hplace, Array.length_toList]

theorem continued_here {value : Word} (h : draft.here = .ok value) : (draft.continued mount before).here = .ok value := by
  rw [here_eq_ok_iff, address_continued hplace]
  exact here_eq_ok_iff.1 h

theorem continued_checkSize (h : draft.checkSize = .ok next) :
    (draft.continued mount before).checkSize = .ok (next.continued mount before) := by
  obtain ⟨hfits, rfl⟩ := checkSize_eq_ok_iff.1 h
  exact checkSize_eq_ok_iff.2 ⟨(address_continued hplace).trans_le hfits, rfl⟩

end Place

theorem continued_bind {name : Path} {binding : Binding} (h : draft.bind line name binding = .ok next) :
    (draft.continued mount before).bind line name binding = .ok (next.continued mount before) := by
  obtain ⟨labels, hdefine, rfl⟩ := bind_eq_ok_iff.1 h
  exact bind_eq_ok_iff.2 ⟨labels, hdefine, rfl⟩

theorem continued_expose {declared : Path} {name : String} {newName : Option Name}
    (h : draft.expose line declared name newName = .ok next) :
    (draft.continued mount before).expose line declared name newName = .ok (next.continued mount before) := by
  obtain ⟨space, hspace, ⟨hsame, rfl⟩ | ⟨hother, hbind⟩⟩ := expose_eq_ok_iff.1 h
  · exact expose_eq_ok_iff.2 ⟨space, hspace, .inl ⟨hsame, rfl⟩⟩
  · exact expose_eq_ok_iff.2 ⟨space, hspace, .inr ⟨hother, continued_bind hbind⟩⟩

theorem continued_declare (hplace : mount.toNat + before.length = draft.mount.toNat) {name : String}
    {visibility : Visibility} {symbol : Symbol} (h : draft.declare line name visibility = .ok (symbol, next)) :
    (draft.continued mount before).declare line name visibility = .ok (symbol, next.continued mount before) := by
  obtain ⟨hsymbol, value, bound, hhere, hbind, h⟩ := declare_eq_ok_iff.1 h
  have hhere' := @continued_here (draft.intern name).2 mount before hplace value hhere
  have hbind' := @continued_bind _ _ mount before _ _ _ hbind
  refine declare_eq_ok_iff.2 ⟨hsymbol, _, _, hhere', hbind', ?_⟩
  cases visibility with
  | concealed => exact congrArg (·.continued mount before) h
  | exposed newName => exact continued_expose h

theorem continued_changeScope {change : ScopeChange} (h : draft.changeScope change = .ok next) :
    (draft.continued mount before).changeScope change = .ok (next.continued mount before) := by
  cases change with
  | leave =>
    obtain ⟨scope, hpop, rfl⟩ := changeScope_leave_eq_ok_iff.1 h
    exact changeScope_leave_eq_ok_iff.2 ⟨scope, hpop, rfl⟩
  | _ =>
    obtain rfl := Except.ok.inj h
    rfl

theorem continued_push (cell : Cell) :
    (draft.continued mount before).push cell = (draft.push cell).continued mount before := by
  simp [push, continued]

theorem continued_emit (argument : Argument) :
    emit line (draft.continued mount before) argument = (emit line draft argument).continued mount before := by
  unfold emit
  cases argument.operand with
  | literal value => exact continued_push _
  | register r => exact continued_push _
  | address name half => exact @continued_push (draft.qualify name 0).2 _ _ _

theorem continued_emits (arguments : List Argument) :
    arguments.foldl (emit line) (draft.continued mount before) =
      (arguments.foldl (emit line) draft).continued mount before := by
  induction arguments generalizing draft with
  | nil => rfl
  | cons argument arguments ih => rw [List.foldl_cons, List.foldl_cons, continued_emit, ih]

/-! ## Lines of a continued draft -/

theorem continued_add (hplace : mount.toNat + before.length = draft.mount.toNat) {statement : Statement}
    (h : draft.add line statement = .ok next) :
    (draft.continued mount before).add line statement = .ok (next.continued mount before) := by
  cases statement with
  | blank =>
    obtain rfl := Except.ok.inj h
    rfl
  | label name visibility =>
    obtain ⟨symbol, hdeclare⟩ := add_label_eq_ok_iff.1 h
    exact add_label_eq_ok_iff.2 ⟨symbol, continued_declare hplace hdeclare⟩
  | subroutine name visibility =>
    obtain ⟨symbol, declared, hdeclare, rfl⟩ := add_subroutine_eq_ok_iff.1 h
    exact add_subroutine_eq_ok_iff.2 ⟨symbol, _, continued_declare hplace hdeclare, rfl⟩
  | scope change => exact continued_changeScope h
  | exportName name newName =>
    obtain ⟨hdepth, hbind⟩ := add_exportName_eq_ok_iff.1 h
    exact add_exportName_eq_ok_iff.2 ⟨hdepth, continued_bind hbind⟩
  | useName name newName => exact @continued_bind _ _ mount before _ _ _ h
  | data arguments =>
    have hmount := (extends_emits line draft arguments).mount
    simp only [Draft.add] at h ⊢
    rw [continued_emits]
    exact continued_checkSize (by rw [hmount, hplace]) h
  | instruction op arguments =>
    have hmount := (extends_emits line (draft.push (.byte op.code)) arguments).mount
    simp only [Draft.add] at h ⊢
    rw [continued_push, continued_emits]
    exact continued_checkSize (by rw [hmount]; exact hplace) h

/-- **Lines do the same to a draft and to the one it continues.** -/
theorem continued_addLines (hplace : mount.toNat + before.length = draft.mount.toNat) {number : Nat}
    {texts : List String} (h : draft.addLines number texts = .ok next) :
    (draft.continued mount before).addLines number texts = .ok (next.continued mount before) := by
  induction texts generalizing draft number with
  | nil =>
    obtain rfl := Except.ok.inj h
    rfl
  | cons text texts ih =>
    obtain ⟨added, hadded, hrest⟩ := addLines_cons_eq_ok_iff.1 h
    obtain ⟨statement, hparse, hadd⟩ := addLine_eq_ok_iff.1 hadded
    have hplace' : mount.toNat + before.length = added.mount.toNat := by rw [hplace, (extends_add hadd).mount]
    exact addLines_cons_eq_ok_iff.2
      ⟨_, addLine_eq_ok_iff.2 ⟨statement, hparse, continued_add hplace hadd⟩, ih hplace' hrest⟩

end ByteMachine.Draft

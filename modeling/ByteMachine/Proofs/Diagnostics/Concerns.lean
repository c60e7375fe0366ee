/-
What an error is about. The form of a line is found wrong before anything is done with it; names and room are found wrong
by the first reading when it adds a line; names that lead nowhere are found by the second reading. No step has an error
of another's concern.

- `AssemblyError.Cause.concern`: what a reason is about.
- `Statement.Exceeds`: there is no room for what a statement says.
- `Statement.concern_of_parse`, `Draft.add_eq_error`, `Draft.concern_of_link`: the errors of each step.
-/
import Mathlib.Tactic
import ByteMachine.Assembly.Image
import ByteMachine.Proofs.Layout.Places
import ByteMachine.Proofs.Reading.Complaints
import ByteMachine.Proofs.Relocation.Moved

namespace ByteMachine

namespace AssemblyError

inductive Concern where
  /-- the words of a line -/
  | form
  /-- a name that is bound, or a namespace that is left -/
  | names
  /-- the end of the address space -/
  | room
  /-- a name that leads nowhere -/
  | links
  /-- the file that the text comes from -/
  | file
  deriving DecidableEq, Repr

def Cause.concern : Cause → Concern
  | .malformed _ | .unknownMnemonic _ | .arityMismatch _ _ _ | .invalidOperand _ _ => .form
  | .duplicateLabel _ | .popRoot | .exportFromAnonymous _ | .exportFromRoot _ => .names
  | .programTooLarge _ _ => .room
  | .undefinedLabel _ | .aliasCycle _ => .links
  | .unreadable _ => .file

end AssemblyError

/-! ## Words -/

namespace Statement

theorem Complaint.Points.concern {words : List Token} {complaint : Complaint} (h : complaint.Points words) :
    complaint.cause.concern = .form := by
  cases h <;> rfl

theorem concern_of_parse {text : String} {complaint : Complaint} (h : parse text = .error complaint) :
    complaint.cause.concern = .form := (points_of_ofTokens h).concern

/-! ## Sizes -/

def size : Statement → Nat
  | .data arguments => arguments.length
  | .instruction _ arguments => arguments.length + 1
  | _ => 0

def declared : Statement → Option String
  | .label name _ | .subroutine name _ => some name
  | _ => none

/-- there is no room for the statement where so many addresses are taken: its bytes go beyond the last address, or there
is no address for its label -/
def Exceeds (statement : Statement) (taken : Nat) : Prop :=
  (0 < statement.size ∧ Draft.addressSpace < taken + statement.size) ∨
    (statement.declared.isSome ∧ taken = Draft.addressSpace)

instance (statement : Statement) (taken : Nat) : Decidable (statement.Exceeds taken) :=
  inferInstanceAs (Decidable (_ ∨ _))

end Statement

/-! ## Lines -/

namespace Draft

variable {draft next : Draft} {line : Nat} {cause : AssemblyError.Cause}

theorem here_eq_error_iff : draft.here = .error cause ↔ addressSpace ≤ draft.address ∧ cause = draft.tooLarge := by
  unfold here
  split_ifs with hfits
  · simp [hfits]
  · simp [Nat.le_of_not_lt hfits, eq_comm]

theorem checkSize_eq_error_iff :
    draft.checkSize = .error cause ↔ addressSpace < draft.address ∧ cause = draft.tooLarge := by
  unfold checkSize
  split_ifs with hfits
  · simp [hfits]
  · simp [Nat.lt_of_not_le hfits, eq_comm]

theorem concern_of_bind {name : Path} {binding : Binding} (h : draft.bind line name binding = .error cause) :
    cause.concern = .names := by
  unfold Draft.bind at h
  split at h
  · cases h
  · obtain rfl := Except.error.inj h
    rfl

theorem concern_of_expose {declared : Path} {name : String} {newName : Option Name}
    (h : draft.expose line declared name newName = .error cause) : cause.concern = .names := by
  unfold Draft.expose at h
  split at h
  · obtain rfl := Except.error.inj h
    rfl
  · dsimp only at h
    split_ifs at h
    exact concern_of_bind h

/-- a label is rejected because there is no address for it, or else for its name -/
theorem declare_eq_error {name : String} {visibility : Visibility} (h : draft.declare line name visibility = .error cause) :
    addressSpace ≤ draft.address ∧ cause = draft.tooLarge ∨ cause.concern = .names := by
  rcases Attempt.bind_eq_error_iff.1 h with hroom | ⟨value, -, hthen⟩
  · exact .inl (here_eq_error_iff.1 hroom)
  · refine .inr ?_
    rcases Attempt.bind_eq_error_iff.1 hthen with hbind | ⟨bound, -, hexpose⟩
    · exact concern_of_bind hbind
    · cases visibility with
      | concealed => cases hexpose
      | exposed newName =>
        rcases Attempt.bind_eq_error_iff.1 hexpose with hfault | ⟨_, -, hdone⟩
        · exact concern_of_expose hfault
        · cases hdone

theorem declare_of_noAddress (h : addressSpace ≤ draft.address) (name : String) (visibility : Visibility) :
    draft.declare line name visibility = .error draft.tooLarge := by
  have hhere : (draft.intern name).2.here = .error draft.tooLarge := here_eq_error_iff.2 ⟨h, rfl⟩
  exact Attempt.bind_eq_error_iff.2 (.inl hhere)

theorem size_emits (arguments : List Argument) :
    (arguments.foldl (emit line) draft).cells.size = draft.cells.size + arguments.length := by
  obtain ⟨-, ⟨new, hcells, hstands⟩⟩ := @leaves_emits draft line Layout.Space.initial arguments
  have hlength := congrArg List.length hcells
  rw [List.length_append, hstands.length_eq, List.length_map] at hlength
  exact hlength

theorem add_data_eq_error_iff {arguments : List Argument} :
    draft.add line (.data arguments) = .error cause ↔
      addressSpace < draft.address + arguments.length ∧
        cause = .programTooLarge draft.mount (draft.cells.size + arguments.length) := by
  rw [Draft.add, checkSize_eq_error_iff, tooLarge, address, size_emits, mount_emits, address, Nat.add_assoc]

theorem add_instruction_eq_error_iff {op : Opcode} {arguments : List Argument} :
    draft.add line (.instruction op arguments) = .error cause ↔
      addressSpace < draft.address + (arguments.length + 1) ∧
        cause = .programTooLarge draft.mount (draft.cells.size + (arguments.length + 1)) := by
  have hsize : (draft.push (.byte op.code)).cells.size = draft.cells.size + 1 := Array.size_push _
  have hmount : (draft.push (.byte op.code)).mount = draft.mount := rfl
  rw [Draft.add, checkSize_eq_error_iff, tooLarge, address, size_emits, mount_emits, hsize, hmount, address,
    Nat.add_assoc, Nat.add_assoc, Nat.add_comm 1]

/-- a line that there is no room for is rejected, whatever else may be wrong with it -/
theorem add_of_exceeds {statement : Statement} (h : statement.Exceeds draft.address) :
    draft.add line statement = .error (.programTooLarge draft.mount (draft.cells.size + statement.size)) := by
  have hdeclare : draft.address = addressSpace → ∀ name visibility,
      draft.declare line name visibility = .error (.programTooLarge draft.mount draft.cells.size) :=
    fun haddress name visibility => declare_of_noAddress haddress.ge name visibility
  rcases h with ⟨hsize, hroom⟩ | ⟨hdeclared, haddress⟩
  · cases statement with
    | data arguments => exact add_data_eq_error_iff.2 ⟨hroom, rfl⟩
    | instruction op arguments => exact add_instruction_eq_error_iff.2 ⟨hroom, rfl⟩
    | _ => exact absurd hsize (Nat.lt_irrefl 0)
  · cases statement with
    | label name visibility => exact Attempt.bind_eq_error_iff.2 (.inl (hdeclare haddress name visibility))
    | subroutine name visibility => exact Attempt.bind_eq_error_iff.2 (.inl (hdeclare haddress name visibility))
    | _ => cases hdeclared

/-- **A line that is read is rejected for want of room, or else for a name.** -/
theorem add_eq_error (hfits : draft.address ≤ addressSpace) {statement : Statement}
    (h : draft.add line statement = .error cause) :
    statement.Exceeds draft.address ∧ cause = .programTooLarge draft.mount (draft.cells.size + statement.size) ∨
      cause.concern = .names := by
  have hlabel : ∀ name visibility, statement.declared.isSome → statement.size = 0 →
      draft.declare line name visibility = .error cause →
        statement.Exceeds draft.address ∧ cause = .programTooLarge draft.mount (draft.cells.size + statement.size) ∨
          cause.concern = .names := by
    intro name visibility hdeclared hsize hdeclare
    rcases declare_eq_error hdeclare with ⟨hroom, hcause⟩ | hnames
    · rw [hsize]
      exact .inl ⟨.inr ⟨hdeclared, hfits.antisymm hroom⟩, hcause⟩
    · exact .inr hnames
  cases statement with
  | blank => cases h
  | label name visibility =>
    rcases Attempt.bind_eq_error_iff.1 h with hdeclare | ⟨_, -, hdone⟩
    · exact hlabel name visibility rfl rfl hdeclare
    · cases hdone
  | subroutine name visibility =>
    rcases Attempt.bind_eq_error_iff.1 h with hdeclare | ⟨_, -, hdone⟩
    · exact hlabel name visibility rfl rfl hdeclare
    · cases hdone
  | scope change =>
    cases change with
    | leave =>
      simp only [Draft.add, Draft.changeScope] at h
      split at h
      · cases h
      · obtain rfl := Except.error.inj h
        exact .inr rfl
    | _ => cases h
  | exportName name newName =>
    simp only [Draft.add] at h
    split_ifs at h
    · obtain rfl := Except.error.inj h
      exact .inr rfl
    · exact .inr (concern_of_bind h)
  | useName name newName => exact .inr (concern_of_bind h)
  | data arguments =>
    obtain ⟨hroom, rfl⟩ := add_data_eq_error_iff.1 h
    refine .inl ⟨.inl ⟨?_, hroom⟩, rfl⟩
    simp only [Statement.size]
    omega
  | instruction op arguments =>
    obtain ⟨hroom, rfl⟩ := add_instruction_eq_error_iff.1 h
    exact .inl ⟨.inl ⟨Nat.succ_pos _, hroom⟩, rfl⟩

/-! ## The second reading -/

theorem concern_of_unresolved (texts : List String) (number column : Nat) (reason : Unresolved) :
    (draft.unresolved texts number column reason).cause.concern = .links := by
  cases reason <;> rfl

theorem concern_of_link {texts : List String} {e : AssemblyError} (h : draft.link texts = .error e) :
    e.cause.concern = .links := by
  rcases Attempt.bind_eq_error_iff.1 h with hcheck | ⟨_, -, hthen⟩
  · obtain ⟨_, entry, _, -, -, hentry⟩ := Attempt.forM_eq_error_iff.1 hcheck
    unfold checkEntry at hentry
    split at hentry
    · cases hentry
    · split at hentry
      · cases hentry
      · obtain rfl := Except.error.inj hentry
        exact concern_of_unresolved _ _ _ _
  · rcases Attempt.bind_eq_error_iff.1 hthen with hbytes | ⟨_, -, hdone⟩
    · obtain ⟨_, cell, _, -, -, hcell⟩ := Attempt.mapM_eq_error_iff.1 hbytes
      cases cell with
      | byte value => cases hcell
      | half target half number column =>
        simp only [resolveCell] at hcell
        split at hcell
        · cases hcell
        · obtain rfl := Except.error.inj hcell
          exact concern_of_unresolved _ _ _ _
    · cases hdone

end Draft

end ByteMachine

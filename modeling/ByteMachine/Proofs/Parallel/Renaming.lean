/-
Statements with other names. A renaming changes the identifiers of labels, namespaces and operands and nothing else, and
it does not merge two names. The symbols of a text do not change with its names, only what they stand for, because a name
is only ever compared with other names.

- `Statement.renamed`: a statement with every identifier renamed.
- `Statement.SameSense`: a statement that says the same, with its operands read from any words.
- `SymbolTable.internAll_renamed`: renamed names have the symbols of the names.
-/
import Mathlib.Tactic
import ByteMachine.Assembly.Draft

namespace ByteMachine

/-! ## Renamed statements -/

section Renamed

variable (rename : String → String)

def Name.renamed (name : Name) : Name := { name with parts := name.parts.map rename }

def Visibility.renamed : Visibility → Visibility
  | .concealed => .concealed
  | .exposed newName => .exposed (newName.map (Name.renamed rename))

def ScopeChange.renamed : ScopeChange → ScopeChange
  | .enter name => .enter (name.renamed rename)
  | .enterPrivate name => .enterPrivate (name.map rename)
  | .leave => .leave
  | .reset path => .reset (path.renamed rename)

def Operand.renamed : Operand → Operand
  | .literal value => .literal value
  | .register r => .register r
  | .address name half => .address (name.renamed rename) half

/-- the operand renamed; its word is only quoted, and stays -/
def Argument.renamed (argument : Argument) : Argument := { argument with operand := argument.operand.renamed rename }

/-- the statement with every identifier renamed: those of declared labels, of namespaces, of exported and used names, of
second names and of operands -/
def Statement.renamed : Statement → Statement
  | .blank => .blank
  | .label name visibility => .label (rename name) (visibility.renamed rename)
  | .subroutine name visibility => .subroutine (rename name) (visibility.renamed rename)
  | .scope change => .scope (change.renamed rename)
  | .exportName name newName => .exportName (name.renamed rename) (newName.map (Name.renamed rename))
  | .useName name newName => .useName (name.renamed rename) (newName.map (Name.renamed rename))
  | .data arguments => .data (arguments.map (Argument.renamed rename))
  | .instruction op arguments => .instruction op (arguments.map (Argument.renamed rename))

def SymbolTable.renamed (table : SymbolTable) : SymbolTable := ⟨table.names.map rename⟩

end Renamed

/-- a map of names that keeps different names different, and leaves a private namespace without a name without one -/
structure Renaming where
  apply : String → String
  injective : Function.Injective apply
  anonymous : apply Draft.anonymousName = Draft.anonymousName

def Renaming.refl : Renaming := ⟨id, Function.injective_id, rfl⟩

/-! ## No change -/

theorem Name.renamed_id (name : Name) : name.renamed id = name := by rw [Name.renamed, List.map_id]

theorem map_renamed_id (newName : Option Name) : newName.map (Name.renamed id) = newName := by
  cases newName with
  | none => rfl
  | some name => rw [Option.map_some, name.renamed_id]

theorem Visibility.renamed_id (visibility : Visibility) : visibility.renamed id = visibility := by
  cases visibility with
  | concealed => rfl
  | exposed newName => rw [Visibility.renamed, map_renamed_id]

theorem Operand.renamed_id (operand : Operand) : operand.renamed id = operand := by
  cases operand with
  | address name half => rw [Operand.renamed, name.renamed_id]
  | _ => rfl

theorem Argument.renamed_id (argument : Argument) : argument.renamed id = argument := by
  rw [Argument.renamed, argument.operand.renamed_id]

theorem ScopeChange.renamed_id (change : ScopeChange) : change.renamed id = change := by
  cases change with
  | enter name => rw [ScopeChange.renamed, name.renamed_id]
  | enterPrivate name => rw [ScopeChange.renamed, Option.map_id, id]
  | leave => rfl
  | reset path => rw [ScopeChange.renamed, path.renamed_id]

theorem Statement.renamed_id (statement : Statement) : statement.renamed id = statement := by
  have harguments : ∀ arguments : List Argument, arguments.map (Argument.renamed id) = arguments := by
    intro arguments
    rw [List.map_congr_left fun argument _ => argument.renamed_id, List.map_id']
  cases statement with
  | blank => rfl
  | label name visibility | subroutine name visibility => simp only [Statement.renamed, visibility.renamed_id, id]
  | scope change => rw [Statement.renamed, change.renamed_id]
  | exportName name newName | useName name newName => simp only [Statement.renamed, name.renamed_id, map_renamed_id]
  | data arguments | instruction op arguments => simp only [Statement.renamed, harguments]

theorem SymbolTable.renamed_id (table : SymbolTable) : table.renamed id = table := by
  rw [SymbolTable.renamed, Array.map_id]

/-! ## Operands from other words -/

/-- the second statement says the same, with operands that may be read from other words -/
inductive Statement.SameSense : Statement → Statement → Prop
  | refl (statement : Statement) : SameSense statement statement
  | data {arguments arguments' : List Argument} :
      arguments.map (·.operand) = arguments'.map (·.operand) → SameSense (.data arguments) (.data arguments')
  | instruction {op : Opcode} {arguments arguments' : List Argument} :
      arguments.map (·.operand) = arguments'.map (·.operand) →
        SameSense (.instruction op arguments) (.instruction op arguments')

namespace Statement.SameSense

variable {rename : String → String} {arguments : List Argument} {statement : Statement}

/-- the operands are the renamed ones, whatever words they were read from -/
theorem operands {arguments' : List Argument}
    (h : (arguments.map (Argument.renamed rename)).map (·.operand) = arguments'.map (·.operand)) :
    List.Forall₂ (fun a a' => a'.operand = a.operand.renamed rename) arguments arguments' := by
  rw [← List.forall₂_eq_eq_eq, List.map_map, List.forall₂_map_left_iff, List.forall₂_map_right_iff] at h
  exact h.imp fun _ _ => Eq.symm

theorem of_data (h : ((Statement.data arguments).renamed rename).SameSense statement) :
    ∃ arguments', statement = .data arguments' ∧
      List.Forall₂ (fun a a' => a'.operand = a.operand.renamed rename) arguments arguments' := by
  cases h with
  | refl => exact ⟨_, rfl, operands rfl⟩
  | data h => exact ⟨_, rfl, operands h⟩

theorem of_instruction {op : Opcode} (h : ((Statement.instruction op arguments).renamed rename).SameSense statement) :
    ∃ arguments', statement = .instruction op arguments' ∧
      List.Forall₂ (fun a a' => a'.operand = a.operand.renamed rename) arguments arguments' := by
  cases h with
  | refl => exact ⟨_, rfl, operands rfl⟩
  | instruction h => exact ⟨_, rfl, operands h⟩

end Statement.SameSense

/-! ## Symbols -/

namespace SymbolTable

variable (table : SymbolTable) {rename : String → String} (hrename : Function.Injective rename)

include hrename

theorem intern_renamed (name : String) :
    (table.renamed rename).intern (rename name) = ((table.intern name).1, (table.intern name).2.renamed rename) := by
  have hfind : (table.names.map rename).findIdx? (· = rename name) = table.names.findIdx? (· = name) := by
    rw [Array.findIdx?_map]
    simp only [Function.comp_def, hrename.eq_iff]
  unfold intern renamed
  rw [hfind]
  cases table.names.findIdx? (· = name) with
  | none => simp
  | some index => rfl

/-- **A name and its new name have the same symbol.** -/
theorem internAll_renamed (names : List String) :
    (table.renamed rename).internAll (names.map rename) =
      ((table.internAll names).1, (table.internAll names).2.renamed rename) := by
  induction names generalizing table with
  | nil => rfl
  | cons name names ih =>
    simp only [List.map_cons, internAll, intern_renamed table hrename, ih]

end SymbolTable

end ByteMachine

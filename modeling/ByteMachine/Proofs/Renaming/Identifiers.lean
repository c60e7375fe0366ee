/-
The names of a statement. Every name that a line spells is an identifier (`Statement.identifiers_of_ofTokens`), since the
productions of the grammar ask for one wherever a name stands.
-/
import Mathlib.Tactic
import ByteMachine.Proofs.Parallel.Renaming
import ByteMachine.Proofs.Reading.Productions

namespace ByteMachine

/-! ## The names that a line spells -/

def newNames (newName : Option Name) : List String := (newName.map (·.parts)).getD []

def Visibility.names : Visibility → List String
  | .concealed => []
  | .exposed newName => newNames newName

def ScopeChange.names : ScopeChange → List String
  | .enter name => name.parts
  | .enterPrivate name => name.toList
  | .leave => []
  | .reset path => path.parts

def Operand.names : Operand → List String
  | .address name _ => name.parts
  | _ => []

def Statement.names : Statement → List String
  | .blank => []
  | .label name visibility | .subroutine name visibility => name :: visibility.names
  | .scope change => change.names
  | .exportName name newName | .useName name newName => name.parts ++ newNames newName
  | .data arguments | .instruction _ arguments => arguments.flatMap fun argument => argument.operand.names

namespace Statement

def Identifiers (names : List String) : Prop := ∀ name ∈ names, isIdentifier name = true

theorem identifiers_nil : Identifiers [] := by simp [Identifiers]

theorem identifiers_append {names names' : List String} (h : Identifiers names) (h' : Identifiers names') :
    Identifiers (names ++ names') := by
  intro name hname
  rcases List.mem_append.1 hname with hname | hname
  · exact h name hname
  · exact h' name hname

theorem identifiers_of_aliasWords {words : List String} {newName : Option Name} (h : AliasWords words newName) :
    Identifiers (newNames newName) := by
  cases h with
  | absent => exact identifiers_nil
  | present hname => exact hname.identifiers

theorem identifiers_of_visibilityWords {words : List String} {visibility : Visibility}
    (h : VisibilityWords words visibility) : Identifiers visibility.names := by
  cases h with
  | concealed => exact identifiers_nil
  | exposed halias => exact identifiers_of_aliasWords halias

theorem identifiers_of_declares {p : Production} {words : List String} {statement : Statement}
    (h : Declares p words statement) : Identifiers statement.names := by
  cases h with
  | blank | leave | resetRoot | enterUnnamed => exact identifiers_nil
  | label hname hvisibility | definition hname hvisibility | subroutine hname hvisibility =>
    exact List.forall_mem_cons.2 ⟨hname, identifiers_of_visibilityWords hvisibility⟩
  | reset hpath =>
    rcases hpath with hspells | ⟨rfl, -⟩
    · exact hspells.identifiers
    · exact identifiers_nil
  | enter hname => exact hname.identifiers
  | enterPrivate hname => exact List.forall_mem_singleton.2 hname
  | exportName hname _ halias | useName hname halias =>
    exact identifiers_append hname.identifiers (identifiers_of_aliasWords halias)

theorem identifiers_of_operandSpells {word : String} {operands : List Operand} (h : Operand.Spells word operands) :
    Identifiers (operands.flatMap Operand.names) := by
  cases h with
  | both hname => exact identifiers_append hname.identifiers (identifiers_append hname.identifiers identifiers_nil)
  | low hname | high hname => exact identifiers_append hname.identifiers identifiers_nil
  | number | register => exact identifiers_nil

theorem identifiers_of_readsOperands {words : List Token} {arguments : List Argument} (h : ReadsOperands words arguments) :
    Identifiers (arguments.flatMap fun argument => argument.operand.names) := by
  induction h with
  | nil => exact identifiers_nil
  | cons hspells _ ih =>
    rw [List.flatMap_append, List.flatMap_map]
    exact identifiers_append (identifiers_of_operandSpells hspells) ih

/-- **The names of a line are identifiers.** -/
theorem identifiers_of_ofTokens {tokens : List Token} {statement : Statement} (h : ofTokens tokens = .ok statement) :
    Identifiers statement.names := by
  obtain ⟨p, h⟩ := produces_of_ofTokens h
  cases h with
  | declaration hdeclares => exact identifiers_of_declares hdeclares
  | data _ hread | instruction _ hread => exact identifiers_of_readsOperands hread

end Statement

end ByteMachine

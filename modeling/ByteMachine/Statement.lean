/-
What a source line says. A line declares a label, opens or closes namespaces, gives a name a second name, or emits the
bytes of data or of one instruction.
-/
import ByteMachine.Operand
import ByteMachine.Token

namespace ByteMachine

/-- whether a declared label is also bound in the public namespace around it, perhaps under another name -/
inductive Visibility where
  | concealed
  | exposed (newName : Option Name)
  deriving DecidableEq, Repr

inductive ScopeChange where
  /-- enter a namespace below -/
  | enter (name : Name)
  /-- enter a private namespace, which may be without a name -/
  | enterPrivate (name : Option String)
  /-- leave the namespace entered last -/
  | leave
  /-- go to a namespace given from the root -/
  | reset (path : Name)
  deriving DecidableEq, Repr

/-- an operand with the word it was read from -/
structure Argument where
  operand : Operand
  token : Token
  deriving DecidableEq, Repr

/-- what a line says -/
inductive Statement where
  /-- nothing -/
  | blank
  /-- declare a label at the next address -/
  | label (name : String) (visibility : Visibility)
  /-- declare a label and enter a private namespace of the same name -/
  | subroutine (name : String) (visibility : Visibility)
  /-- change the namespace at hand -/
  | scope (change : ScopeChange)
  /-- bind a name of this namespace in the namespace above -/
  | exportName (name : Name) (newName : Option Name)
  /-- bind a name from elsewhere in this namespace -/
  | useName (name : Name) (newName : Option Name)
  /-- emit the operands as they are -/
  | data (arguments : List Argument)
  /-- emit an instruction -/
  | instruction (op : Opcode) (arguments : List Argument)
  deriving DecidableEq, Repr

end ByteMachine

/-
What names are bound to: an address, or another name that is looked up in turn. A name is bound once; the table keeps
its bindings in the order in which they were made.

An alias may be made before the name it stands for, so aliases are followed only when an address is asked for. The walk
ends at an address, at a name that is not bound, or at a name that it has met before.
-/
import ByteMachine.Scope.Path
import ByteMachine.Word

namespace ByteMachine

inductive Binding where
  | address (value : Word)
  | aliasOf (target : Path)
  deriving DecidableEq, Repr

/-- why a name leads to no address: its chain of aliases ends at an unbound name, or comes back to a name -/
inductive Unresolved where
  | missing (name : Path)
  | cycle (name : Path)
  deriving DecidableEq, Repr

/-- a name, what it stands for, and the line that bound it -/
structure LabelTable.Entry where
  name : Path
  binding : Binding
  line : Nat
  deriving DecidableEq, Repr

/-- the bindings in the order in which they were made -/
structure LabelTable where
  entries : Array LabelTable.Entry
  deriving DecidableEq, Repr

namespace LabelTable

def empty : LabelTable := ⟨#[]⟩

def size (table : LabelTable) : Nat := table.entries.size

def find? (table : LabelTable) (name : Path) : Option Entry :=
  table.entries.find? (·.name = name)

/-- what a name is bound to, wherever it was bound -/
def binding? (table : LabelTable) (name : Path) : Option Binding := (table.find? name).map (·.binding)

/-- bind a name, unless it is bound already -/
def define? (table : LabelTable) (name : Path) (binding : Binding) (line : Nat) : Option LabelTable :=
  if (table.find? name).isSome then none else some ⟨table.entries.push ⟨name, binding, line⟩⟩

/-- follow aliases from a name; `binding?` says what a name is bound to, and `visited` holds the names that led here -/
def follow (binding? : Path → Option Binding) : (fuel : Nat) → (visited : List Path) → Path → Except Unresolved Word
  | 0, _, name => .error (.cycle name)
  | fuel + 1, visited, name =>
    if name ∈ visited then .error (.cycle name)
    else
      match binding? name with
      | none => .error (.missing name)
      | some (.address value) => .ok value
      | some (.aliasOf target) => follow binding? fuel (name :: visited) target

/-- the address that a name leads to; a walk through the table can take one step more than there are names before it
comes back to one -/
def resolve (table : LabelTable) (name : Path) : Except Unresolved Word :=
  follow table.binding? (table.size + 1) [] name

end LabelTable

end ByteMachine

/-
The two stores behind the table of bindings: a map that says what each name is bound to, and an array that keeps the names
in the order in which they were bound. A name that the map has is refused; any other is entered in both.
-/
import Mathlib.Init
import ByteMachine.LabelTable

namespace ByteMachine

/-- what a name stands for, and the line that bound it -/
structure LabelStore.Bound where
  binding : Binding
  line : Nat
  deriving DecidableEq, Repr

structure LabelStore where
  entries : Std.HashMap Path LabelStore.Bound
  order : Array Path

namespace LabelStore

def empty : LabelStore := ⟨∅, #[]⟩

/-- bind a name, unless it is bound already, and say whether it was bound -/
def define (store : LabelStore) (name : Path) (binding : Binding) (line : Nat) : Bool × LabelStore :=
  if store.entries.contains name then (false, store)
  else (true, ⟨store.entries.insert name ⟨binding, line⟩, store.order.push name⟩)

def get? (store : LabelStore) (name : Path) : Option Bound := store.entries[name]?

def len (store : LabelStore) : Nat := store.order.size

/-- the bound names in the order of the array, each with what the map has for it -/
def iter (store : LabelStore) : List (Path × Bound) :=
  store.order.toList.filterMap fun name => (store.get? name).map (name, ·)

/-- the address that a name leads to, by the map alone; the array only bounds the walk -/
def resolve (store : LabelStore) (name : Path) : Except Unresolved Word :=
  LabelTable.follow (fun name => (store.get? name).map (·.binding)) (store.len + 1) [] name

/-- bind one name after the other; one that is refused changes nothing -/
def defineAll (store : LabelStore) : List LabelTable.Entry → LabelStore
  | [] => store
  | call :: calls => (store.define call.name call.binding call.line).2.defineAll calls

def Bound.named (name : Path) (bound : Bound) : LabelTable.Entry := ⟨name, bound.binding, bound.line⟩

/-- the one list of bindings that the two stores make together -/
def table (store : LabelStore) : LabelTable :=
  ⟨(store.iter.map fun (name, bound) => bound.named name).toArray⟩

end LabelStore

end ByteMachine

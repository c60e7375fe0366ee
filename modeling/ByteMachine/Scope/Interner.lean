/-
The two stores behind the symbols of names, with numbers of thirty-two bits: an array that has the name of every number,
and a map that finds the number of a name. A new name gets the next number, which is entered in both.
-/
import Mathlib.Init
import ByteMachine.Scope.Symbol

namespace ByteMachine

structure Interner where
  /-- the name of each number -/
  names : Array String
  /-- the number of each name -/
  ids : Std.HashMap String UInt32

namespace Interner

def empty : Interner := ⟨#[], ∅⟩

/-- the number of a name; only the map is asked whether the name is new -/
def intern (interner : Interner) (name : String) : UInt32 × Interner :=
  match interner.ids[name]? with
  | some id => (id, interner)
  | none =>
    let id := UInt32.ofNat interner.names.size
    (id, ⟨interner.names.push name, interner.ids.insert name id⟩)

/-- the name of a number, read from the array alone -/
def resolve? (interner : Interner) (id : UInt32) : Option String := interner.names[id.toNat]?

def internAll (interner : Interner) : List String → Interner
  | [] => interner
  | name :: names => (interner.intern name).2.internAll names

/-- the names without the map -/
def table (interner : Interner) : SymbolTable := ⟨interner.names⟩

end Interner

end ByteMachine

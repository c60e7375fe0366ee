/-
Names of namespace segments as numbers. A table gives every name it is shown a symbol, the same one each time, and gives
the name of a symbol back.
-/

namespace ByteMachine

/-- the place of a name in a symbol table -/
structure Symbol where
  index : Nat
  deriving DecidableEq, Hashable, Repr

/-- the names that have a symbol, in the order in which they were first shown -/
structure SymbolTable where
  names : Array String
  deriving DecidableEq, Repr

namespace SymbolTable

def empty : SymbolTable := ⟨#[]⟩

/-- the symbol of a name, which enters the table if it is new -/
def intern (table : SymbolTable) (name : String) : Symbol × SymbolTable :=
  match table.names.findIdx? (· = name) with
  | some index => (⟨index⟩, table)
  | none => (⟨table.names.size⟩, ⟨table.names.push name⟩)

def internAll (table : SymbolTable) : List String → List Symbol × SymbolTable
  | [] => ([], table)
  | name :: names =>
    let (symbol, table) := table.intern name
    let (symbols, table) := table.internAll names
    (symbol :: symbols, table)

/-- the name of a symbol; a symbol of another table may have none, and then the text is empty -/
def nameOf (table : SymbolTable) (symbol : Symbol) : String :=
  table.names.getD symbol.index ""

end SymbolTable

end ByteMachine

/-
The first reading of a source text. It goes through the lines in order, keeps the namespace at hand, binds names, and
lays out the image as cells. A cell is a byte that is known, or a half of an address whose name is qualified here and
looked up when all names are bound.

`Draft.add` is the effect of one statement, `Draft.addLines` that of all lines. The first line that cannot be read or
added ends the reading.
-/
import ByteMachine.LabelTable
import ByteMachine.Scope.Stack
import ByteMachine.Statement.Grammar

namespace ByteMachine

/-- one byte of the image: known, or a half of the address that a name leads to, with the place of the operand -/
inductive Cell where
  | byte (value : Byte)
  | half (target : Path) (half : Half) (line column : Nat)
  deriving DecidableEq, Repr

/-- what is known after some lines of a source text -/
structure Draft where
  mount : Word
  symbols : SymbolTable
  scope : Scope
  labels : LabelTable
  cells : Array Cell
  deriving DecidableEq, Repr

namespace Draft

def addressSpace : Nat := 0x10000

/-- the name of a private namespace that is given none -/
def anonymousName : String := "<anonymous>"

/-- the symbol of that name, which is the first of every table -/
def anonymous : Symbol := ⟨0⟩

def start (mount : Word) : Draft :=
  { mount
    symbols := (SymbolTable.empty.intern anonymousName).2
    scope := Scope.empty
    labels := LabelTable.empty
    cells := #[] }

def intern (draft : Draft) (name : String) : Symbol × Draft :=
  let (symbol, symbols) := draft.symbols.intern name
  (symbol, { draft with symbols })

def internAll (draft : Draft) (names : List String) : List Symbol × Draft :=
  let (found, symbols) := draft.symbols.internAll names
  (found, { draft with symbols })

def render (draft : Draft) (path : Path) : String :=
  path.render draft.symbols

/-! ## Addresses -/

/-- the address of the next byte; it may lie one past the last address, or beyond in a draft that is too large -/
def address (draft : Draft) : Nat :=
  draft.mount.toNat + draft.cells.size

def tooLarge (draft : Draft) : AssemblyError.Cause :=
  .programTooLarge draft.mount draft.cells.size

/-- the address of the next byte as the address of a label -/
def here (draft : Draft) : Except AssemblyError.Cause Word :=
  if draft.address < addressSpace then .ok (UInt16.ofNat draft.address) else .error draft.tooLarge

/-- the bytes so far must fit into the address space -/
def checkSize (draft : Draft) : Except AssemblyError.Cause Draft :=
  if draft.address ≤ addressSpace then .ok draft else .error draft.tooLarge

/-! ## Names -/

/-- the namespace that a name is read from: the root, or the namespace `levels` above the one at hand and as many more
as the name climbs -/
def base (draft : Draft) (name : Name) (levels : Nat) : Path :=
  match name.origin with
  | .root => Path.root
  | .above climbed => draft.scope.ancestor (levels + climbed)

/-- a name qualified by the namespace that it is read from -/
def qualify (draft : Draft) (name : Name) (levels : Nat) : Path × Draft :=
  let (symbols, draft) := draft.internAll name.parts
  ((draft.base name levels).join symbols, draft)

def bind (draft : Draft) (line : Nat) (name : Path) (binding : Binding) : Except AssemblyError.Cause Draft :=
  match draft.labels.define? name binding line with
  | some labels => .ok { draft with labels }
  | none => .error (.duplicateLabel (draft.render name))

/-- bind a label that was just declared in the public namespace around it, under its own name or another -/
def expose (draft : Draft) (line : Nat) (declared : Path) (name : String) (newName : Option Name) :
    Except AssemblyError.Cause Draft :=
  match draft.scope.current.demangle? anonymous with
  | none => .error (.exportFromAnonymous name)
  | some space =>
    let (symbols, draft) := draft.internAll ((newName.map (·.parts)).getD [name])
    let target := space.join symbols
    if target = declared then .ok draft else draft.bind line target (.aliasOf declared)

/-- declare a label at the next address -/
def declare (draft : Draft) (line : Nat) (name : String) (visibility : Visibility) :
    Except AssemblyError.Cause (Symbol × Draft) := do
  let (symbol, draft) := draft.intern name
  let declared := draft.scope.current.join [symbol]
  let draft ← draft.bind line declared (.address (← draft.here))
  match visibility with
  | .concealed => return (symbol, draft)
  | .exposed newName => return (symbol, ← draft.expose line declared name newName)

def changeScope (draft : Draft) : ScopeChange → Except AssemblyError.Cause Draft
  | .enter name =>
    let (symbols, draft) := draft.internAll name.parts
    .ok { draft with scope := draft.scope.push symbols }
  | .enterPrivate name =>
    let (symbol, draft) := draft.intern (name.getD anonymousName)
    .ok { draft with scope := draft.scope.pushPrivate symbol }
  | .leave =>
    match draft.scope.pop? with
    | some scope => .ok { draft with scope }
    | none => .error .popRoot
  | .reset path =>
    let (symbols, draft) := draft.internAll path.parts
    .ok { draft with scope := draft.scope.reset symbols }

/-! ## Bytes -/

def push (draft : Draft) (cell : Cell) : Draft :=
  { draft with cells := draft.cells.push cell }

def emit (line : Nat) (draft : Draft) (argument : Argument) : Draft :=
  match argument.operand with
  | .literal value => draft.push (.byte value)
  | .register r => draft.push (.byte r.index)
  | .address name half =>
    let (target, draft) := draft.qualify name 0
    draft.push (.half target half line argument.token.column)

/-! ## Lines -/

def add (draft : Draft) (line : Nat) : Statement → Except AssemblyError.Cause Draft
  | .blank => .ok draft
  | .label name visibility => do
    let (_, draft) ← draft.declare line name visibility
    return draft
  | .subroutine name visibility => do
    let (symbol, draft) ← draft.declare line name visibility
    return { draft with scope := draft.scope.pushPrivate symbol }
  | .scope change => draft.changeScope change
  | .exportName name newName =>
    if draft.scope.depth = 0 then .error (.exportFromRoot name.bare)
    else
      let (symbols, draft) := draft.internAll name.parts
      let target := draft.scope.current.join symbols
      let (symbols, draft) := draft.internAll (newName.getD name).parts
      draft.bind line ((draft.scope.ancestor 1).join symbols) (.aliasOf target)
  | .useName name newName =>
    let (target, draft) := draft.qualify name 1
    let (symbols, draft) := draft.internAll (newName.getD name).parts
    draft.bind line (draft.scope.current.join symbols) (.aliasOf target)
  | .data arguments => (arguments.foldl (emit line) draft).checkSize
  | .instruction op arguments => (arguments.foldl (emit line) (draft.push (.byte op.code))).checkSize

def addLine (draft : Draft) (number : Nat) (text : String) : Except AssemblyError Draft := do
  let statement ← Statement.parseLine number text
  (draft.add number statement).mapError fun cause => ⟨number, 0, text, cause⟩

/-- the effect of lines of text, the first of which has the given number -/
def addLines (draft : Draft) (number : Nat) : List String → Except AssemblyError Draft
  | [] => .ok draft
  | text :: texts => do
    let draft ← draft.addLine number text
    draft.addLines (number + 1) texts

def ofLines (texts : List String) (mount : Word) : Except AssemblyError Draft :=
  (start mount).addLines 1 texts

end Draft

end ByteMachine

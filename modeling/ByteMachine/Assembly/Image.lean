/-
The second reading. When all names are bound, every alias must lead to an address, whether it is used or not, and then
every cell becomes a byte. What comes out is the image for its mount address and the list of all names with their
addresses.

`assemble` is the whole way from source text to image.
-/
import ByteMachine.Assembly.Draft
import ByteMachine.Text.Split

namespace ByteMachine

/-- an image, the address of its first byte, and all names with their addresses, by address and then by name -/
structure Assembly where
  bytes : List Byte
  mount : Word
  symbols : List (String × Word)
  deriving DecidableEq, Repr

namespace Draft

/-- a name that leads to no address, as an error at a line of the text -/
def unresolved (draft : Draft) (texts : List String) (line column : Nat) (reason : Unresolved) : AssemblyError :=
  let cause := match reason with
    | .missing name => .undefinedLabel (draft.render name)
    | .cycle name => .aliasCycle (draft.render name)
  ⟨line, column, texts.getD (line - 1) "", cause⟩

/-- an alias must lead to an address -/
def checkEntry (draft : Draft) (texts : List String) (entry : LabelTable.Entry) : Except AssemblyError Unit :=
  match entry.binding with
  | .address _ => .ok ()
  | .aliasOf _ =>
    match draft.labels.resolve entry.name with
    | .ok _ => .ok ()
    | .error reason => .error (draft.unresolved texts entry.line 0 reason)

def resolveCell (draft : Draft) (texts : List String) : Cell → Except AssemblyError Byte
  | .byte value => .ok value
  | .half target half line column =>
    match draft.labels.resolve target with
    | .ok address => .ok (half.select address)
    | .error reason => .error (draft.unresolved texts line column reason)

def symbolLE (x y : String × Word) : Bool :=
  x.2 < y.2 || (x.2 = y.2 && decide (x.1 ≤ y.1))

def symbolList (draft : Draft) : List (String × Word) :=
  let found := draft.labels.entries.toList.filterMap fun entry =>
    (draft.labels.resolve entry.name).toOption.map (draft.render entry.name, ·)
  found.mergeSort symbolLE

/-- the image of a draft of the given lines -/
def link (draft : Draft) (texts : List String) : Except AssemblyError Assembly := do
  draft.labels.entries.toList.forM (draft.checkEntry texts)
  let bytes ← draft.cells.toList.mapM (draft.resolveCell texts)
  return { bytes, mount := draft.mount, symbols := draft.symbolList }

end Draft

/-- the image of a source text for a mount address -/
def assemble (source : String) (mount : Word) : Except AssemblyError Assembly := do
  let texts := Text.lines source
  let draft ← Draft.ofLines texts mount
  draft.link texts

namespace Assembly

/-- the mount address where none is asked for -/
def defaultMount : Word := 0x10

/-- the address of a name as it is written in the list of names -/
def lookup (assembly : Assembly) (name : String) : Option Word :=
  (assembly.symbols.find? (·.1 = name)).map (·.2)

end Assembly

end ByteMachine

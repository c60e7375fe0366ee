/-
How the words of a line spell a statement. Every line is of one of these forms:

  .name [public [as alias]]
  def name [public [as alias]]          (also: sub name ...)
  namespace name | namespace pop | namespace reset [path | global]
  private namespace [name]
  export name [as alias]
  use name [as alias]
  dat operand ...
  mnemonic operand ...

`sub` is also a mnemonic. It declares if it is followed by one word only, or if the third word is `public`.

Each clause reads the words it needs and hands back the rest. The first word that cannot stand where it does is at
fault; a word that is missing at the end of the line puts the line as a whole at fault.
-/
import ByteMachine.Statement

namespace ByteMachine.Statement

/-- a reason to reject a line, and the column of the word at fault (0 for the whole line) -/
structure Complaint where
  column : Nat
  cause : AssemblyError.Cause
  deriving DecidableEq, Repr

/-- the word is not allowed where it stands -/
def invalid (what : String) (t : Token) : Complaint :=
  ⟨t.column, .malformed ("invalid " ++ what ++ " `" ++ t.text ++ "`")⟩

/-- the line ends where a word is needed -/
def missing (what : String) : Complaint :=
  ⟨0, .malformed ("missing " ++ what)⟩

/-! ## Clauses -/

def identifier (what : String) : List Token → Except Complaint (String × List Token)
  | [] => .error (missing what)
  | t :: rest => if isIdentifier t.text then .ok (t.text, rest) else .error (invalid what t)

/-- a dotted name; a plain one starts at the namespace at hand -/
def dottedName (what : String) (plain : Bool) : List Token → Except Complaint (Name × List Token)
  | [] => .error (missing what)
  | t :: rest =>
    match Name.parse? false t.text with
    | some name => if !plain || name.isPlain then .ok (name, rest) else .error (invalid what t)
    | none => .error (invalid what t)

/-- `[as alias]` -/
def aliasClause : List Token → Except Complaint (Option Name × List Token)
  | [] => .ok (none, [])
  | t :: rest =>
    if t.text = "as" then do
      let (name, rest) ← dottedName "alias" true rest
      return (some name, rest)
    else .ok (none, t :: rest)

/-- `[public [as alias]]` -/
def visibilityClause : List Token → Except Complaint (Visibility × List Token)
  | [] => .ok (.concealed, [])
  | t :: rest =>
    if t.text = "public" then do
      let (newName, rest) ← aliasClause rest
      return (.exposed newName, rest)
    else .ok (.concealed, t :: rest)

/-- what follows `namespace` -/
def scopeClause : List Token → Except Complaint (ScopeChange × List Token)
  | [] => .error (missing "namespace name")
  | t :: rest =>
    if t.text = "pop" then .ok (.leave, rest)
    else if t.text = "reset" then
      match rest with
      | [] => .ok (.reset Name.root, [])
      | path :: rest =>
        match Name.parse? true path.text with
        | some name =>
          if name.origin = .root ∨ name.isPlain then .ok (.reset name, rest)
          else .error (invalid "namespace path" path)
        | none => .error (invalid "namespace path" path)
    else do
      let (name, rest) ← dottedName "namespace name" true (t :: rest)
      return (.enter name, rest)

/-- what follows `private` -/
def privateClause : List Token → Except Complaint (ScopeChange × List Token)
  | [] => .error ⟨0, .malformed "expected `namespace` after `private`"⟩
  | t :: rest =>
    if t.text = "namespace" then
      match rest with
      | [] => .ok (.enterPrivate none, [])
      | _ :: _ => do
        let (name, rest) ← identifier "namespace name" rest
        return (.enterPrivate (some name), rest)
    else .error ⟨t.column, .malformed "expected `namespace` after `private`"⟩

/-- what follows the word that declares a subroutine -/
def subroutineClause (words : List Token) : Except Complaint (Statement × List Token) := do
  let (name, rest) ← identifier "subroutine name" words
  let (visibility, rest) ← visibilityClause rest
  return (.subroutine name visibility, rest)

/-- no word may be left over -/
def finish : Statement × List Token → Except Complaint Statement
  | (statement, []) => .ok statement
  | (_, t :: _) => .error ⟨t.column, .malformed ("unexpected `" ++ t.text ++ "` at end of line")⟩

/-! ## Emitting lines -/

def readArguments : List Token → Except Complaint (List Argument)
  | [] => .ok []
  | t :: rest => do
    let operands ← (Operand.parse t.text).mapError (Complaint.mk t.column)
    let arguments ← readArguments rest
    return operands.map (⟨·, t⟩) ++ arguments

def checkArgument (argument : Argument) (kind : OperandKind) : Except Complaint Unit :=
  if argument.operand.fits kind then .ok ()
  else
    let expected := match kind with
      | .register => "a register"
      | .immediate => "an immediate"
    .error ⟨argument.token.column, .invalidOperand argument.token.text expected⟩

/-- every operand must fit its place; the first that does not is at fault -/
def checkArguments : List Argument → List OperandKind → Except Complaint Unit
  | argument :: arguments, kind :: kinds => do
    checkArgument argument kind
    checkArguments arguments kinds
  | _, _ => .ok ()

def emission (first : Token) (words : List Token) : Except Complaint Statement :=
  match Mnemonic.ofText? first.text with
  | none => .error ⟨first.column, .unknownMnemonic first.text⟩
  | some .data => do
    let arguments ← readArguments words
    checkArguments arguments (arguments.map fun _ => .immediate)
    return .data arguments
  | some (.operation op) => do
    let arguments ← readArguments words
    if arguments.length = op.operands.length then
      checkArguments arguments op.operands
      return .instruction op arguments
    else .error ⟨first.column, .arityMismatch op.mnemonic op.operands.length arguments.length⟩

/-! ## Lines -/

/-- whether `sub` followed by these words declares a subroutine -/
def declaresSubroutine : List Token → Bool
  | [_] => true
  | _ :: t :: _ => t.text = "public"
  | _ => false

/-- the statement that the words spell -/
def ofTokens : List Token → Except Complaint Statement
  | [] => .ok .blank
  | first :: rest =>
    match first.text.toList with
    | '.' :: name =>
      let name := String.ofList name
      if isIdentifier name then do
        let (visibility, rest) ← visibilityClause rest
        finish (.label name visibility, rest)
      else .error (invalid "label" first)
    | _ =>
      if first.text = "namespace" then do
        let (change, rest) ← scopeClause rest
        finish (.scope change, rest)
      else if first.text = "private" then do
        let (change, rest) ← privateClause rest
        finish (.scope change, rest)
      else if first.text = "def" ∨ (first.text = "sub" ∧ declaresSubroutine rest) then
        subroutineClause rest >>= finish
      else if first.text = "export" then do
        let (name, rest) ← dottedName "export name" true rest
        let (newName, rest) ← aliasClause rest
        finish (.exportName name newName, rest)
      else if first.text = "use" then do
        let (name, rest) ← dottedName "name" false rest
        let (newName, rest) ← aliasClause rest
        finish (.useName name newName, rest)
      else emission first rest

def parse (line : String) : Except Complaint Statement :=
  ofTokens (Token.ofLine line)

/-- the statement of line `number`, with a complaint placed there -/
def parseLine (number : Nat) (line : String) : Except AssemblyError Statement :=
  (parse line).mapError fun complaint => ⟨number, complaint.column, line, complaint.cause⟩

end ByteMachine.Statement

/-
Why a source text is rejected, where, and how that is told to the author of the text.

A diagnostic quotes the line and sets a caret under the column, or under the first character that is not blank if the
line as a whole is at fault. Line 0 stands for the text as a whole, and then nothing is quoted.
-/
import ByteMachine.Text.Blank
import ByteMachine.Text.Numeral
import ByteMachine.Word

namespace ByteMachine

inductive AssemblyError.Cause where
  /-- the line is of no known form -/
  | malformed (message : String)
  /-- the first word of an emitting line is no mnemonic -/
  | unknownMnemonic (word : String)
  /-- the number of operand bytes is not that of the table -/
  | arityMismatch (mnemonic : String) (expected found : Nat)
  /-- an operand cannot be read, or does not fit its place -/
  | invalidOperand (operand expected : String)
  /-- a name is bound a second time -/
  | duplicateLabel (name : String)
  /-- no namespace is open that could be closed -/
  | popRoot
  /-- a label is made public inside an anonymous namespace -/
  | exportFromAnonymous (name : String)
  /-- a name is exported where there is no namespace above -/
  | exportFromRoot (name : String)
  /-- a name is used and never bound -/
  | undefinedLabel (name : String)
  /-- a name stands for another one that stands for the first again -/
  | aliasCycle (name : String)
  /-- the image does not fit into the address space -/
  | programTooLarge (mount : Word) (size : Nat)
  /-- the text could not be read from its file -/
  | unreadable (message : String)
  deriving DecidableEq, Repr

/-- a rejection: the line it belongs to (0 for the whole text), the column of the word at fault (0 for the whole line),
the line itself and the reason -/
structure AssemblyError where
  line : Nat
  column : Nat
  text : String
  cause : AssemblyError.Cause
  deriving DecidableEq, Repr

namespace AssemblyError

def Cause.message : Cause → String
  | malformed message => "syntax error: " ++ message
  | unknownMnemonic word => "unknown mnemonic `" ++ word ++ "`"
  | arityMismatch mnemonic expected found =>
    "`" ++ mnemonic ++ "` expects " ++ toString expected ++ " operand(s), got " ++ toString found
  | invalidOperand operand expected => "invalid operand `" ++ operand ++ "`: expected " ++ expected
  | duplicateLabel name => "duplicate label `" ++ name ++ "`"
  | popRoot => "cannot pop the root namespace"
  | exportFromAnonymous name => "cannot export `" ++ name ++ "` from an anonymous namespace"
  | exportFromRoot name => "cannot export `" ++ name ++ "` from the root namespace"
  | undefinedLabel name => "undefined label `" ++ name ++ "`"
  | aliasCycle name => "alias cycle through `" ++ name ++ "`"
  | programTooLarge mount size =>
    "program of " ++ toString size ++ " bytes mounted at " ++ Text.markedHex 4 mount.toNat ++
      " exceeds the address space"
  | unreadable message => "io error: " ++ message

def whole (cause : Cause) : AssemblyError := ⟨0, 0, "", cause⟩

def message (e : AssemblyError) : String :=
  "line " ++ toString e.line ++ ": " ++ e.cause.message

def quotedLine (e : AssemblyError) : String :=
  String.ofList (e.text.toList.reverse.dropWhile (· = '\r')).reverse

/-- the column of the caret, counted from one -/
def caretColumn (e : AssemblyError) : Nat :=
  if e.column = 0 then (e.quotedLine.toList.takeWhile Text.isBlank).length + 1 else e.column

/-- the diagnostic, one line for each entry -/
def diagnosticLines (file : String) (e : AssemblyError) : List String :=
  let heading := "error: " ++ e.cause.message
  if e.line = 0 then [heading, " --> " ++ file]
  else
    [heading,
     " --> " ++ file ++ ":" ++ toString e.line ++ ":" ++ toString e.caretColumn,
     "     |",
     Text.alignRight ' ' 4 (toString e.line) ++ " | " ++ e.quotedLine,
     "     | " ++ Text.copies ' ' (e.caretColumn - 1) ++ "^"]

/-- the diagnostic of a rejected text that came from `file` -/
def diagnostic (file : String) (e : AssemblyError) : String :=
  String.join ((e.diagnosticLines file).map (· ++ "\n"))

end AssemblyError

end ByteMachine

/-
What a command leaves behind: an exit code, the text it printed, its messages in order, and the files as they are
afterwards. Also the parts that several commands share.
-/
import ByteMachine.Assembly.Image
import ByteMachine.Command.Arguments
import ByteMachine.Files.FileTree
import ByteMachine.Log

namespace ByteMachine.Command

/-- what a command leaves behind -/
structure Outcome where
  code : Nat
  output : String
  messages : List Message
  files : FileTree

def Outcome.failure (files : FileTree) (messages : List Message) : Outcome := ⟨1, "", messages, files⟩

def problem (text : String) : Message := ⟨.error, text⟩

def note (text : String) : Message := ⟨.info, text⟩

/-- the diagnostic of a rejected text as a message -/
def diagnosis (file : String) (e : AssemblyError) : Message :=
  problem (Text.trimRight (e.diagnostic file))

/-- where an image lies, in words -/
def extent (assembly : Assembly) : String :=
  toString assembly.bytes.length ++ " bytes at " ++ Text.markedHex 4 assembly.mount.toNat

/-- the image of the text in a file, with the messages of its assembly; nothing if there is an error, which the messages
tell -/
def assembleFile (files : FileTree) (path : String) (mount : Word) : Option Assembly × List Message :=
  let result := match files.readText path with
    | .ok source => assemble source mount
    | .error reason => .error (AssemblyError.whole (.unreadable (path ++ ": " ++ reason.message)))
  match result with
  | .ok assembly =>
    (some assembly,
      [⟨.debug, "assembled " ++ extent assembly ++ ", " ++ toString assembly.symbols.length ++ " names bound"⟩])
  | .error e => (none, [diagnosis path e])

/-- the messages of a refusal; an argument that has no place here is answered with the help text -/
def UsageError.messages (help : String) (e : UsageError) : List Message :=
  match e with
  | .unexpected _ => [problem e.message, note help]
  | _ => [problem e.message]

end ByteMachine.Command

/-
The command line: the first argument names a command, and the others are its own. The files that the arguments may mean
are read before the command, and the files that it changed are written after it; the command itself works on a tree of
files in between.
-/
import ByteMachine.Command.Assembler
import ByteMachine.Command.Benchmark
import ByteMachine.Command.Runner
import Std.Time.DateTime.Timestamp

namespace ByteMachine.CommandLine

/-- the places that a path leads through, its end included, whatever lies there -/
def placesFrom (place : Location) : List String → List Location
  | [] => [place]
  | piece :: rest => place :: placesFrom (place.enter piece) rest

/-- the places that the arguments may mean, and the place where the assembler puts its image -/
def placesOf (arguments : List String) : List Location :=
  let outputs := arguments.head?.toList.map Command.Assembler.defaultOutput
  (arguments ++ outputs).flatMap fun path => placesFrom (Location.start path) (FileTree.pieces path)

/-- what lies at a place on the disk; a file that cannot be read counts as missing -/
def nodeAt? (place : Location) : IO (Option FileTree.Node) := do
  let target := (← IO.currentDir) / place.path
  if ← target.isDir then return some .directory
  try return some (.file (← IO.FS.readBinFile target).toList)
  catch _ => return none

/-- the part of the disk that the arguments may mean -/
def readTree (arguments : List String) : IO FileTree := do
  let mut tree := FileTree.empty
  for place in placesOf arguments do
    match ← nodeAt? place with
    | some node => tree := tree.put place node
    | none => pure ()
  return tree

/-- write the files that are not as they were -/
def writeTree (before after : FileTree) : IO Unit := do
  for (place, node) in after.entries do
    match node with
    | .directory => pure ()
    | .file content =>
      if before.find? place ≠ some node then
        IO.FS.writeBinFile ((← IO.currentDir) / place.path) content.toByteArray

def perform (command : List String → FileTree → Command.Outcome) (arguments : List String) : IO UInt32 := do
  let before ← readTree arguments
  let outcome := command arguments before
  let time := (← Std.Time.Timestamp.now).toMillisecondsSinceUnixEpoch.val
  writeTree before outcome.files
  IO.eprint (Message.renderAll (← IO.getEnv "MINICPU_LOG") (some time) outcome.messages)
  IO.print outcome.output
  return outcome.code.toUInt32

def dispatch : List String → IO UInt32
  | "minicpu" :: arguments => perform (Command.Runner.run "minicpu") arguments
  | "assembler" :: arguments => perform (Command.Assembler.run "assembler") arguments
  | "bench" :: _ => do
    let code ← Command.Benchmark.run (IO.monoNanosNow : IO Nat) IO.print
    return code.toUInt32
  | _ => do
    IO.eprintln "expected a command: minicpu, assembler or bench"
    return 2

end ByteMachine.CommandLine

/-- run the command that the arguments name -/
def main (arguments : List String) : IO UInt32 :=
  ByteMachine.CommandLine.dispatch arguments

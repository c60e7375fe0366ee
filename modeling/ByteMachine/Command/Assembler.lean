/-
The assembler command: assemble a file and write its image to another. Every check comes before the one write, so a
command that fails changes no file.
-/
import ByteMachine.Command.Outcome
import ByteMachine.Listing

namespace ByteMachine.Command.Assembler

structure Options where
  output : Option String
  mount : Word
  listing : Bool
  symbols : Bool
  deriving DecidableEq, Repr

def Options.default : Options := ⟨none, Assembly.defaultMount, false, false⟩

/-- the address that a value spells -/
def mountOf? (value : String) : Option Word :=
  (Text.number? 0x10000 value).map UInt16.ofNat

/-- the options of the command; a later value of an option replaces an earlier one -/
def optionTable : OptionTable Options where
  flag? options argument :=
    match argument with
    | "--listing" | "-l" => some { options with listing := true }
    | "--symbols" | "-s" => some { options with symbols := true }
    | _ => none
  value? options argument :=
    match argument with
    | "--output" | "-o" => some fun value => .ok { options with output := some value }
    | "--mount" | "-m" => some fun value =>
      match mountOf? value with
      | some mount => .ok { options with mount }
      | none => .error (.badMount value)
    | _ => none

def help (program : String) : String :=
  "Assembler\n\nUSAGE:\n    " ++ program ++ " <input.asm> [OPTIONS]\n\nARGS:\n" ++
  "    <input.asm>    Assembly source file to compile\n\nOPTIONS:\n" ++
  "    -o, --output <file>    Output file path (defaults to <input>.bin)\n" ++
  "    -m, --mount <addr>     Load address, decimal or 0x hex (defaults to 0x10)\n" ++
  "    -l, --listing          Print a disassembly listing of the output\n" ++
  "    -s, --symbols          Print the resolved symbol table\n" ++
  "    -h, --help             Print this help message\n\nEXAMPLES:\n" ++
  "    # Compile to default output name\n    " ++ program ++ " program.asm\n\n" ++
  "    # Compile with explicit output\n    " ++ program ++ " program.asm -o output.bin\n\n" ++
  "    # Compile for a different load address and show the result\n    " ++ program ++
  " program.asm --mount 0x100 --listing --symbols\n"

/-- where the image of an input file goes if nothing else is asked for -/
def defaultOutput (input : String) : String := FileName.withExtension input "bin"

/-- the directory that an output path needs and that is not there -/
def missingDirectory? (files : FileTree) (output : String) : Option String :=
  (FileName.directory? output).filter fun directory => directory ≠ "" && !files.pathExists directory

def symbolTable (symbols : List (String × Word)) : String :=
  let width := (symbols.map (·.1.length)).foldl max 0
  String.join (symbols.map fun (name, address) =>
    Text.alignLeft width name ++ "  " ++ Text.markedHex 4 address.toNat ++ "\n")

/-- assemble an input file as the options ask -/
def compile (files : FileTree) (input : String) (options : Options) : Outcome :=
  if !files.pathExists input then .failure files [problem ("Input file does not exist: " ++ input)]
  else
    let output := options.output.getD (defaultOutput input)
    match missingDirectory? files output with
    | some directory => .failure files [problem ("Output directory does not exist: " ++ directory)]
    | none =>
      match assembleFile files input options.mount with
      | (none, messages) => .failure files messages
      | (some assembly, messages) =>
        match files.writeFile output assembly.bytes with
        | .error reason =>
          .failure files (messages ++ [problem ("Failed to write output file: " ++ reason.message)])
        | .ok written =>
          let done := note ("Compiled " ++ input ++ " -> " ++ output ++ " (" ++ extent assembly ++ ")")
          let shown := if options.listing then listing assembly.bytes assembly.mount else ""
          let table := if options.symbols then symbolTable assembly.symbols else ""
          ⟨0, shown ++ table, messages ++ [done], written⟩

/-- the command under the name it was called by, with its arguments -/
def run (program : String) (arguments : List String) (files : FileTree) : Outcome :=
  match arguments with
  | [] => .failure files [note (help program)]
  | input :: rest =>
    if asksForHelp input then ⟨0, "", [note (help program)], files⟩
    else
      match optionTable.read Options.default rest with
      | .ok options => compile files input options
      | .error e => .failure files (e.messages (help program))

end ByteMachine.Command.Assembler

/-
The runner command: assemble a file, load it and run it against the screen for a number of ticks, each with the same
budget of instructions. What the screen has to complain about and what the run has to tell become messages in the order
in which they arise.
-/
import ByteMachine.Command.Outcome
import ByteMachine.Machine.Run
import ByteMachine.Screen
import ByteMachine.Text.Fixed

namespace ByteMachine.Command.Runner

structure Options where
  mount : Word
  cycles : Option Nat
  ticks : Nat
  pressed : List Button
  trace : Bool
  profile : Bool
  deriving DecidableEq, Repr

def Options.default : Options := ⟨Assembly.defaultMount, none, 1, [], false, false⟩

def countOf? (value : String) : Option Nat := Text.number? 0x10000000000000000 value

def mountOf? (value : String) : Option Word :=
  ((countOf? value).filter (· < 0x10000)).map UInt16.ofNat

/-- the options of the command; buttons add up, and a later value of any other option replaces an earlier one -/
def optionTable : OptionTable Options where
  flag? options argument :=
    match argument with
    | "--trace" => some { options with trace := true }
    | "--profile" => some { options with profile := true }
    | _ => none
  value? options argument :=
    match argument with
    | "--mount" => some fun value =>
      match mountOf? value with
      | some mount => .ok { options with mount }
      | none => .error (.badMount value)
    | "--cycles" => some fun value =>
      match countOf? value with
      | some cycles => .ok { options with cycles := some cycles }
      | none => .error (.badBudget value)
    | "--ticks" => some fun value =>
      match countOf? value with
      | some ticks => .ok { options with ticks }
      | none => .error (.badTicks value)
    | "--press" => some fun value =>
      match Button.ofName? value with
      | some button => .ok { options with pressed := options.pressed ++ [button] }
      | none => .error (.unknownButton value)
    | _ => none

def help (program : String) : String :=
  "minicpu\n\nUSAGE:\n    " ++ program ++ " <program.asm> [OPTIONS]\n\nARGS:\n" ++
  "    <program.asm>    Assembly source to run\n\nOPTIONS:\n" ++
  "    --mount <addr>    Load address, decimal or 0x hex (defaults to 0x10)\n" ++
  "    --cycles <n>      Cycle budget per tick (defaults to unbounded)\n" ++
  "    --ticks <n>       Number of host ticks to run (defaults to 1)\n" ++
  "    --press <dir>     Hold a button: left, right, up or down (repeatable)\n" ++
  "    --trace           Log every instruction before it executes\n" ++
  "    --profile         Print executed instructions per category\n" ++
  "    -h, --help        Print this help message\n\nENVIRONMENT:\n" ++
  "    MINICPU_LOG       Log threshold: debug, info, warn or error\n\nEXAMPLES:\n" ++
  "    # Draw one frame of the treasure game\n    " ++ program ++ " demos/treasure.asm\n\n" ++
  "    # Walk the player right for five frames\n    " ++ program ++
  " demos/treasure.asm --ticks 5 --press right\n"

/-! ## The console -/

/-- the screen, and the messages so far -/
structure Console where
  screen : Screen
  messages : Array Message

def Console.say (console : Console) (message : Message) : Console :=
  { console with messages := console.messages.push message }

/-- one more message that an access was wrong, if it was -/
def Console.complain (console : Console) (complaint : Option String) : Console :=
  match complaint with
  | some text => console.say ⟨.warn, text⟩
  | none => console

instance : Device Console where
  read console offset :=
    let (value, screen) := Device.read console.screen offset
    (value, { console with screen }.complain (Screen.readComplaint? offset))
  write console offset value :=
    { console with screen := Device.write console.screen offset value }.complain (Screen.writeComplaint? offset value)

def say (board : Board Console) (message : Message) : Board Console :=
  { board with device := board.device.say message }

/-! ## Ticks -/

/-- the line that is logged before a step: where the next instruction lies, and what a listing shows there -/
def traceLine (machine : Machine) : String :=
  let address := machine.resumeAddress
  Text.hex 4 address.toNat ++ ": " ++ (machine.chunkAt address).text

def tracedStep (board : Board Console) : Except Fault Exit × Board Console :=
  (say board (note (traceLine board.machine))).step

/-- run with a message before each step, with a budget of steps or without one -/
def trace (budget : Option Nat) (board : Board Console) : Except Fault Exit × Board Console :=
  takeSteps tracedStep budget board

/-- what there is to tell after a tick -/
def report (number : Nat) (exit : Exit) (board : Board Console) : Board Console :=
  let (dirty, screen) := board.device.screen.takeDirty
  let board := { board with device := { board.device with screen } }
  let heading := "tick " ++ toString number ++ ": "
  let board := if dirty then say board (note (heading ++ "screen updated")) else board
  match exit with
  | .halted => board
  | .paused => say board (note (heading ++ "paused after " ++ toString board.machine.cycles.toNat ++ " cycles"))

/-- run for `count` ticks, the first of which has the given number; a fault ends them -/
def ticks (options : Options) : (count number : Nat) → Board Console → Except Fault Unit × Board Console
  | 0, _, board => (.ok (), board)
  | count + 1, number, board =>
    match if options.trace then trace options.cycles board else board.run options.cycles with
    | (.ok exit, board) => ticks options count (number + 1) (report number exit board)
    | (.error fault, board) => (.error fault, board)

/-! ## What is printed -/

def digit (value : Bool) : String := if value then "1" else "0"

def stateText (board : Board Console) : String :=
  let rs := board.machine.registers
  let registers := Register.all.map fun r => r.name ++ "=" ++ Text.markedHex 2 (rs.read r).toNat
  " ".intercalate registers ++ "\n" ++
    "ip=" ++ Text.markedHex 4 rs.ip.toNat ++ " sp=" ++ Text.markedHex 4 rs.sp.toNat ++
    " zero=" ++ digit rs.zero ++ " carry=" ++ digit rs.carry ++
    " cycles=" ++ toString board.machine.cycles.toNat ++ "\n" ++
    board.device.screen.render

/-- a count as a percentage of the total, with one decimal place -/
def percentage (count total : UInt64) : String :=
  Text.fixed 1 (count.toFloat / total.toFloat * 100.0)

/-- the counts of a profile that are not zero, and their total -/
def profileText (profile : Profile) : String :=
  let titleWidth := 2 + (("total" :: Category.all.map Category.title).map String.length).foldl max 0
  let countWidth := (toString profile.total.toNat).length
  let dashes := Text.copies '-' (titleWidth + 1 + countWidth + 2 + "( 100.0%)".length) ++ "\n"
  let row (title : String) (count : UInt64) (percent : String) : String :=
    Text.alignLeft titleWidth title ++ " " ++ Text.alignRight ' ' countWidth (toString count.toNat) ++
      " (" ++ Text.alignRight ' ' 5 percent ++ "%)\n"
  let counted := profile.counts.filter fun (_, count) => count ≠ 0
  "Cycle Profile:\n" ++ dashes ++
    String.join (counted.map fun (category, count) =>
      row category.title count (percentage count profile.total)) ++
    dashes ++ row "total" profile.total (Text.fixed 1 100.0)

/-! ## The command -/

/-- run a loaded machine as the options ask -/
def perform (files : FileTree) (options : Options) (machine : Machine) (messages : List Message) : Outcome :=
  let screen := options.pressed.foldl (fun screen button => screen.setButton button true) Screen.initial
  match ticks options options.ticks 0 ⟨machine, screen, messages.toArray⟩ with
  | (.error fault, board) => .failure files (board.device.say (problem fault.message)).messages.toList
  | (.ok (), board) =>
    let profile := if options.profile then profileText board.machine.profile else ""
    ⟨0, stateText board ++ profile, board.device.messages.toList, files⟩

/-- assemble and run an input file as the options ask -/
def execute (files : FileTree) (input : String) (options : Options) : Outcome :=
  match assembleFile files input options.mount with
  | (none, messages) => .failure files messages
  | (some assembly, messages) =>
    let messages := messages ++ [note ("Loaded " ++ input ++ " (" ++ extent assembly ++ ")")]
    match Machine.initial.load assembly.mount assembly.bytes with
    | .error fault => .failure files (messages ++ [problem fault.message])
    | .ok machine => perform files options machine messages

/-- the command under the name it was called by, with its arguments -/
def run (program : String) (arguments : List String) (files : FileTree) : Outcome :=
  match arguments with
  | [] => .failure files [note (help program)]
  | input :: rest =>
    if asksForHelp input then ⟨0, "", [note (help program)], files⟩
    else
      match optionTable.read Options.default rest with
      | .ok options => execute files input options
      | .error e => .failure files (e.messages (help program))

end ByteMachine.Command.Runner

/-
The arguments of a command after its input file: flags, and options that take the next argument as their value. They are
read from left to right, and the first one that cannot be read ends the reading.
-/

namespace ByteMachine.Command

inductive UsageError where
  | missingValue (option : String)
  | badMount (value : String)
  | badBudget (value : String)
  | badTicks (value : String)
  | unknownButton (value : String)
  | unexpected (argument : String)
  deriving DecidableEq, Repr

def UsageError.message : UsageError → String
  | missingValue option => option ++ " requires an argument"
  | badMount value => "Invalid mount address: '" ++ value ++ "'"
  | badBudget value => "Invalid cycle budget: '" ++ value ++ "'"
  | badTicks value => "Invalid tick count: '" ++ value ++ "'"
  | unknownButton value => "Unknown button: '" ++ value ++ "' (expected left, right, up or down)"
  | unexpected argument => "Unexpected argument: " ++ argument ++ "\n"

/-- what a command makes of its arguments: how a flag changes the options, and how the value of an option does; nothing
if there is no such flag or option -/
structure OptionTable (ω : Type) where
  flag? : ω → String → Option ω
  value? : ω → String → Option (String → Except UsageError ω)

/-- the options that the arguments ask for -/
def OptionTable.read {ω : Type} (table : OptionTable ω) (options : ω) : List String → Except UsageError ω
  | [] => .ok options
  | argument :: rest =>
    match table.flag? options argument with
    | some options => table.read options rest
    | none =>
      match table.value? options argument, rest with
      | none, _ => .error (.unexpected argument)
      | some _, [] => .error (.missingValue argument)
      | some take, value :: rest => do table.read (← take value) rest

def asksForHelp (argument : String) : Bool := argument = "--help" || argument = "-h"

end ByteMachine.Command

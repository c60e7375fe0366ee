/-
Messages for the operator. Every message has a level; messages below a threshold are left out. A message is written
after its level and, where the time is known, after the time of day.
-/
import ByteMachine.Text.Blank
import ByteMachine.Text.Numeral

namespace ByteMachine

/-- how grave a message is -/
inductive Level where
  | debug
  | info
  | warn
  | error
  deriving DecidableEq, Repr

namespace Level

/-- the level's place in the order of gravity -/
def rank : Level → Nat
  | debug => 0
  | info => 1
  | warn => 2
  | error => 3

def title : Level → String
  | debug => "DEBUG"
  | info => "INFO"
  | warn => "WARN"
  | error => "ERROR"

/-- the lower-case spelling of an ASCII capital; any other character as it is -/
def lowerAscii (c : Char) : Char :=
  if 'A' ≤ c ∧ c ≤ 'Z' then Char.ofNat (c.toNat + 32) else c

/-- the level that a setting names, whatever its case and the blanks around it -/
def parse? (text : String) : Option Level :=
  match String.ofList ((Text.trim text).toList.map lowerAscii) with
  | "debug" => some debug
  | "trace" => some debug
  | "info" => some info
  | "warn" => some warn
  | "warning" => some warn
  | "error" => some error
  | _ => none

end Level

structure Message where
  level : Level
  text : String
  deriving DecidableEq, Repr

namespace Message

/-- the time of day in milliseconds after midnight, from the milliseconds since the start of 1970; midnight for a time
before that -/
def timeOfDay (milliseconds : Int) : Nat :=
  milliseconds.toNat % 86400000

/-- a time of day written to the millisecond -/
def stamp (milliseconds : Nat) : String :=
  let seconds := milliseconds / 1000
  Text.decimal 2 (seconds / 3600) ++ ":" ++ Text.decimal 2 (seconds / 60 % 60) ++ ":" ++
    Text.decimal 2 (seconds % 60) ++ "." ++ Text.decimal 3 (milliseconds % 1000) ++ " "

/-- the message as it is written at a time, if one is given -/
def render (time : Option Int) (message : Message) : String :=
  (time.map fun milliseconds => stamp (timeOfDay milliseconds)).getD "" ++
    "[" ++ message.level.title ++ "] " ++ message.text ++ "\n"

/-- the threshold that a setting asks for; information and graver messages where it names no level -/
def threshold (setting : Option String) : Level :=
  (setting.bind Level.parse?).getD .info

/-- the messages that reach the threshold, as they are written -/
def renderAll (setting : Option String) (time : Option Int) (messages : List Message) : String :=
  String.join ((messages.filter fun message => (threshold setting).rank ≤ message.level.rank).map (·.render time))

end Message

end ByteMachine

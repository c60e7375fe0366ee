/-
Names as they are written in source text: dotted identifiers, either read from the root (`global.a.b`) or from the
namespace at hand, where every leading `$` climbs one level (`$.$.a.b`).
-/
import ByteMachine.Text.Split

namespace ByteMachine

/-- where the reading of a name starts: at the root, or some levels above the namespace at hand -/
inductive Origin where
  | root
  | above (levels : Nat)
  deriving DecidableEq, Repr

/-- a name as written: where it starts, and its identifiers from there -/
structure Name where
  origin : Origin
  parts : List String
  deriving DecidableEq, Repr

/-- whether a character may stand in an identifier: ASCII letters, digits and the underscore -/
def isIdentifierChar (c : Char) : Bool :=
  ('a' ≤ c && c ≤ 'z') || ('A' ≤ c && c ≤ 'Z') || ('0' ≤ c && c ≤ '9') || c == '_'

def isIdentifier (text : String) : Bool :=
  !text.toList.isEmpty && text.toList.all isIdentifierChar

namespace Name

def separator : Char := '.'

/-- the leading segment that sends a name to the root -/
def rootMark : String := "global"

/-- the leading segment that climbs one level -/
def climbMark : String := "$"

def root : Name := ⟨.root, []⟩

/-- drop the leading climb marks and count them -/
def climb : List String → Nat × List String
  | [] => (0, [])
  | segment :: segments =>
    if segment = climbMark then
      let (levels, parts) := climb segments
      (levels + 1, parts)
    else (0, segment :: segments)

/-- the name that the segments of a dotted text spell, whatever its parts are -/
def ofSegments : List String → Name
  | [] => ⟨.above 0, []⟩
  | segment :: segments =>
    if segment = rootMark then ⟨.root, segments⟩
    else
      let (levels, parts) := climb (segment :: segments)
      ⟨.above levels, parts⟩

/-- read a name; the root without any part is a name only where `allowRoot` says so -/
def parse? (allowRoot : Bool) (text : String) : Option Name :=
  let name := ofSegments ((Text.pieces separator text.toList).map String.ofList)
  if name.parts.all isIdentifier && (!name.parts.isEmpty || (allowRoot && name.origin = .root)) then some name else none

def isPlain (name : Name) : Bool :=
  name.origin = .above 0

def bare (name : Name) : String :=
  ".".intercalate name.parts

end Name

end ByteMachine

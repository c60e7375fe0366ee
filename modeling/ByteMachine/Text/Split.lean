/-
Text cut into pieces at a separator, and source text cut into lines.

A line ends at a line feed; a carriage return directly before that line feed belongs to the line end, any other is part
of the line. A line feed at the very end of the text starts no further line.
-/

namespace ByteMachine.Text

/-- the piece before the first separator, and the pieces after it in order -/
def cut (separator : Char) (cs : List Char) : List Char × List (List Char) :=
  cs.foldr (fun c (piece, pieces) => if c = separator then ([], piece :: pieces) else (c :: piece, pieces)) ([], [])

def pieces (separator : Char) (cs : List Char) : List (List Char) :=
  (cut separator cs).1 :: (cut separator cs).2

/-- `cs` without one carriage return at its end -/
def dropReturn (cs : List Char) : List Char :=
  if cs.getLast? = some '\r' then cs.dropLast else cs

/-- the lines among the pieces of a text: the last piece ends in no line feed, and is a line only if it is not empty -/
def linesOfPieces (first : List Char) : List (List Char) → List (List Char)
  | [] => if first = [] then [] else [first]
  | piece :: pieces => dropReturn first :: linesOfPieces piece pieces

def lines (text : String) : List String :=
  let (first, rest) := cut '\n' text.toList
  (linesOfPieces first rest).map String.ofList

end ByteMachine.Text

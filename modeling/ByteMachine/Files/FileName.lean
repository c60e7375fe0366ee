/-
Paths as text: the directory of a path, the name at its end, and the name without its extension. Pieces between slashes
that are empty or a single point say nothing, except a point at the very start.
-/
import ByteMachine.Text.Split

namespace ByteMachine.FileName

/-- the pieces of a path between its slashes; the first is empty if the path is absolute -/
def pieces (path : String) : String × List String :=
  let (first, rest) := Text.cut '/' path.toList
  (String.ofList first, rest.map String.ofList)

/-- whether a piece says nothing -/
def isIdle (piece : String) : Bool := piece = "" || piece = "."

def dropIdle (rest : List String) : List String :=
  (rest.reverse.dropWhile isIdle).reverse

def isAbsolute (path : String) : Bool := path.toList.head? = some '/'

/-- the path of the directory that holds what the path names; the root and the empty path have none -/
def directory? (path : String) : Option String :=
  let (first, rest) := pieces path
  match dropIdle rest with
  | [] => if first = "" then none else some ""
  | rest =>
    match dropIdle rest.dropLast with
    | [] => some (if first = "" then "/" else first)
    | rest => some ("/".intercalate (first :: rest))

/-- the name at the end of the path; `..` at the end is no name -/
def last? (path : String) : Option String :=
  let (first, rest) := pieces path
  let name := (dropIdle rest).getLast?.getD first
  if isIdle name || name = ".." then none else some name

/-- a name up to its last point; a point at the start of the name does not end it -/
def stem (name : String) : String :=
  let tail := name.toList.reverse
  match (tail.dropWhile (· ≠ '.')).drop 1 with
  | [] => name
  | kept => String.ofList kept.reverse

/-- the path of a name in a directory; the empty path stands for the directory at hand -/
def inDirectory (directory name : String) : String :=
  if directory = "" then name
  else if directory.toList.getLast? = some '/' then directory ++ name
  else directory ++ "/" ++ name

/-- the path with its extension replaced, or with one added; a path without a name gets the extension as its name -/
def withExtension (path extension : String) : String :=
  inDirectory ((directory? path).getD ".") (((last? path).map stem).getD "" ++ "." ++ extension)

end ByteMachine.FileName

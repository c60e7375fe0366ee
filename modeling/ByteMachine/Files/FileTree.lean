/-
The files that a program can reach, and what reading and writing them does. Paths are followed piece by piece: every
piece but the last must lead to a directory, `.` and empty pieces stay where they are, and `..` leads to the directory
above.

A place is known by the names that lead to it, from the working directory, from a directory above it, or from the root.
-/
import ByteMachine.Files.FileName
import ByteMachine.Name
import ByteMachine.Word

namespace ByteMachine

/-- a place of the tree: where the way to it starts, and the names on the way -/
structure Location where
  origin : Origin
  names : List String
  deriving DecidableEq, Repr

namespace Location

/-- the directory at which a path starts -/
def start (path : String) : Location :=
  if FileName.isAbsolute path then ⟨.root, []⟩ else ⟨.above 0, []⟩

/-- the directory above; nothing is above the root -/
def parent (place : Location) : Location :=
  if place.names.isEmpty then
    match place.origin with
    | .root => place
    | .above levels => ⟨.above (levels + 1), []⟩
  else { place with names := place.names.dropLast }

/-- the place that one piece of a path leads to -/
def enter (place : Location) (piece : String) : Location :=
  if FileName.isIdle piece then place
  else if piece = ".." then place.parent
  else { place with names := place.names ++ [piece] }

/-- a path that leads to the place -/
def path (place : Location) : String :=
  match place.origin with
  | .root => "/" ++ "/".intercalate place.names
  | .above levels => "/".intercalate (List.replicate levels ".." ++ place.names)

end Location

inductive FileTree.Node where
  | directory
  | file (content : List Byte)
  deriving DecidableEq

/-- the known places other than the directories at which paths start, and what lies there -/
structure FileTree where
  entries : List (Location × FileTree.Node)
  deriving DecidableEq

/-- why a file cannot be read or written -/
inductive FileTree.Problem where
  | notFound
  | notDirectory
  | isDirectory
  | notText
  deriving DecidableEq, Repr

def FileTree.Problem.message : FileTree.Problem → String
  | notFound => "No such file or directory (os error 2)"
  | notDirectory => "Not a directory (os error 20)"
  | isDirectory => "Is a directory (os error 21)"
  | notText => "stream did not contain valid UTF-8"

namespace FileTree

def empty : FileTree := ⟨[]⟩

def find? (tree : FileTree) (place : Location) : Option Node :=
  if place.names = [] then some .directory
  else (tree.entries.find? (·.1 = place)).map (·.2)

def put (tree : FileTree) (place : Location) (node : Node) : FileTree :=
  if tree.entries.any (·.1 = place) then
    ⟨tree.entries.map fun entry => if entry.1 = place then (place, node) else entry⟩
  else ⟨tree.entries ++ [(place, node)]⟩

/-- follow one piece of a path from a place, which must be a directory -/
def follow (tree : FileTree) (place : Location) (piece : String) : Except Problem Location :=
  match tree.find? place with
  | none => .error .notFound
  | some (.file _) => .error .notDirectory
  | some .directory => .ok (place.enter piece)

/-- follow pieces of a path from the place at which it starts -/
def walk (tree : FileTree) (path : String) (pieces : List String) : Except Problem Location :=
  pieces.foldlM tree.follow (Location.start path)

def pieces (path : String) : List String :=
  (FileName.pieces path).1 :: (FileName.pieces path).2

/-- what a path leads to -/
def lookup (tree : FileTree) (path : String) : Except Problem Node := do
  if path = "" then throw .notFound
  let place ← tree.walk path (pieces path)
  match tree.find? place with
  | none => throw .notFound
  | some node => return node

def pathExists (tree : FileTree) (path : String) : Bool :=
  (tree.lookup path).toOption.isSome

/-- the content of a file as text -/
def readText (tree : FileTree) (path : String) : Except Problem String := do
  match ← tree.lookup path with
  | .directory => throw .isDirectory
  | .file content =>
    match String.fromUTF8? content.toByteArray with
    | some text => return text
    | none => throw .notText

/-- give a file a content; a file that is not there is made in its directory -/
def writeFile (tree : FileTree) (path : String) (content : List Byte) : Except Problem FileTree := do
  if path = "" then throw .notFound
  let rest := pieces path
  -- a slash at the end asks for a directory
  let place ← tree.walk path (rest.reverse.dropWhile (· = "")).reverse
  if rest.getLast? = some "" then throw .isDirectory
  match tree.find? place with
  | some .directory => throw .isDirectory
  | _ => return tree.put place (.file content)

/-- a tree with one more entry, whose directories are made as they are needed -/
def addEntry (tree : FileTree) (path : String) (node : Node) : FileTree :=
  let names := (pieces path).filter (!FileName.isIdle ·)
  let (tree, place) := names.dropLast.foldl
    (fun (tree, place) piece =>
      let place := Location.enter place piece
      (if (tree.find? place).isNone then tree.put place .directory else tree, place))
    (tree, Location.start path)
  match names.getLast? with
  | some name => tree.put (place.enter name) node
  | none => tree

end FileTree

end ByteMachine

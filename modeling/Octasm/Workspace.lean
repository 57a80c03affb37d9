import Octasm.Host
import Octasm.Text.Utf8

/-!
# Workspaces

A workspace is a tree of files together with everything printed so far: a host that is a value.

Paths are resolved name by name. Each step has to start in a directory, an empty name or a single
dot stays there, and two dots go up, at the root to the root itself.

## Main definitions

* `Workspace.resolve`: the place that a path leads to
* `Workspace.host`: the operations on a workspace
-/

namespace Octasm

/-- A place in the tree: the names from the root on. -/
abbrev Place := List Text

/-- What a place holds. -/
inductive Node
  | directory
  | file (bytes : List UInt8)
  /-- A device that takes every byte and keeps none. -/
  | sink
  /-- A device that has no space for a single byte. -/
  | full
  deriving DecidableEq, Repr

/-- A tree of files, the directory that paths start from, and the rows printed so far. -/
structure Workspace where
  nodes : List (Place × Node)
  directory : Place
  printed : List Text
  deriving DecidableEq, Repr

namespace Workspace

/-! ### Places -/

/-- What a place holds, if anything. The root is always a directory. -/
def node? (w : Workspace) (place : Place) : Option Node :=
  if place.isEmpty then some .directory else w.nodes.lookup place

/-- Put a node at a place. -/
def setNode (w : Workspace) (place : Place) (node : Node) : Workspace :=
  { w with nodes := (place, node) :: w.nodes.filter fun entry => entry.1 != place }

/-- Follow one name. The place it leads to need not hold anything. -/
def enter (w : Workspace) (place : Place) (name : Text) : Except Cause Place :=
  match w.node? place with
  | none => .error .noSuchFile
  | some .directory =>
    if name = [] ∨ name = ['.'] then .ok place
    else if name = ['.', '.'] then .ok place.dropLast
    else if 255 < name.utf8Length then .error .nameTooLong
    else .ok (place ++ [name])
  | some _ => .error .notADirectory

/-- Follow names one after the other. -/
def follow (w : Workspace) (place : Place) (names : List Text) : Except Cause Place :=
  names.foldlM w.enter place

/-- Where the names of a path are followed from, and the names. -/
def route (w : Workspace) (path : Text) : Place × List Text :=
  match path with
  | '/' :: rest => ([], rest.splitOn '/')
  | _ => (w.directory, path.splitOn '/')

/-- The place that a path leads to. -/
def resolve (w : Workspace) (path : Text) : Except Cause Place :=
  if path.isEmpty then .error .noSuchFile
  else if 4096 ≤ path.utf8Length then .error .nameTooLong
  else
    let (start, names) := w.route path
    w.follow start names

/-- The place of a file to create. A path with a slash at its end asks for a directory, which no
file can become, but the names in front of it are followed first. -/
def resolveNew (w : Workspace) (path : Text) : Except Cause Place :=
  if path.getLast? = some '/' then do
    let (start, names) := w.route path
    let named := (names.reverse.dropWhile List.isEmpty).reverse
    let _ ← w.follow start (named.dropLast ++ [[]])
    .error .isADirectory
  else w.resolve path

/-! ### Operations -/

/-- Open what is at a path. -/
def openFile (w : Workspace) (path : Text) : Except Cause Place := do
  let place ← w.resolve path
  if (w.node? place).isSome then .ok place else .error .noSuchFile

/-- The bytes at a place. -/
def readAll (w : Workspace) (place : Place) : Except Cause (List UInt8) :=
  match w.node? place with
  | some (.file bytes) => .ok bytes
  | some .directory => .error .isADirectory
  | some .sink | some .full => .ok []
  | none => .error .noSuchFile

/-- Create a file at a path, or empty the one that is there. Devices stay what they are. -/
def createFile (w : Workspace) (path : Text) : Except Cause (Place × Workspace) := do
  let place ← w.resolveNew path
  match w.node? place with
  | some .directory => .error .isADirectory
  | some .sink | some .full => .ok (place, w)
  | some (.file _) | none => .ok (place, w.setNode place (.file []))

/-- Write the content of the file at a place. -/
def writeAll (w : Workspace) (place : Place) (bytes : List UInt8) : Except Cause Workspace :=
  match w.node? place with
  | some (.file _) => .ok (w.setNode place (.file bytes))
  | some .sink => .ok w
  | some .full => if bytes.isEmpty then .ok w else .error .noSpaceLeft
  | some .directory => .error .isADirectory
  | none => .error .noSuchFile

/-- A workspace as a host. What fails leaves it as it was. -/
def host : Host (StateM Workspace) Place where
  openFile path := do return (← get).openFile path
  readAll place := do return (← get).readAll place
  createFile path := do
    match (← get).createFile path with
    | .ok (place, w) =>
      set w
      return .ok place
    | .error cause => return .error cause
  writeAll place bytes := do
    match (← get).writeAll place bytes with
    | .ok w =>
      set w
      return .ok ()
    | .error cause => return .error cause
  print row := modify fun w => { w with printed := w.printed ++ [row] }

end Workspace

end Octasm

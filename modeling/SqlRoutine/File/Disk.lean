import SqlRoutine.File.Encoding
import SqlRoutine.File.Path
import SqlRoutine.Log

/-! # Files and directories

A disk is a tree of directories and files, given by the absolute paths of its nodes. Paths are
followed part by part: every part but the last has to be a directory, also one that is left again
with `..`. The operations refuse what a file system refuses. -/

namespace SqlRoutine

/-- A node of the tree. A log file holds records, whose times are left out. -/
inductive Node where
  | directory
  | file (bytes : Bytes)
  | log (records : List Record)
  deriving DecidableEq, Repr

/-- A tree of directories and files, and the working directory. -/
structure Disk where
  workingDirectory : List Text
  nodes : List (List Text × Node)
  deriving DecidableEq, Repr

namespace Disk

/-- The node at an absolute path; the root is a directory. -/
def node? (d : Disk) (parts : List Text) : Option Node :=
  if parts.isEmpty then some .directory else d.nodes.lookup parts

/-- The disk with the node at the place. -/
def put (d : Disk) (parts : List Text) (node : Node) : Disk :=
  { d with nodes := (parts, node) :: d.nodes.filter (·.1 != parts) }

/-- The disk without a node at the place. -/
def erase (d : Disk) (parts : List Text) : Disk :=
  { d with nodes := d.nodes.filter (·.1 != parts) }

/-- Follows the parts of a path; the last of them need not exist. -/
def follow (d : Disk) (current : List Text) : List Text → Except FileError (List Text)
  | [] => .ok current
  | part :: parts =>
    match d.node? current with
    | none => .error .noSuchFile
    | some .directory =>
      if part = ['.'] then d.follow current parts
      else if part = ['.', '.'] then d.follow current.dropLast parts
      else d.follow (current ++ [part]) parts
    | some _ => .error .notDirectory

/-- The place of a path; a slash at its end asks for a directory. -/
def locate (d : Disk) (path : Text) : Except FileError (List Text) :=
  let start := if Path.isAbsolute path then [] else d.workingDirectory
  let parts := Path.parts path
  if path.isEmpty then .error .noSuchFile
  else d.follow start (if path.endsWith ['/'] then parts ++ [['.']] else parts)

/-- The node at a path. -/
def find? (d : Disk) (path : Text) : Option Node :=
  match d.locate path with
  | .ok parts => d.node? parts
  | .error _ => none

/-- **There is something at the path.** -/
def exists? (d : Disk) (path : Text) : Bool := (d.find? path).isSome

/-- **The bytes of a file.** -/
def read (d : Disk) (path : Text) : Except FileError Bytes := do
  let parts ← d.locate path
  match d.node? parts with
  | none => .error .noSuchFile
  | some .directory => .error .isDirectory
  | some (.file bytes) => return bytes
  | some (.log records) => return Encoding.encodeUtf8 (records.flatMap Record.line)

/-- **The text of a file** in UTF-8. -/
def readText (d : Disk) (path : Text) : Except Fault Text :=
  match d.read path with
  | .error e => .error (.refused e path)
  | .ok bytes =>
    match Encoding.decodeUtf8 bytes with
    | .complete t => .ok t
    | .invalid fault | .cut _ fault => .error fault

/-- The place of a file that is to be written. A path that ends in a slash is no such place. -/
def writable (d : Disk) (path : Text) : Except FileError (List Text) :=
  if !path.isEmpty && path.all (· == '/') then .error .isDirectory
  else do
    let parts ← d.locate (path.dropEndWhile (· == '/'))
    if path.endsWith ['/'] || d.node? parts = some .directory then .error .isDirectory
    else return parts

/-- Creates the directories of a path below `above`; the last one must be new. -/
def makeBelow (d : Disk) (above : List Text) : List Text → Except Fault Disk
  | [] => .error (.refused .exists_ (Path.render above))
  | part :: parts =>
    let here := above ++ [part]
    match d.node? here with
    | none =>
      if parts.isEmpty then .ok (d.put here .directory)
      else (d.put here .directory).makeBelow here parts
    | some node =>
      if parts.isEmpty then .error (.refused .exists_ (Path.render here))
      else if node = .directory then d.makeBelow here parts
      else .error (.refused .notDirectory (Path.render (here ++ parts.take 1)))

/-- **Creates the directory** at an absolute path, and those above it. -/
def makeDirectories (d : Disk) (parts : List Text) : Except Fault Disk := d.makeBelow [] parts

end Disk

end SqlRoutine

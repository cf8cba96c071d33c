import SqlRoutine.Text.Basic

/-! # Paths

Paths are texts with slashes. `split` cuts off the last part, `withoutExtension` the ending of a file
name, and `absolute` gives a path from a working directory its full and simplest form. -/

namespace SqlRoutine.Path

/-- The path starts at the root. -/
def isAbsolute (path : Text) : Bool := path.startsWith ['/']

/-- **The directory and the last part** of a path. The directory loses its trailing slashes, unless
it has nothing else. -/
def split (path : Text) : Text × Text :=
  let directory := path.uptoLast '/'
  (if directory.all (· == '/') then directory else directory.dropEndWhile (· == '/'),
    path.afterLast '/')

/-- **A file name without its extension**: the part before the last dot, if something other than dots
precedes it. -/
def withoutExtension (file : Text) : Text :=
  let stem := (file.uptoLast '.').dropLast
  if stem.all (· == '.') then file else stem

/-- The path as seen from the directory. -/
def join (directory path : Text) : Text :=
  if isAbsolute path || directory.isEmpty then path
  else if directory.endsWith ['/'] then directory ++ path
  else directory ++ '/' :: path

/-- The names that a path is made of. -/
def parts (path : Text) : List Text := (path.splitOn '/').filter (!·.isEmpty)

/-- The parts without `.` and with each `..` taken back; `kept` are the parts so far, last first. -/
def simplify (kept : List Text) : List Text → List Text
  | [] => kept.reverse
  | part :: parts =>
    if part = ['.'] then simplify kept parts
    else if part = ['.', '.'] then simplify kept.tail parts
    else simplify (part :: kept) parts

/-- **The absolute form** of a path, as its parts from the root. -/
def absolute (directory : List Text) (path : Text) : List Text :=
  simplify (if isAbsolute path then [] else directory.reverse) (parts path)

/-- A list of parts cut off after each of them, the shortest first. -/
def beginnings (parts : List Text) : List (List Text) :=
  (List.range (parts.length + 1)).map parts.take

/-- The places that are passed on the way along a path, and those above where it leads. -/
def passed (directory : List Text) (path : Text) : List (List Text) :=
  let start := if isAbsolute path then [] else directory
  let places := (beginnings (parts path)).map (simplify start.reverse)
  (places ++ beginnings (absolute directory path)).eraseDups

/-- The absolute path of a place. -/
def render (parts : List Text) : Text :=
  if parts.isEmpty then ['/'] else parts.flatMap ('/' :: ·)

end SqlRoutine.Path

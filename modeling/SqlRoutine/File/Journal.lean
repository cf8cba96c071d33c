import SqlRoutine.File.Disk

/-! # The journal

Every record goes to the console and to every log file that has been opened. A file that was opened
twice gets each record twice. -/

namespace SqlRoutine

/-- The disk, the records on the console, and the open log files by their absolute paths. -/
structure Journal where
  disk : Disk
  console : List Record := []
  files : List (List Text) := []

namespace Journal

/-- The disk with the record at the end of the log file. -/
def append (r : Record) (disk : Disk) (file : List Text) : Disk :=
  match disk.node? file with
  | some (.log records) => disk.put file (.log (records ++ [r]))
  | some (.file []) => disk.put file (.log [r])
  | _ => disk

/-- **Writes a record.** -/
def write (j : Journal) (r : Record) : Journal :=
  { j with console := j.console ++ [r], disk := j.files.foldl (append r) j.disk }

/-- Writes a message. -/
def log (j : Journal) (level : Level) (message : Text) : Journal := j.write ⟨level, message⟩

/-- Writes the notes that are of interest. -/
def writeShown (j : Journal) (interest : Level) (notes : List Note) : Journal :=
  (Note.shown interest notes).foldl write j

/-- **Opens a log file**, which is created if it is missing. -/
def openFile (j : Journal) (path : Text) : Except Fault Journal :=
  let place := Path.absolute j.disk.workingDirectory path
  match j.disk.writable (Path.render place) with
  | .error e => .error (.refused e (Path.render place))
  | .ok place =>
    let disk := if (j.disk.node? place).isSome then j.disk else j.disk.put place (.file [])
    .ok { j with disk, files := j.files ++ [place] }

end Journal

end SqlRoutine

import Std.Time
import SqlRoutine.Run

/-! # The program

Takes a picture of the files that a run may touch, lets the run change the picture, and brings the
changes to the file system. Log records get their time here. -/

namespace SqlRoutine.Main

/-- A local date and time. -/
abbrev Moment := Std.Time.PlainDateTime

/-- The number with zeros in front of it. -/
def padded (width n : Nat) : String :=
  String.ofList (List.replicate (width - (Text.ofNat n).length) '0' ++ Text.ofNat n)

/-- The date of the moment. -/
def dateOf (now : Moment) : Date := ⟨now.year.toNat, now.month.toNat, now.day.toNat⟩

/-- The moment as it is written in a log file. -/
def stamp (now : Moment) : String :=
  let day := padded 4 now.year.toNat ++ "-" ++ padded 2 now.month.toNat ++ "-" ++
    padded 2 now.day.toNat
  let time := padded 2 now.hour.toNat ++ ":" ++ padded 2 now.minute.toNat ++ ":" ++
    padded 2 now.second.toNat
  day ++ " " ++ time ++ "," ++ padded 3 (now.nanosecond.toNat / 1000000)

/-- The lines of a log file. -/
def lines (now : Moment) (records : List Record) : String :=
  String.join (records.map fun r => stamp now ++ String.ofList r.line)

/-- The name of the file at a place. -/
def fileName (place : List Text) : String := String.ofList (Path.render place)

/-- What is at a place. -/
def probe (place : List Text) : IO (Option Node) := do
  let path := (← IO.currentDir) / fileName place
  if ← path.isDir then return some .directory
  else if ← path.pathExists then return some (.file (← IO.FS.readBinFile path).toList)
  else return none

/-- The part of the disk that the paths lead to. -/
def picture (directory : List Text) (paths : List Text) : IO Disk := do
  let places := (paths.flatMap (Path.passed directory)).eraseDups
  let nodes ← places.filterMapM fun place => do
    return (← probe place).map fun node => (place, node)
  return ⟨directory, nodes⟩

/-- Writes a node to the disk. -/
def store (now : Moment) (place : List Text) : Node → IO Unit
  | .directory => IO.FS.createDirAll (fileName place)
  | .file bytes => IO.FS.writeBinFile (fileName place) ⟨bytes.toArray⟩
  | .log records => IO.FS.writeFile (fileName place) (lines now records)

/-- Brings the changes of a picture to the file system, directories from the top. -/
def storeChanges (now : Moment) (before after : Disk) : IO Unit := do
  for (place, _) in before.nodes do
    if (after.node? place).isNone then IO.FS.removeFile (fileName place)
  for (place, node) in after.nodes.mergeSort fun a b => a.1.length ≤ b.1.length do
    if before.node? place != some node then store now place node

/-- How the program is called. -/
def usage : String :=
  "usage: [-h] [-o OUTPUT] [--schema SCHEMA] [-m MAP] [--snake-case] [--skip-list SKIP_LIST]\n" ++
  "       [-v] [--config CONFIG] [--log-file LOG_FILE] [--log-level INFO|DEBUG] [--version]\n" ++
  "       [input_file]\n"

/-- Ends a run that cannot start. -/
def refuse : Fault → IO UInt32
  | .exit 0 => do
    IO.print usage
    return 0
  | .exit code => do
    IO.eprint usage
    return code.toUInt32
  | fault => do
    IO.eprintln (String.ofList fault.message)
    return 1

/-- Runs the program in a directory, and stores what has changed. -/
def runIn (directory : List Text) (arguments : List Text) (cl : CommandLine) : IO UInt32 := do
  let now ← Std.Time.PlainDateTime.now
  let settings ← picture directory (['.'] :: cl.config.text?.toList)
  let before ← picture directory (['.'] :: Run.paths settings cl)
  match Run.run arguments before (dateOf now) with
  | .error fault => refuse fault
  | .ok outcome =>
    IO.print (String.ofList outcome.stdout)
    IO.eprint (lines now outcome.console)
    storeChanges now before outcome.disk
    return outcome.exitCode.toUInt32

end SqlRoutine.Main

/-- The program. -/
def main (arguments : List String) : IO UInt32 := do
  let arguments := arguments.map String.toList
  let directory := SqlRoutine.Path.parts (← IO.currentDir).toString.toList
  match SqlRoutine.CommandLine.ofArguments arguments with
  | .error fault => SqlRoutine.Main.refuse fault
  | .ok cl => SqlRoutine.Main.runIn directory arguments cl

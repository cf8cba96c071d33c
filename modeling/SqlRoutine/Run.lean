import SqlRoutine.File.Conversion
import SqlRoutine.File.Journal
import SqlRoutine.NameMap.File
import SqlRoutine.Setting.Options
import SqlRoutine.Setting.Yaml

/-! # A run of the program

A run reads the command line and the configuration, opens the log file, loads the name map and
converts the input file. Everything but the time is in `Run.run`: it turns the arguments and a disk
into an exit code, the records on the console and the disk afterwards. -/

namespace SqlRoutine.Run

/-- The version of the program. -/
def version : Text := "0.3.0".toList

/-- The name that a run starts its log with. -/
def fullName : Text := "SQL Server stored procedure converter credativ-sp-converter".toList

/-- What a run leaves behind. -/
structure Outcome where
  exitCode : Nat
  stdout : Text
  console : List Record
  disk : Disk

/-- A run that has ended, with what it left behind. -/
def finished (exitCode : Nat) (j : Journal) : Outcome := ⟨exitCode, [], j.console, j.disk⟩

/-- A run that a fault has ended. -/
def failed (j : Journal) (fault : Fault) : Outcome :=
  finished 1 (j.log .error ("An error in the main: ".toList ++ fault.message))

/-- A setting of the command line in the log. -/
def shown : Given → Text
  | .nothing => "None".toList
  | .noValue => "[]".toList
  | .text t => t

/-- The messages about the command line. -/
def commandLineRecords (cl : CommandLine) : List Record :=
  [fullName, "Command line parameters:".toList,
    "input_file = ".toList ++ shown cl.inputFile, "output     = ".toList ++ shown cl.output,
    "config     = ".toList ++ shown cl.config, "log        = ".toList ++ shown cl.logFile].map
      (⟨.info, ·⟩)

/-! ### Files of a run -/

/-- The content of a configuration file. -/
def settings (disk : Disk) (file : Text) : Except Fault Value := do
  let t ← disk.readText file
  match Yaml.read? t with
  | some value => return value
  | none => throw (.unreadableSettings file)

/-- The configuration that the command line asks for. -/
def configuration (disk : Disk) (cl : CommandLine) : Except Fault Configuration :=
  match cl.config.text? with
  | none => Configuration.load cl [] .null
  | some file => do
    let content ← settings disk file
    Configuration.load cl file content

/-- Opens the log file anew: what it held is gone. -/
def startLog (j : Journal) : Value → Except Fault Journal
  | .text file =>
    match j.disk.find? file, j.disk.locate file with
    | some .directory, _ => .error (.refused .isDirectory file)
    | some _, .ok place => { j with disk := j.disk.erase place }.openFile file
    | _, _ => j.openFile file
  | .int _ => .error (.noPath (Value.int 0).kind)
  | other => .error (.noStatus other.kind)

/-- Why there is no name map. -/
inductive MapFailure where
  | unusable (fault : Fault)
  | unreadable (fault : Fault)

/-- Reads the map file, with messages before and after. -/
def readMap (j : Journal) (interest : Level) (file : Text) :
    Journal × Except MapFailure (Option NameMap) :=
  let j := j.writeShown interest [NameMap.loadingNote file]
  match j.disk.readText file with
  | .error (.refused e path) => (j, .error (.unreadable (.refused e path)))
  | .error fault => (j, .error (.unusable fault))
  | .ok t =>
    match NameMap.ofFile file t with
    | .error fault => (j, .error (.unusable fault))
    | .ok map => (j.writeShown interest [map.loadedNote], .ok (some map))

/-- **Loads the name map**, if one is configured. -/
def loadMap (j : Journal) (c : Configuration) : Journal × Except MapFailure (Option NameMap) :=
  if !c.mapFile.isPresent then (j, .ok none)
  else match c.mapFile with
    | .text file =>
      if j.disk.exists? file then readMap j c.level file
      else (j, .error (.unusable (.mapNotFound file)))
    | .int n => (j, .error (.unusable (.mapNotFound (Text.ofInt n))))
    | other => (j, .error (.unreadable (.noStatus other.kind)))

/-- The paths that a run may read or write, as far as the configuration file tells. -/
def paths (disk : Disk) (cl : CommandLine) : List Text :=
  let config := cl.config.text?.toList
  match configuration disk cl with
  | .error _ => config
  | .ok c =>
    let output := match c.outputFile with
      | .ok value => value
      | .error _ => .null
    config ++ [c.inputFile, output, c.mapFile, c.logFileValue].filterMap Value.text?

/-! ### The run -/

/-- Converts the input file. -/
def convertFile (j : Journal) (c : Configuration) (map : Option NameMap) (today : Date) : Outcome :=
  match c.converter map today with
  | .error fault => failed j fault
  | .ok converter =>
    let o := FileConversion.convert converter c j.disk none none
    let j := { j with disk := o.disk }.writeShown c.level o.notes
    if o.succeeded then finished 0 (j.log .info "Processing complete".toList)
    else finished 1 (j.log .warning "Processing error".toList)

/-- Goes on when there is a configuration. -/
def proceed (j : Journal) (cl : CommandLine) (c : Configuration) (today : Date) : Outcome :=
  let j := (commandLineRecords cl).foldl Journal.write j
  let (notes, fault) := c.report
  let j := j.writeShown c.level notes
  match fault with
  | some fault => failed j fault
  | none =>
    let j := if c.level = .debug then
      j.log .debug ("Parsed configuration: ".toList ++ (Value.mapping c.entries).literal) else j
    match loadMap j c with
    | (j, .ok map) => convertFile j c map today
    | (j, .error (.unreadable fault)) => failed j fault
    | (j, .error (.unusable fault)) =>
      finished 1 (j.log .error ("Unable to load the name map: ".toList ++ fault.message))

/-- Reads the configuration and goes on. -/
def start (disk : Disk) (cl : CommandLine) (today : Date) : Outcome :=
  let j : Journal := { disk }
  let j := match cl.config.text? with
    | some file => j.writeShown .info [Configuration.loadingNote file]
    | none => j
  match configuration disk cl with
  | .error fault => failed j fault
  | .ok c =>
    match startLog j c.logFileValue with
    | .error fault => failed j fault
    | .ok j => proceed j cl c today

/-- **A run of the program** with the given arguments; a refused command line is a fault. -/
def run (arguments : List Text) (disk : Disk) (today : Date) : Except Fault Outcome := do
  let cl ← CommandLine.ofArguments arguments
  if cl.version then
    return ⟨0, "Version: ".toList ++ version ++ ['\n'], [], disk⟩
  else return start disk cl today

end SqlRoutine.Run

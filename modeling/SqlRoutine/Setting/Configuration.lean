import SqlRoutine.File.Path
import SqlRoutine.Script.Convert
import SqlRoutine.Setting.Integer
import SqlRoutine.Text.Keyed

/-! # The configuration

The entries of a configuration file and what the command line puts over them. `Configuration.check`
refuses what can never work; other faults show up where a setting is used. -/

namespace SqlRoutine

/-- What a command line gives for a setting. -/
inductive Given where
  | nothing
  /-- The setting is mentioned, but without any value. -/
  | noValue
  | text (t : Text)
  deriving DecidableEq, Repr

/-- What a command line asks for. -/
structure CommandLine where
  inputFile : Given := .nothing
  output : Given := .nothing
  schema : Given := .nothing
  map : Given := .nothing
  skipList : Given := .nothing
  logLevel : Given := .nothing
  logFile : Given := .nothing
  config : Given := .nothing
  snakeCase : Bool := false
  verbose : Bool := false
  version : Bool := false
  deriving DecidableEq, Repr

/-- A text that is not empty. -/
def given? (t : Option Text) : Option Text :=
  match t with
  | some (c :: cs) => some (c :: cs)
  | _ => none

/-- The text that is given, if it is not empty. -/
def Given.text? : Given → Option Text
  | .text t => given? (some t)
  | _ => none

/-- The settings by their keys, and the log file of the command line. -/
structure Configuration where
  entries : List (Text × Value)
  logFile : Option Text

namespace Configuration

/-- The entry of the key. -/
def get? (c : Configuration) (key : Text) : Option Value := c.entries.lookup key

/-- The entry of the key, if it is not null. -/
def nonNull? (c : Configuration) (key : Text) : Option Value :=
  match c.get? key with
  | some .null => none
  | value => value

/-- The entry of the key, if it counts as true. -/
def present? (c : Configuration) (key : Text) : Option Value := (c.get? key).filter Value.isPresent

/-- The entry of the key counts as true. -/
def isOn (c : Configuration) (key : Text) : Bool := (c.present? key).isSome

/-- **The command line wins over the file.** -/
def ofCommandLine (cl : CommandLine) (entries : List (Text × Value)) : Configuration :=
  let texts := [("input_file", cl.inputFile), ("output_file", cl.output), ("schema", cl.schema),
    ("map_file", cl.map), ("skip_list", cl.skipList), ("log_level", cl.logLevel)]
  let entries := texts.foldl (fun entries (key, value) =>
    match value.text? with
    | some t => Keyed.set key.toList (.text t) entries
    | none => entries) entries
  let entries := if cl.snakeCase then Keyed.set "snake_case".toList (.bool true) entries else entries
  let entries := if cl.verbose then Keyed.set "verbose".toList (.bool true) entries else entries
  ⟨entries, cl.logFile.text?⟩

/-! ### Single settings -/

/-- The file that is converted. -/
def inputFile (c : Configuration) : Value := (c.get? "input_file".toList).getD .null

/-- The end of an output file that is not named. -/
def outputSuffix : Text := "_postgres.sql".toList

/-- **The output file for an input file**: beside it, with another ending. -/
def defaultOutputFile (input : Text) : Text :=
  let (directory, file) := Path.split input
  let name := Path.withoutExtension file ++ outputSuffix
  if directory.isEmpty then name else Path.join directory name

/-- The file that is written. -/
def outputFile (c : Configuration) : Except Fault Value :=
  match c.present? "output_file".toList with
  | some value => .ok value
  | none =>
    match c.inputFile with
    | .text t => .ok (.text (defaultOutputFile t))
    | other => .error (.noPath other.kind)

/-- The file of the map. -/
def mapFile (c : Configuration) : Value := (c.get? "map_file".toList).getD .null

/-- The log file if none is set. -/
def defaultLogFile : Text := "./converter.log".toList

/-- The log file as it is set. -/
def logFileValue (c : Configuration) : Value :=
  match c.logFile with
  | some t => .text t
  | none => (c.get? "log_file".toList).getD (.text defaultLogFile)

/-- Every message is of interest. -/
def isVerbose (c : Configuration) : Bool := c.isOn "verbose".toList

/-- The name of the level of interest. -/
def levelName (c : Configuration) : Text :=
  ((c.get? "log_level".toList).getD (.text "INFO".toList)).display.upper

/-- **The level of interest**: everything, if the run is verbose. -/
def level (c : Configuration) : Level :=
  if c.isVerbose then .debug else (Level.ofName? c.levelName).getD .info

/-- The schema of the output. -/
def schema (c : Configuration) : Value :=
  (c.present? "schema".toList).getD (.text Profile.defaultSchema)

/-- Names are written in snake case. -/
def snakeCase (c : Configuration) : Bool := c.isOn "snake_case".toList

/-- The names in a list of routines to skip, without blank ones. -/
def skipNames : List Value → Except Fault (List Text)
  | [] => .ok []
  | item :: items =>
    if item.display.isBlank then skipNames items
    else match item with
      | .text t => (skipNames items).map (t.trim :: ·)
      | other => .error (.noOperation other.kind "strip".toList)

/-- **The routines to skip**: a list, or a text with commas. -/
def skipList (c : Configuration) : Except Fault (List Text) :=
  match c.present? "skip_list".toList with
  | none => .ok []
  | some (.text t) => skipNames ((t.splitOn ',').map .text)
  | some (.list items) => skipNames items
  | some (.mapping entries) => skipNames (entries.map fun e => .text e.1)
  | some other => .error (.noItems other.kind)

/-- The number under the key, or the default. -/
def integer (c : Configuration) (key : Text) (default : Int) : Int :=
  ((c.nonNull? key).bind Value.integer?).getD default

/-- The length from which on a character type becomes `text`. -/
def textLength (c : Configuration) : Int :=
  c.integer "varchar_to_text_length".toList Profile.standard.textLength

/-- The length from which on columns are renamed. -/
def columnLength (c : Configuration) : Int :=
  c.integer "minimum_column_name_length".toList Profile.standard.columnLength

/-- The items of a value that has some: those of a list, the keys of a mapping, the characters of a
text. -/
def itemsOf : Value → Except Fault (List Value)
  | .list items => .ok items
  | .mapping entries => .ok (entries.map fun e => .text e.1)
  | .text t => .ok (t.map fun c => .text [c])
  | other => .error (.noItems other.kind)

/-- The two items of a pair. -/
def pair? : Value → Option (Value × Value)
  | .list [source, target] => some (source, target)
  | _ => none

/-- The functions to rename, as they are set. -/
def configuredFunctionNames (c : Configuration) : Except Fault (List (Value × Value)) :=
  match c.nonNull? "function_name_rewrites".toList with
  | none => .ok []
  | some value => do
    let items ← itemsOf value
    items.mapM fun item =>
      match pair? item with
      | some pair => .ok pair
      | none => .error .badRename

/-- **The renames of functions**: those of the configuration before the built-in ones. -/
def functionNames (c : Configuration) : Except Fault (List (Value × Value)) :=
  c.configuredFunctionNames.map fun configured =>
    configured ++ Profile.builtInFunctionNames.map fun (source, target) =>
      (.text source, .text target)

/-- The indentation as it is set. -/
def indent (c : Configuration) : Value :=
  (c.get? "indent".toList).getD (.text Profile.defaultIndent)

/-! ### Checks -/

/-- Refuses a value under the key that is no number. -/
def checkInteger (c : Configuration) (key : Text) : Except Fault Unit :=
  match c.nonNull? key with
  | none => .ok ()
  | some value =>
    if value.integer?.isSome then .ok () else .error (.badInteger key value.display)

/-- **Refuses a configuration that cannot work**, with the first fault in a fixed order. -/
def check (c : Configuration) : Except Fault Unit := do
  if !c.inputFile.isPresent then throw .inputRequired
  if (Level.ofName? c.levelName).isNone then throw (.badLevel "log_level".toList c.levelName)
  c.checkInteger "varchar_to_text_length".toList
  c.checkInteger "minimum_column_name_length".toList
  discard c.configuredFunctionNames

/-- The entries of what a configuration file holds; an empty file has none. -/
def entriesOf (file : Text) : Value → Except Fault (List (Text × Value))
  | .null => .ok []
  | .mapping entries => .ok entries
  | _ => .error (.notSettings file)

/-- **The configuration of a command line** and of what its configuration file holds. -/
def load (cl : CommandLine) (file : Text) (content : Value) : Except Fault Configuration := do
  let entries ← entriesOf file content
  let c := ofCommandLine cl entries
  c.check
  return c

/-! ### Reports -/

/-- The message before a configuration is read. -/
def loadingNote (file : Text) : Note := .log .info ("Loading configuration from ".toList ++ file)

/-- **A message for the log** under the name of its level. -/
def message (levelName text : Text) : Except Fault Note :=
  match Level.ofName? levelName.upper with
  | some level => .ok (.log level text)
  | none => .error (.badLevel "message_level".toList levelName.upper)

/-- The records that list the settings, and the fault that ended the list, if any. -/
def report (c : Configuration) : List Note × Option Fault :=
  let info (label shown : Text) : Note := .log .info (label ++ shown)
  let head := [info "Options:".toList [],
    info "  Input file with stored procedures: ".toList c.inputFile.display]
  match c.outputFile with
  | .error fault => (head, some fault)
  | .ok output =>
    let head := head ++ [info "  Output file path:                  ".toList output.display,
      info "  Schema name:                       ".toList c.schema.display]
    let head := if c.mapFile.isPresent then
      head ++ [info "  Name map file:                     ".toList c.mapFile.display] else head
    let head := if c.snakeCase then
      head ++ [info "  Convert names to snake_case:      True".toList []] else head
    match c.skipList with
    | .error fault => (head, some fault)
    | .ok [] => (head, none)
    | .ok names =>
      (head ++ [info "  Procedures to skip:                ".toList (Text.join ", ".toList names)],
        none)

/-! ### The profile -/

/-- A rename of a function as texts; nothing stands for the empty text. -/
def functionName : Value × Value → Except Fault (Text × Text)
  | (.text source, .text target) => .ok (source, target)
  | (.text source, .null) => .ok (source, [])
  | (.text _, other) => .error (.noSource other.kind)
  | (other, _) => .error (.noSource other.kind)

/-- **The profile of a conversion.** -/
def profile (c : Configuration) : Except Fault Profile := do
  let functionNames ← (← c.functionNames).mapM functionName
  return {
    schema := c.schema.display
    snakeCase := c.snakeCase
    verbose := c.isVerbose
    level := c.level
    textLength := c.textLength
    columnLength := c.columnLength
    functionNames
    indent := c.indent
    skipped := c.skipList }

/-- **The renaming of a name map**, if there is one with tables; the schema has to be a text then. -/
def renames (c : Configuration) (p : Profile) (map : Option NameMap) :
    Except Fault (Option Renaming) :=
  match Renaming.ofProfile? p map, c.schema with
  | none, _ => .ok none
  | some r, .text _ => .ok (some r)
  | some _, other => .error (.noOperation other.kind "lower".toList)

/-- **The converter of a configuration.** -/
def converter (c : Configuration) (map : Option NameMap) (today : Date) :
    Except Fault Converter := do
  let profile ← c.profile
  let renames ← c.renames profile map
  return ⟨profile, renames, today⟩

end Configuration

end SqlRoutine

import SqlRoutine.Setting.Configuration

/-! # Command line options

A command line has options and at most one input file. A long option may be cut short as long as it
stays unambiguous, and may carry its value after `=`; short options may be joined, and the last of
them may carry its value. After `--` everything is taken literally. `CommandLine.ofArguments` reads
the arguments from left to right; asking for help ends it at once, unless the argument that asks
for it is refused. -/

namespace SqlRoutine

/-- The options. -/
inductive OptionKey where
  | help
  | output
  | schema
  | map
  | snakeCase
  | skipList
  | verbose
  | config
  | logFile
  | logLevel
  | version
  deriving DecidableEq, Repr

namespace OptionKey

/-- The spellings of the options. -/
def spellings : List (Text × OptionKey) :=
  [("-h", .help), ("--help", .help), ("-o", .output), ("--output", .output), ("--schema", .schema),
    ("-m", .map), ("--map", .map), ("--snake-case", .snakeCase), ("--skip-list", .skipList),
    ("-v", .verbose), ("--verbose", .verbose), ("--config", .config), ("--log-file", .logFile),
    ("--log-level", .logLevel), ("--version", .version)].map fun (t, key) => (String.toList t, key)

/-- The option needs a value. -/
def takesValue : OptionKey → Bool
  | help | snakeCase | verbose | version => false
  | _ => true

end OptionKey

/-- How an option carries a value in the same argument. -/
inductive Attached where
  | nothing
  | equals (value : Text)
  | joined (value : Text)
  deriving DecidableEq, Repr

/-- An argument by its form. -/
inductive Argument where
  /-- A known option; `short` ones can be joined. -/
  | option (key : OptionKey) (short : Bool) (attached : Attached)
  | unknown
  | value (t : Text)
  | divider
  deriving DecidableEq, Repr

namespace Argument

/-- The end of a run whose command line is not understood. -/
def refusal : Fault := .exit 2

/-- The argument is a negative number, which is no option. -/
def isNegativeNumber (t : Text) : Bool :=
  match t with
  | '-' :: digits =>
    let digits : Text := if Text.endsWith digits ['\n'] then digits.dropLast else digits
    match digits.dropWhile isDecimal with
    | [] => !digits.isEmpty
    | '.' :: decimals => !decimals.isEmpty && decimals.all isDecimal
    | _ => false
  | _ => false

/-- An option and what follows its first equals sign. -/
def splitEquals (t : Text) : Text × Attached :=
  match t.dropWhile (· != '=') with
  | [] => (t, .nothing)
  | _ :: attached => (t.takeWhile (· != '='), .equals attached)

/-- The options that an argument can stand for. -/
def readings (t : Text) : List Argument :=
  if t.startsWith ['-', '-'] then
    let (start, attached) := splitEquals t
    (OptionKey.spellings.filter fun s => s.1.startsWith start).map fun s =>
      .option s.2 false attached
  else
    (OptionKey.spellings.filter fun s => s.1 = t.take 2).map fun s =>
      .option s.2 true (.joined (t.drop 2))

/-- The spelling has one letter. -/
def isShort (spelling : Text) : Bool := spelling.length = 2

/-- **The form of an argument** before any `--`. -/
def classify (t : Text) : Except Fault Argument :=
  match t with
  | '-' :: _ :: _ =>
    let (name, attached) := splitEquals t
    match OptionKey.spellings.lookup t, OptionKey.spellings.lookup name with
    | some key, _ => .ok (.option key (isShort t) .nothing)
    | none, some key => .ok (.option key (isShort name) attached)
    | none, none =>
      match readings t with
      | [] => .ok (if isNegativeNumber t || t.any (· == ' ') then .value t else .unknown)
      | [reading] => .ok reading
      | _ => .error refusal
  | _ => .ok (.value t)

/-- **The forms of all arguments.** -/
def classifyAll : List Text → Except Fault (List Argument)
  | [] => .ok []
  | t :: ts =>
    if t = ['-', '-'] then .ok (.divider :: ts.map .value)
    else do
      let argument ← classify t
      let rest ← classifyAll ts
      return argument :: rest

end Argument

namespace CommandLine

/-- Takes an option without a value. -/
def setFlag (cl : CommandLine) : OptionKey → Except Fault CommandLine
  | .help => .error (.exit 0)
  | .snakeCase => .ok { cl with snakeCase := true }
  | .verbose => .ok { cl with verbose := true }
  | .version => .ok { cl with version := true }
  | _ => .ok cl

/-- The setting that a value gives. -/
def givenBy (value : Text) : Given := if value = ['-', '-'] then .noValue else .text value

/-- Takes an option with its value. -/
def setValue (cl : CommandLine) (value : Text) : OptionKey → Except Fault CommandLine
  | .output => .ok { cl with output := givenBy value }
  | .schema => .ok { cl with schema := givenBy value }
  | .map => .ok { cl with map := givenBy value }
  | .skipList => .ok { cl with skipList := givenBy value }
  | .config => .ok { cl with config := givenBy value }
  | .logFile => .ok { cl with logFile := givenBy value }
  | .logLevel =>
    if ["INFO".toList, "DEBUG".toList, "--".toList].contains value then
      .ok { cl with logLevel := givenBy value }
    else .error Argument.refusal
  | _ => .ok cl

/-- What an option argument asks for: flags, then perhaps an option with a value, which may stand in
the next argument. -/
structure Request where
  flags : List OptionKey
  valued : Option (OptionKey × Option Text)

/-- Reads the letters joined to a flag. **A letter that is no option is refused at once**; what
follows an option with a value is the value. -/
def joinedRequest (flags : List OptionKey) : Text → Except Fault Request
  | [] => .ok ⟨flags, none⟩
  | c :: rest =>
    match OptionKey.spellings.lookup ['-', c] with
    | none => .error Argument.refusal
    | some key =>
      if key.takesValue then .ok ⟨flags, some (key, if rest.isEmpty then none else some rest)⟩
      else joinedRequest (flags ++ [key]) rest

/-- What an option asks for. A long flag refuses a value; behind a short flag an equals sign only
joins further letters to it. -/
def request (key : OptionKey) (short : Bool) (attached : Attached) : Except Fault Request :=
  if key.takesValue then
    .ok ⟨[], some (key, match attached with
      | .nothing => none
      | .equals value | .joined value => some value)⟩
  else match attached with
    | .nothing => .ok ⟨[key], none⟩
    | .equals letters | .joined letters =>
      if short && !letters.isEmpty then joinedRequest [key] letters else .error Argument.refusal

/-- Takes flags, and an option with a value behind them. -/
def fulfil (cl : CommandLine) (flags : List OptionKey) (valued : Option (OptionKey × Text)) :
    Except Fault CommandLine := do
  let cl ← flags.foldlM setFlag cl
  match valued with
  | none => return cl
  | some (key, value) => cl.setValue value key

/-- Whether the input file has been found. A `--` right after it belongs to it. -/
inductive InputState where
  | missing
  | justFound
  | found
  deriving DecidableEq, Repr

/-- Where the reading of arguments stands. -/
structure Reading where
  line : CommandLine := {}
  input : InputState := .missing
  /-- Something could not be placed, which is refused at the end. -/
  extra : Bool := false
  /-- Flags and an option whose value is the next argument. -/
  awaiting : Option (List OptionKey × OptionKey) := none

namespace Reading

/-- Takes what an argument asks for, or waits for the value of its option. -/
def fulfil (r : Reading) (q : Request) : Except Fault Reading :=
  match q.valued with
  | some (key, none) => .ok { r with awaiting := some (q.flags, key) }
  | some (key, some t) =>
    (r.line.fulfil q.flags (some (key, t))).map fun line => { r with line, awaiting := none }
  | none => (r.line.fulfil q.flags none).map fun line => { r with line, awaiting := none }

/-- Takes the input file; another one is refused at the end. -/
def takeInput (r : Reading) (t : Text) : Reading :=
  if r.input = .missing then
    { r with line := { r.line with inputFile := .text t }, input := .justFound }
  else { r with input := .found, extra := true }

/-- An input file that was found stays so. -/
def settle (r : Reading) : Reading :=
  { r with input := if r.input = .justFound then .found else r.input }

/-- Reads one argument. -/
def step (r : Reading) (a : Argument) : Except Fault Reading :=
  match r.awaiting, a with
  | some (flags, key), .value t => r.fulfil ⟨flags, some (key, some t)⟩
  | some _, _ => .error Argument.refusal
  | none, .value t => .ok (r.takeInput t)
  | none, .unknown => .ok { r.settle with extra := true }
  | none, .divider => if r.input = .found then .error Argument.refusal else .ok r.settle
  | none, .option key short attached => do
    let q ← request key short attached
    r.settle.fulfil q

/-- The command line, if everything in it had a place. -/
def finish (r : Reading) : Except Fault CommandLine :=
  if r.extra || r.awaiting.isSome then .error Argument.refusal else .ok r.line

end Reading

/-- **The command line of a list of arguments.** -/
def ofArguments (arguments : List Text) : Except Fault CommandLine := do
  let arguments ← Argument.classifyAll arguments
  let reading ← arguments.foldlM Reading.step {}
  reading.finish

end CommandLine

end SqlRoutine

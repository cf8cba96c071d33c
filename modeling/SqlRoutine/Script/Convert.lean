import SqlRoutine.Body.Step
import SqlRoutine.LineSource
import SqlRoutine.Rename
import SqlRoutine.Routine.Header
import SqlRoutine.Script.Directive

/-! # The conversion of a script

A script is converted line by line. A line may be left out, start a routine, belong to the header of
the current routine or to its body. A routine is written when the next one starts, and at the end.

A converter takes one script after the other. **What a script leaves behind is cleared when the next
one starts** (`State.restart`), but for the counts and the columns that have been looked up. -/

namespace SqlRoutine

/-- What a conversion is made with. -/
structure Converter where
  profile : Profile
  renames : Option Renaming
  today : Date

namespace Script

/-- Where the conversion of a script stands. -/
structure State where
  definition : Definition := {}
  header : Header.State := {}
  body : Body.State := {}
  /-- The next line is left out if it is a batch separator. -/
  skipGo : Bool := false
  /-- The columns that have been looked up to rename them. -/
  columns : Renaming.ColumnCache := []
  output : Text := []
  written : Nat := 0
  skipped : Nat := 0
  notes : List Note := []

namespace State

/-- The state with more notes. -/
def note (s : State) (notes : List Note) : State := { s with notes := s.notes ++ notes }

/-- The state with one more message. -/
def log (s : State) (level : Level) (message : Text) : State := s.note [.log level message]

/-- The state without a routine. -/
def clear (s : State) : State := { s with definition := {} }

/-- The state at the start of the next script: the counts and the columns stay. -/
def restart (s : State) : State :=
  { columns := s.columns, written := s.written, skipped := s.skipped }

end State

/-- The state after a step, and the fault that ended it, if any. -/
structure Progress where
  state : State
  fault : Option Fault := none

/-! ### Writing a routine -/

/-- The warning about blocks that are still open. -/
def unbalancedNotes (s : State) : List Note :=
  if s.body.blocks.isEmpty then []
  else [.log .warning ("Unbalanced If/While blocks in ".toList ++ s.definition.sourceName ++
    ": ".toList ++ Text.ofNat s.body.blocks.length ++ " not closed".toList)]

/-- The body with new names, if there is a map. -/
def renamedBody (c : Converter) (cache : Renaming.ColumnCache) (body : List Text) :
    Renaming.Renamed :=
  match c.renames with
  | none => { result := .ok body, columns := cache }
  | some r => r.renameBody cache body

/-- The message that a routine is written. -/
def writingNotes (c : Converter) (d : Definition) : List Note :=
  if d.hasBody then
    [.log .info ("Writing ".toList ++ d.kind.description ++ ' ' ::
      d.targetName c.profile.snakeCase)]
  else []

/-- Writes the current routine, if it has a text. -/
def writeText (c : Converter) (s : State) : Progress :=
  let s := s.note (writingNotes c s.definition)
  match s.definition.render c.profile.snakeCase c.profile.indent with
  | .error fault => ⟨s, some fault⟩
  | .ok [] =>
    ⟨(s.log .debug ("Nothing to write for ".toList ++ s.definition.sourceName)).clear, none⟩
  | .ok text =>
    ⟨({ s with output := s.output ++ text, written := s.written + 1 }).clear, none⟩

/-- **Writes the current routine**, if there is one; a routine that is to be skipped is only
counted. -/
def finishRoutine (c : Converter) (s : State) : Progress :=
  if s.definition.name.isEmpty then ⟨s, none⟩
  else if s.definition.skip then
    let s := s.log .info ("Skipping ".toList ++ s.definition.sourceName)
    ⟨({ s with skipped := s.skipped + 1 }).clear, none⟩
  else
    let renamed := renamedBody c s.columns s.definition.body
    let s := { s with columns := renamed.columns }.note (unbalancedNotes s ++ renamed.notes)
    match renamed.result with
    | .error fault => ⟨s, some fault⟩
    | .ok body => writeText c { s with definition := { s.definition with body } }

/-! ### One line -/

/-- **Starts a routine**, after the one before it has been written. -/
def startRoutine (c : Converter) (s : State) (create : Create) : Progress :=
  match finishRoutine c s with
  | ⟨s, some fault⟩ => ⟨s, some fault⟩
  | ⟨s, none⟩ =>
    let qualified := qualifiedName create.rest
    let object := objectName qualified
    match c.profile.skips object with
    | .error fault => ⟨s, some fault⟩
    | .ok skip =>
      let s := { s with
        definition :=
          { name := c.profile.schema ++ '.' :: object, sourceName := object, kind := create.kind,
            skip }
        header := {}
        body := {} }
      ⟨s.log .debug ("Found ".toList ++ create.kind.lowerKeyword ++ ' ' :: qualified), none⟩

/-- What comes of one line of a script. -/
structure Outcome where
  progress : Progress
  /-- How many upcoming lines were taken as well. -/
  taken : Nat := 0

/-- A line of the current routine: of its header, or else of its body. -/
def routineLine (c : Converter) (s : State) (line : Text) (ahead : List Text) : Outcome :=
  let header := Header.step c.profile c.today s.header s.definition line ahead
  let s := { s with header := header.state, definition := header.definition }.note header.notes
  if header.consumed then ⟨⟨s, none⟩, header.taken⟩
  else
    let body := Body.step c.profile s.definition.name s.body line ahead
    let definition := { s.definition with
      body := Body.appendLines s.definition.body (Body.texts body.lines)
      localVariables := s.definition.localVariables ++ body.locals }
    ⟨⟨{ s with body := body.state, definition }.note body.notes, none⟩, body.taken⟩

/-- A batch separator after a line that was left out: it is left out with the blank line after it. -/
def skippedGo (s : State) (ahead : List Text) : Outcome :=
  let s := { s with skipGo := false }.note (Note.lookAhead 1 ahead)
  ⟨⟨s, none⟩, match ahead with
    | next :: _ => if next.isBlank then 1 else 0
    | [] => 0⟩

/-- **One line of a script.** -/
def step (c : Converter) (s : State) (line : Text) (ahead : List Text) : Outcome :=
  if s.skipGo && isGo line then skippedGo s ahead
  else
    let s := { s with skipGo := isBatchLine line }
    if s.skipGo || isLeftOut s.header.inBody line then ⟨⟨s, none⟩, 0⟩
    else match create? line with
      | some create => ⟨startRoutine c s create, 0⟩
      | none =>
        if s.definition.name.isEmpty then ⟨⟨s, none⟩, 0⟩ else routineLine c s line ahead

/-! ### All lines -/

/-- The lines of a source, and why it ends before its time, if it does. -/
structure Source where
  lines : List Text
  fault : Option Fault := none

/-- A state in which a line was asked for after the last one, cut off at that moment. `known` is the
number of notes before. -/
def cutOff (s : State) (known : Nat) : Option State :=
  let fresh := s.notes.drop known
  if fresh.contains .ranDry then
    some { s with notes := s.notes.take known ++ fresh.takeWhile (· != .ranDry) }
  else none

/-- The fault that a step runs into: its own, or that of an unreadable source. -/
def checked (ending : Option Fault) (before : State) (p : Progress) : Progress :=
  match ending with
  | none => p
  | some fault =>
    match cutOff p.state before.notes.length with
    | some s => ⟨s, some fault⟩
    | none => p

/-- Converts the lines; `skip` of them have been taken already. -/
def convertLines (c : Converter) (ending : Option Fault) (s : State) :
    (skip : Nat) → List Text → Progress
  | _, [] =>
    match ending with
    | some fault => ⟨s, some fault⟩
    | none => finishRoutine c s
  | skip + 1, _ :: lines => convertLines c ending s skip lines
  | 0, line :: lines =>
    let outcome := step c s line lines
    match checked ending s outcome.progress with
    | ⟨s, some fault⟩ => ⟨s, some fault⟩
    | ⟨s, none⟩ => convertLines c ending s outcome.taken lines

/-- **The conversion of a source** by a converter that former scripts have left in the state `s`. -/
def convert (c : Converter) (s : State) (source : Source) : Progress :=
  convertLines c source.fault s.restart 0 source.lines

/-- The physical lines of a text; each but the last ends in a line feed. -/
def physicalLines (t : Text) : List Text :=
  match t.splitOn '\n' |>.reverse with
  | [] :: rest => rest.reverse
  | pieces => pieces.reverse

/-- The source of a text that can be read to its end. -/
def Source.ofText (t : Text) : Source := ⟨(LineSource.ofLines (physicalLines t)).remaining, none⟩

/-- **The conversion of a text** by a converter in the state `s`. -/
def convertText (c : Converter) (s : State) (t : Text) : Progress := convert c s (Source.ofText t)

/-- The output, or the fault. -/
def Progress.result (p : Progress) : Except Fault Text :=
  match p.fault with
  | none => .ok p.state.output
  | some fault => .error fault

/-- **The conversion of several texts by one converter**: each starts where the one before it ended,
with a fault or not. -/
def convertTexts (c : Converter) (s : State) : List Text → List Progress
  | [] => []
  | t :: ts => convertText c s t :: convertTexts c (convertText c s t).state ts

end Script

end SqlRoutine

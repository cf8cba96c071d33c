import SqlRoutine.Expression.Basic
import SqlRoutine.Routine.Definition

/-! # The header of a routine

Before the body of a routine come a comment block, the argument list and, for a function, the type
that it returns. `Header.step` reads one line of the header into the definition; it may look at one
line ahead. The header is over at the first line that belongs to none of its parts.

Where the comment block and the argument list stand is a phase each, so that **a part that has ended
has also started**, and a date can only be awaited inside the comment block. -/

namespace SqlRoutine

/-- A calendar date. -/
structure Date where
  year : Nat
  month : Nat
  day : Nat
  deriving DecidableEq, Repr

namespace Date

/-- The number with two digits at least. -/
def twoDigits (n : Nat) : Text :=
  if n < 10 then '0' :: Text.ofNat n else Text.ofNat n

/-- The date with the month first. -/
def format (d : Date) : Text :=
  twoDigits d.month ++ '/' :: twoDigits d.day ++ '/' :: Text.ofNat d.year

end Date

namespace Header

/-- Where the comment block stands. `dated` tells that a date line has been stored and the line
about the conversion is still to follow it. -/
inductive CommentPhase where
  | awaited
  | inside (dated : Bool)
  | finished
  deriving DecidableEq, Repr

/-- Where the argument list stands. A `bare` list has no parentheses. -/
inductive ArgumentPhase where
  | awaited
  | inside (bare : Bool)
  | finished (bare : Bool)
  deriving DecidableEq, Repr

/-- Where the header stands. -/
structure State where
  comment : CommentPhase := .awaited
  arguments : ArgumentPhase := .awaited
  inBody : Bool := false
  deriving DecidableEq, Repr

/-- The outcome of one line. -/
structure Outcome where
  state : State
  definition : Definition
  consumed : Bool
  /-- How many upcoming lines were taken as well. -/
  taken : Nat := 0
  notes : List Note := []

/-! ### The comment block -/

/-- How wide a label with its colon is, including the blanks after it. -/
def labelWidth : Nat := 8

/-- One more line of the comment block. -/
def addComment (d : Definition) (line : Text) : Definition :=
  { d with commentBlock := d.commentBlock ++ [line] }

/-- The entry of the revision history about the conversion. -/
def conversionLine (today : Date) : Text :=
  "**".toList ++ List.replicate (labelWidth + 2) ' ' ++ today.format ++
    " - Ported to PostgreSQL".toList

/-- Ends a date entry with the line about the conversion, if there is one to end. -/
def closeDate (today : Date) (dated : Bool) (d : Definition) : Definition :=
  if dated then addComment d (conversionLine today) else d

/-- The sentences that are left out. -/
def boilerplate : List Text :=
  ["Return values: 0: success, otherwise, error code".toList,
    "Return values: 0 if no error; otherwise error code".toList]

/-- The line has a sentence that is left out. -/
def isBoilerplate (line : Text) : Bool :=
  boilerplate.any fun sentence => Text.contains sentence.lower line.lower

/-- What follows the stars and the blanks at the start of a comment line. -/
def stars? (line : Text) : Option Text :=
  (Text.char? '*' line).bind (Text.char? '*') |>.bind Text.blanks?

/-- The heading over the parameters, with nothing behind it. -/
def isParametersHeading (line : Text) : Bool :=
  match (stars? line).bind (Text.keyword? "Parameters:".toList) with
  | some rest => rest.isBlank
  | none => false

/-- An empty line of a comment block. -/
def isStars (line : Text) : Bool := line.trim == Definition.emptyLine

/-- Reads a labelled line: the label as it is written, and the value. -/
def label? (line : Text) : Option (Text × Text) := do
  let start ← stars? line
  let rest ← Text.anyKeyword? ["Desc".toList, "Auth".toList, "Date".toList] start
  let value ← Text.char? ':' rest
  return (start.take 4, value.trimStart.takeWhile (· != '\n'))

/-- The line with blanks instead of tabs. -/
def plainComment (line : Text) : Text :=
  match line with
  | '*' :: '*' :: '\t' :: c :: cs => "**  ".toList ++ Text.expandTabs (c :: cs)
  | _ => line.expandTabs

/-- The next line is an empty one of a comment block. -/
def starsAhead (ahead : List Text) : Bool :=
  match ahead with
  | next :: _ => isStars next
  | [] => false

/-- A line inside the comment block. -/
def commentLine (today : Date) (s : State) (dated : Bool) (d : Definition) (line : Text)
    (ahead : List Text) : Outcome :=
  let keep (dated : Bool) (d : Definition) (notes : List Note) : Outcome :=
    ⟨{ s with comment := .inside dated }, d, true, 0, notes⟩
  if isBoilerplate line then
    ⟨s, d, true, if starsAhead ahead then 1 else 0, Note.lookAhead 1 ahead⟩
  else
    let notes := if isParametersHeading line then Note.lookAhead 1 ahead else []
    if isParametersHeading line && starsAhead ahead then keep dated d notes
    else if isStars line then
      keep false (addComment (closeDate today dated d) Definition.emptyLine) notes
    else match label? line with
      | none => keep dated (addComment d (plainComment line)) notes
      | some (label, value) =>
        let text := "**  ".toList ++ Text.padRight labelWidth (label ++ [':']) ++ value.trim
        keep (dated || label.lower == "date".toList) (addComment d (Text.expandTabs text)) notes

/-! ### Arguments -/

/-- Reads a marker of an output argument and what may follow it up to the end: a comma, if any. -/
def outputMarker? (t : Text) : Option (Text × Text) := do
  let t ← Text.blanks? t
  let t ← ["output".toList, "out".toList].findSome? (Text.word? · t)
  match t.trimStart with
  | ',' :: rest => if Text.isBlank rest then some ([','], []) else none
  | rest => if rest.isEmpty then some ([], []) else none

/-- **An argument with an output marker** is an `INOUT` argument. -/
def markOutput (argument : Text) : Text :=
  match argument.find? fun _ t => outputMarker? t with
  | some (position, comma) => "INOUT ".toList ++ Text.trim (argument.take position) ++ comma
  | none => argument

/-- The first variable in the text. -/
def variableName? (t : Text) : Option Text :=
  (t.find? fun _ t => Text.atName? t).map (·.2)

/-- **Adds an argument line** to the definition: the argument, and the comment on it. -/
def addArgument (p : Profile) (d : Definition) (line : Text) : Noted Definition :=
  let (code, comment) := Code.splitComment line.trim
  if code.isEmpty then pure d
  else
    let note := Note.log .debug ("Argument without a recognizable name: ".toList ++ line.trim)
    let (name, notes) := match variableName? code with
      | some name => ('_' :: name, [])
      | none => (code, [note])
    let argument := markOutput (Expression.dataType p (Expression.literal p code))
    let remark := Text.trim (comment.drop 2)
    ⟨{ d with
        arguments := d.arguments ++ [argument.expandTabs.trim]
        argumentComments :=
          if remark.isEmpty then d.argumentComments else d.argumentComments ++ [(name, remark)] },
      notes⟩

/-! ### The type that a function returns -/

/-- The return type on the line. -/
def returns? (line : Text) : Option Text :=
  (Text.word? "RETURNS".toList line.trimStart).bind fun rest => Text.restOfLine? rest.trimStart

/-- The text without an `AS` at its end. -/
def withoutAs (t : Text) : Text :=
  t.replaceAll fun _ t => do
    let rest ← Text.blanks? t
    let rest ← Text.keyword? "AS".toList rest
    if rest.isBlank then some ([], []) else none

/-- **Sets the type that a function returns**, if the line has it: the definition, how many lines
were taken, and the notes. A type may stand on the next line. -/
def setReturnType? (p : Profile) (d : Definition) (line : Text) (ahead : List Text) :
    Option (Definition × Nat × List Note) :=
  if d.kind = .procedure || !d.returnType.isEmpty then none
  else (returns? line).map fun clause =>
    let type := Code.codeOf clause.trim
    let (type, taken, notes) :=
      if type.isEmpty then
        (Code.codeOf (ahead.headD []).trim, min 1 ahead.length, Note.lookAhead 1 ahead)
      else (type, 0, [])
    let type := Expression.dataType p (Expression.literal p (withoutAs type))
    ({ d with returnType := type.trim }, taken, notes)

/-! ### One line of the header -/

/-- The outcome of a line after the argument list: the type that a function returns, a blank line,
or the first line of the body. -/
def afterArguments (p : Profile) (s : State) (d : Definition) (line : Text) (ahead : List Text) :
    Outcome :=
  match setReturnType? p d line ahead with
  | some (d, taken, notes) => ⟨s, d, true, taken, notes⟩
  | none =>
    if line.isBlank then ⟨s, d, true, 0, []⟩ else ⟨{ s with inBody := true }, d, false, 0, []⟩

/-- A line inside the argument list. -/
def argumentLine (p : Profile) (s : State) (bare : Bool) (d : Definition) (line : Text)
    (ahead : List Text) : Outcome :=
  let trimmed := line.trim
  let closed : State := { s with arguments := .finished bare }
  if bare && !trimmed.isEmpty && !trimmed.startsWith ['@'] then
    afterArguments p closed d line ahead
  else match trimmed with
    | ')' :: rest =>
      let rest := Text.trim rest
      if rest.isEmpty then ⟨closed, d, true, 0, []⟩
      else match setReturnType? p d rest ahead with
        | some (d, taken, notes) => ⟨closed, d, true, taken, notes⟩
        | none => ⟨closed, d, true, 0, []⟩
    | _ =>
      match setReturnType? p d line ahead with
      | some (d, taken, notes) => ⟨closed, d, true, taken, notes⟩
      | none =>
        let added := addArgument p d line
        ⟨s, added.value, true, 0, added.notes⟩

/-- A line before the argument list. -/
def beforeArguments (p : Profile) (s : State) (d : Definition) (line : Text) (ahead : List Text) :
    Outcome :=
  match line.trim with
  | '(' :: ')' :: _ => ⟨{ s with arguments := .finished false }, d, true, 0, []⟩
  | '(' :: rest =>
    let added := addArgument p d rest
    ⟨{ s with arguments := .inside false }, added.value, true, 0, added.notes⟩
  | '@' :: _ =>
    let added := addArgument p d line
    ⟨{ s with arguments := .inside true }, added.value, true, 0, added.notes⟩
  | _ => afterArguments p s d line ahead

/-- A line outside the comment block. -/
def outsideComment (p : Profile) (s : State) (d : Definition) (line : Text) (ahead : List Text) :
    Outcome :=
  match s.arguments with
  | .awaited => beforeArguments p s d line ahead
  | .inside bare => argumentLine p s bare d line ahead
  | .finished _ => afterArguments p s d line ahead

/-- **One line of the header.** -/
def step (p : Profile) (today : Date) (s : State) (d : Definition) (line : Text)
    (ahead : List Text) : Outcome :=
  if s.inBody then ⟨s, d, false, 0, []⟩
  else match s.comment with
    | .inside dated =>
      if line.trimEnd.endsWith "*****/".toList then
        ⟨{ s with comment := .finished }, addComment (closeDate today dated d) line.expandTabs, true,
          0, []⟩
      else commentLine today s dated d line ahead
    | .awaited =>
      if s.arguments = .awaited && line.startsWith "/*****".toList then
        ⟨{ s with comment := .inside false }, addComment d line.expandTabs, true, 0, []⟩
      else outsideComment p s d line ahead
    | .finished => outsideComment p s d line ahead

end Header

end SqlRoutine

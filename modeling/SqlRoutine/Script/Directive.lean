import SqlRoutine.Routine.Definition

/-! # Lines between and around routines

A script has lines that only steer the tool it was written for: batch separators, session options,
grants. They are left out. Other lines start a routine. -/

namespace SqlRoutine.Script

/-- **A batch separator.** -/
def isGo (line : Text) : Bool :=
  match Text.keyword? "GO".toList line.trimStart with
  | some rest => rest.isBlank
  | none => false

/-- What follows the option of a `SET` statement. -/
def setOption? (option line : Text) : Option Text :=
  ((Text.keyword? "SET".toList line.trimStart).bind Text.blanks?).bind (Text.keyword? option)

/-- A `SET` statement that turns the option on or off. -/
def isBatchOption (option line : Text) : Bool :=
  (((setOption? option line).bind Text.blanks?).bind fun rest =>
    ["ON".toList, "OFF".toList].findSome? (Text.word? · rest)).isSome

/-- **A line that is left out together with the batch separator after it.** -/
def isBatchLine (line : Text) : Bool :=
  isBatchOption "ANSI_NULLS".toList line || isBatchOption "QUOTED_IDENTIFIER".toList line ||
    (Text.word? "GRANT".toList line.trimStart).isSome

/-- What follows an option that only concerns routines. -/
def routineOption? (t : Text) : Option Text :=
  Text.anyKeyword? ["NOCOUNT".toList, "XACT_ABORT".toList] t

/-- What is left after further options, each after a comma; `count` bounds their number. -/
def moreOptions (count : Nat) (t : Text) : Text :=
  match count with
  | 0 => t
  | count + 1 =>
    match (Text.char? ',' t.trimStart).bind fun rest => routineOption? rest.trimStart with
    | some rest => moreOptions count rest
    | none => t

/-- **A line that sets options for the routine.** -/
def isRoutineOption (line : Text) : Bool :=
  match ((Text.keyword? "SET".toList line.trimStart).bind Text.blanks?).bind routineOption? with
  | none => false
  | some rest =>
    match (Text.blanks? (moreOptions rest.length rest)).bind (Text.keyword? "ON".toList) with
    | some rest => Text.atStatementEnd rest
    | none => false

/-- The clause that binds a routine to its schema. -/
def isSchemaBinding (line : Text) : Bool :=
  (((Text.keyword? "WITH".toList line.trimStart).bind Text.blanks?).bind
    (Text.word? "SCHEMABINDING".toList)).isSome

/-- The comment that a tool writes over a routine. -/
def isObjectHeading (line : Text) : Bool := line.trim.startsWith "/****** Object:".toList

/-- The line has only an `AS`. -/
def isAs (line : Text) : Bool := line.trim.upper == "AS".toList

/-- **A line that is left out** by itself. -/
def isLeftOut (inBody : Bool) (line : Text) : Bool :=
  isGo line || isRoutineOption line || isSchemaBinding line || isObjectHeading line ||
    (isAs line && !inBody)

/-! ### Lines that start a routine -/

/-- A line that starts a routine: whether it is a function, and what follows the keywords. -/
structure Create where
  kind : RoutineKind
  rest : Text
  deriving DecidableEq, Repr

/-- The keyword for the kind of a routine, and what follows it. -/
def kind? (t : Text) : Option (Text × Text) :=
  ["PROCEDURE".toList, "PROC".toList, "FUNCTION".toList].findSome? fun keyword =>
    (Text.word? keyword t).map fun rest => (Text.readBefore rest t, rest)

/-- What follows `CREATE`, `ALTER` or `CREATE OR ALTER`. -/
def afterCreate (line : Text) : List Text :=
  let create := (Text.keyword? "CREATE".toList line).bind Text.blanks?
  let alter (t : Text) := (Text.keyword? "ALTER".toList t).bind Text.blanks?
  let createOrAlter :=
    ((create.bind (Text.keyword? "OR".toList)).bind Text.blanks?).bind alter
  create.toList ++ (alter line).toList ++ createOrAlter.toList

/-- **Reads a line that starts a routine.** A keyword that only looks like `FUNCTION` starts a
procedure. -/
def create? (line : Text) : Option Create :=
  (afterCreate line).findSome? fun t => (kind? t).bind fun (keyword, rest) =>
    (Text.restOfLine? rest.trimStart).map fun rest =>
      ⟨if keyword.upper == "FUNCTION".toList then .function else .procedure, rest.trim⟩

/-- Reads `[schema].[name]`: the name. -/
def bracketedName? (t : Text) : Option (Text × Text) := do
  let inner ← Text.char? '[' t
  if Text.startsWith inner [']'] then none
  let rest ← Text.char? ']' (inner.dropWhile (· != ']'))
  let rest ← Text.char? '.' rest
  let inner ← Text.char? '[' rest
  let name := inner.takeWhile (· != ']')
  if name.isEmpty then none
  let rest ← Text.char? ']' (inner.dropWhile (· != ']'))
  return (name, rest)

/-- **The name of a routine as the source writes it**: the first name in brackets with a schema, or
the text up to a blank or a parenthesis. -/
def qualifiedName (rest : Text) : Text :=
  match rest.find? fun _ t => bracketedName? t with
  | some (_, name) => name
  | none => rest.takeWhile fun c => !isBlank c && c != '('

/-- **The name of a routine without its schema.** -/
def objectName (qualified : Text) : Text :=
  (qualified.afterLast '.').dropAround fun c => c == '[' || c == ']'

end SqlRoutine.Script

import SqlRoutine.Body.Declare
import SqlRoutine.Name.SnakeCase

/-! # Single statements

A statement on one line: an assignment, a `Print`, a row count, an assignment by `SELECT`, a jump or a
call. `Statement.ofLine?` reads a line, `Statement.convert` writes the statement for PL/pgSQL. -/

namespace SqlRoutine.Body

/-- A statement of one line. -/
inductive Statement where
  | assign (indent target value comment : Text)
  | print (indent value comment : Text)
  | rowCount (indent target : Text)
  /-- `SELECT modifiers @target = value, … FROM …`; the clause is empty if the line has none. -/
  | select (indent modifiers : Text) (items : List (Text × Text)) (clause comment : Text)
  | gotoDone (indent : Text)
  | breakLoop (indent : Text)
  | continueLoop (line : Text)
  | call (indent target parameters comment : Text)
  deriving DecidableEq, Repr

/-! ### Reading -/

/-- Reads `Set @target = value`. -/
def assign? (line : Text) : Option Statement := do
  let rest ← Text.keyword? "Set".toList line.trimStart
  let rest ← Text.blanks? rest
  let (target, rest) ← Text.atName? rest
  let rest ← Text.char? '=' rest.trimStart
  let value ← Text.restOfLine? rest.trimStart
  let (value, comment) := Code.splitComment value
  return .assign line.indent target value comment

/-- Reads `Print value`. -/
def print? (line : Text) : Option Statement := do
  let rest ← Text.word? "Print".toList line.trimStart
  let value ← Text.restOfLine? rest.trimStart
  let (value, comment) := Code.splitComment value
  return .print line.indent value comment

/-- Reads `@target = @@rowcount`. -/
def rowCountTarget? (t : Text) : Option Text := do
  let (target, rest) ← Text.atName? t
  let rest ← Text.char? '=' rest.trimStart
  let _ ← Text.word? "@@rowcount".toList rest.trimStart
  return target

/-- The target of the last row count on the line. -/
def lastRowCountTarget? : Text → Option Text
  | [] => none
  | c :: cs =>
    if c = '\n' then none
    else match lastRowCountTarget? cs with
      | some target => some target
      | none => rowCountTarget? (c :: cs)

/-- Reads a `SELECT` that assigns a row count. -/
def rowCount? (line : Text) : Option Statement := do
  let rest ← Text.word? "SELECT".toList line.trimStart
  let target ← lastRowCountTarget? rest
  return .rowCount line.indent target

/-- Reads `DISTINCT` and the blanks after it. -/
def distinct? (t : Text) : Option Text := (Text.keyword? "DISTINCT".toList t).bind Text.blanks?

/-- Reads `TOP` with a number or something in parentheses, perhaps with `PERCENT`, and blanks. -/
def top? (t : Text) : Option Text := do
  let rest ← Text.keyword? "TOP".toList t
  let rest := rest.trimStart
  let rest ← match rest with
    | '(' :: inner => Text.char? ')' (inner.dropWhile (· != ')'))
    | _ => (DataType.digits? rest).map (·.2)
  let percent := (Text.blanks? rest).bind (Text.keyword? "PERCENT".toList) |>.bind Text.blanks?
  percent <|> Text.blanks? rest

/-- The text behind the modifiers of a `SELECT`. -/
def afterModifiers (t : Text) : Text :=
  let t := (distinct? t).getD t
  (top? t).getD t

/-- Reads the list of a `SELECT` that assigns variables, up to the end of the line. -/
def selectList? (t : Text) : Option Text := do
  let (_, rest) ← Text.atName? t
  let rest ← Text.char? '=' rest.trimStart
  let last ← Text.restOfLine? rest
  return Text.readBefore rest t ++ last

/-- Reads one item `@target = value`; a value of blanks alone stands for the last of them. -/
def item? (item : Text) : Option (Text × Text) := do
  let (target, rest) ← Text.atName? item.trimStart
  let rest ← Text.char? '=' rest.trimStart
  if rest.isBlank then rest.getLast?.map fun c => (target, [c])
  else some (target, rest.trim)

/-- A `SELECT` that seems to assign variables: its items have not been read yet. -/
structure SelectLine where
  indent : Text
  modifiers : Text
  items : List Text
  clause : Text
  comment : Text
  deriving DecidableEq, Repr

/-- Reads a `SELECT` whose list starts with an assignment. -/
def selectLine? (line : Text) : Option SelectLine := do
  let rest ← Text.keyword? "SELECT".toList line.trimStart
  let rest ← Text.blanks? rest
  let list ← selectList? (afterModifiers rest)
  let modifiers := Text.readBefore (afterModifiers rest) rest
  let (code, comment) := Code.splitComment list
  let position := (Code.topLevelWord? "FROM".toList code).getD code.length
  return ⟨line.indent, modifiers, Code.splitCommas (code.take position),
    Text.trim (code.drop position), comment⟩

/-- Reads an assignment by `SELECT`: every item has to be one. -/
def select? (line : Text) : Option Statement := do
  let s ← selectLine? line
  let items ← s.items.mapM item?
  return .select s.indent s.modifiers items s.clause s.comment

/-- The items before the first one that cannot be read. -/
def readableItems : List Text → List (Text × Text)
  | [] => []
  | t :: ts =>
    match item? t with
    | some item => item :: readableItems ts
    | none => []

/-- Reads `Goto Done`. -/
def gotoDone? (line : Text) : Option Statement := do
  let rest ← Text.keyword? "Goto".toList line.trimStart
  let rest ← Text.blanks? rest
  let rest ← Text.keyword? "Done".toList rest
  if Text.atStatementEnd rest then some (.gotoDone line.indent) else none

/-- Reads `Break`. -/
def breakLoop? (line : Text) : Option Statement := do
  let rest ← Text.keyword? "Break".toList line.trimStart
  if Text.atStatementEnd rest then some (.breakLoop line.indent) else none

/-- Reads `Continue`, which is kept as it is written. -/
def continueLoop? (line : Text) : Option Statement := do
  let rest ← Text.keyword? "Continue".toList line.trimStart
  if Text.atStatementEnd rest then some (.continueLoop line) else none

/-- Reads the variable that receives the result of a call, and its equals sign. -/
def afterResult (t : Text) : Text :=
  match (Text.atName? t).bind fun (_, rest) => Text.char? '=' rest.trimStart with
  | some rest => rest.trimStart
  | none => t

/-- A character of the name of a called routine. -/
def isTargetChar (c : Char) : Bool := !isBlank c && c != '(' && c != '@'

/-- Reads `Exec target parameters`, perhaps with a variable for the result. -/
def call? (line : Text) : Option Statement := do
  let rest ← Text.anyKeyword? ["Execute".toList, "Exec".toList] line.trimStart
  let rest ← Text.blanks? rest
  let rest := afterResult rest
  let target := rest.takeWhile isTargetChar
  if target.isEmpty then none
  let parameters ← Text.restOfLine? (Text.trimStart (rest.dropWhile isTargetChar))
  let (parameters, comment) := Code.splitComment parameters
  return .call line.indent target parameters comment

/-- **The statement of a line**, if it is one of the known forms. -/
def Statement.ofLine? (line : Text) : Option Statement :=
  assign? line <|> print? line <|> rowCount? line <|> select? line <|> gotoDone? line <|>
    breakLoop? line <|> continueLoop? line <|> call? line

/-! ### Parameters of a call -/

/-- Reads blanks and the marker of an output parameter. -/
def outputMarker? (t : Text) : Option Text := do
  let t ← Text.blanks? t
  ["output".toList, "out".toList].findSome? (Text.word? · t)

/-- Reads `@name =`, which becomes `@name =>` unless it is that already. -/
def namedParameter? (t : Text) : Option (Text × Text) := do
  let (name, rest) ← Text.atName? t
  let rest ← Text.char? '=' rest.trimStart
  if Text.startsWith rest ['>'] then none
  else some ('@' :: name ++ " => ".toList, rest.trimStart)

/-- The parameters without blanks and semicolons around them. -/
def bareParameters (t : Text) : Text := (t.trim.dropEndWhile (· == ';')).trim

/-- **The parameters of a call**: no output markers, and names before an arrow. -/
def convertParameters (p : Profile) (t : Text) : Noted Text :=
  let t := (bareParameters t).replaceAll fun _ t => (outputMarker? t).map ([], ·)
  let t := t.replaceAll fun _ t => namedParameter? t
  Expression.convert p t

/-- The routine that keeps its name in any case. -/
def executeSql : Text := "sp_executesql".toList

/-- **The name of a called routine**, without brackets; in snake case if the profile asks for it. -/
def callTarget (p : Profile) (target : Text) : Text :=
  let target := target.remove fun c => c == '[' || c == ']'
  if p.snakeCase && target.lower != executeSql then
    target.uptoLast '.' ++ Name.snakeCase (target.afterLast '.')
  else target

/-! ### Writing -/

/-- The next line starts with `FROM`. -/
def fromAhead (ahead : List Text) : Bool :=
  match ahead with
  | next :: _ => next.trim.upper.startsWith "FROM".toList
  | [] => false

/-- The items of a `SELECT` whose target is kept, with converted values. -/
def convertItems (p : Profile) : List (Text × Text) → Noted (List (Text × Text))
  | [] => pure []
  | (target, value) :: items =>
    if isErrorVariable target then convertItems p items
    else do
      let value ← Expression.convert p value
      let items ← convertItems p items
      return ('_' :: target, value) :: items

/-- The notes on a line that is no statement: of a `SELECT` that seemed to assign variables, the items
before the one that cannot be read have been converted in vain. -/
def abandonedNotes (p : Profile) (line : Text) : List Note :=
  match selectLine? line with
  | some s => (convertItems p (readableItems s.items)).notes
  | none => []

/-- The `SELECT … INTO …` for the targets and values of the items. -/
def selectInto (indent modifiers : Text) (items : List (Text × Text)) : Text :=
  indent ++ "SELECT ".toList ++ modifiers ++ Text.join ", ".toList (items.map (·.2)) ++
    " INTO ".toList ++ Text.join ", ".toList (items.map (·.1))

/-- **The conversion of an assignment by `SELECT`.** Without a table one target is assigned
directly. If no target is kept, only the comment is. -/
def convertSelect (p : Profile) (indent modifiers : Text) (items : List (Text × Text))
    (clause comment : Text) (ahead : List Text) : Noted Text := do
  match ← convertItems p items with
  | [] => return if comment.isEmpty then [] else indent ++ comment
  | kept@((target, value) :: others) =>
    Noted.tell (Note.lookAhead 1 ahead)
    if !clause.isEmpty then
      let clause ← Expression.convert p clause
      return Code.withComment (selectInto indent modifiers kept ++ ' ' :: clause) comment
    else if fromAhead ahead then
      return Code.withComment (selectInto indent modifiers kept) comment
    else if others.isEmpty && modifiers.isEmpty then
      return Code.withComment (indent ++ target ++ " := ".toList ++ value ++ [';']) comment
    else
      return Code.withComment (selectInto indent modifiers kept ++ [';']) comment

/-- **The conversion of a statement**, with the lines ahead of it; the empty text means that the
statement is dropped. -/
def Statement.convert (p : Profile) (ahead : List Text) : Statement → Noted Text
  | .assign indent target value comment =>
    let start := indent ++ '_' :: target ++ " :=".toList
    if value.isBlank then pure start
    else do
      let value ← Expression.convert p value.trim
      return Code.withComment (start ++ ' ' :: value ++ [';']) comment
  | .print indent value comment => do
    let value ← Expression.convert p value.trim
    return Code.withComment (indent ++ "RAISE INFO '%', ".toList ++ value ++ [';']) comment
  | .rowCount indent target =>
    pure (indent ++ "GET DIAGNOSTICS _".toList ++ target ++ " = ROW_COUNT;".toList)
  | .select indent modifiers items clause comment =>
    convertSelect p indent modifiers items clause comment ahead
  | .gotoDone indent => pure (indent ++ "Return;".toList)
  | .breakLoop indent => pure (indent ++ "Exit;".toList)
  | .continueLoop line => pure (Code.addTerminator line)
  | .call indent target parameters comment => do
    let parameters ← convertParameters p parameters
    return Code.withComment (indent ++ "Call ".toList ++ callTarget p target ++ " (".toList ++
      parameters ++ ");".toList) comment

end SqlRoutine.Body

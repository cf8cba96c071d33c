import SqlRoutine.Body.Line
import SqlRoutine.Expression.Basic

/-! # Declare lines

A `Declare` line lists variables with a type and perhaps a value. Each becomes a local variable, and
a value becomes an assignment in the body. **A line is converted as a whole or not at all**: one item
that cannot be read, or a table variable, leaves the line to the other rules. -/

namespace SqlRoutine.Body

/-- The variable for error codes, which has no use after the conversion. -/
def errorVariable : Text := "myError".toList

/-- The name of the variable for error codes, in any case. -/
def isErrorVariable (name : Text) : Bool := name.lower == errorVariable.lower

/-- A declared variable. -/
structure Variable where
  name : Text
  type : Text
  value : Option Text
  deriving DecidableEq, Repr

/-- The text without the longest ending of blanks and at most one semicolon among them, but with its
first character at least. -/
def dropStatementEnd (t : Text) : Text :=
  let core := t.trimEnd
  let core := match core.getLast? with
    | some ';' => Text.trimEnd core.dropLast
    | _ => core
  if core.isEmpty then t.take 1 else core

/-- The text without its trailing blanks, but with its first character at least. -/
def trimEndToOne (t : Text) : Text := if t.isBlank then t.take 1 else t.trimEnd

/-- The value after an equals sign; blanks alone stand for the last of them. -/
def value? (t : Text) : Option Text :=
  if t.isBlank then t.getLast?.map ([·]) else some (dropStatementEnd t.trimStart)

/-- Reads a type and, after an equals sign, a value. -/
def typeAndValue? (t : Text) : Option (Text × Option Text) :=
  let type := t.takeWhile (· != '=')
  if type.isEmpty then none
  else match t.dropWhile (· != '=') with
    | [] => some (dropStatementEnd type, none)
    | _ :: rest => (value? rest).map fun value => (trimEndToOne type, some value)

/-- The text after one or more blanks, and then the same with one blank left over, if there are
several. -/
def afterBlanks (t : Text) : List Text :=
  match t.indent with
  | [] => []
  | [_] => [t.trimStart]
  | blanks => [t.trimStart, blanks.getLast?.toList ++ t.trimStart]

/-- The places where the type of a variable can start: after `As`, or right after the name. -/
def typeStarts (t : Text) : List Text :=
  (afterBlanks t).flatMap fun start =>
    ((Text.keyword? "As".toList start).map afterBlanks).getD [] ++ [start]

/-- Reads one item `@name type = value`. -/
def declared? (item : Text) : Option Variable := do
  let (name, rest) ← Text.atName? item.trimStart
  let (type, value) ← (typeStarts rest).findSome? typeAndValue?
  return ⟨name, type, value⟩

/-- A `Declare` line: the indentation, the list of variables and the comment. -/
structure DeclareLine where
  indent : Text
  items : List Text
  comment : Text

/-- Reads a `Declare` line that starts with a variable. -/
def declareLine? (line : Text) : Option DeclareLine := do
  let rest ← Text.keyword? "Declare".toList line.trimStart
  let rest ← Text.blanks? rest
  let _ ← Text.char? '@' rest
  let list ← Text.restOfLine? rest
  let (code, comment) := Code.splitComment list
  return ⟨line.indent, (Code.splitCommas code).filter fun item => !item.isBlank, comment⟩

/-- A table variable, which is not converted. -/
def Variable.isTable (v : Variable) : Bool := (Text.word? "table".toList v.type).isSome

/-- What comes of reading the items of a `Declare` line one after the other. -/
inductive Items where
  | allVariables (list : List Variable)
  | unreadable
  | table
  deriving DecidableEq, Repr

/-- Reads all items, up to the first one that stops the conversion of the line. -/
def readItems : List Text → Items
  | [] => .allVariables []
  | item :: items =>
    match declared? item with
    | none => .unreadable
    | some v =>
      if v.isTable then .table
      else match readItems items with
        | .allVariables list => .allVariables (v :: list)
        | other => other

/-- What a `Declare` line adds to the definition. -/
structure Declared where
  locals : List Text
  lines : List Text
  deriving DecidableEq, Repr

/-- **The conversion of declared variables.** The comment goes with the first assignment. -/
def declareVariables (p : Profile) (indent comment : Text) : List Variable → Noted Declared
  | [] => pure ⟨[], []⟩
  | v :: vs =>
    if isErrorVariable v.name then declareVariables p indent comment vs
    else do
      let entry := '_' :: v.name ++ ' ' :: Expression.dataType p v.type.trim
      match v.value with
      | none =>
        let rest ← declareVariables p indent comment vs
        return ⟨entry :: rest.locals, rest.lines⟩
      | some value =>
        let value ← Expression.convert p value.trim
        let statement := indent ++ '_' :: v.name ++ " := ".toList ++ value ++ [';']
        let rest ← declareVariables p indent [] vs
        return ⟨entry :: rest.locals, Code.withComment statement comment :: rest.lines⟩

/-- **The conversion of a `Declare` line**, or `none` if the line is left to the other rules. -/
def declare? (p : Profile) (line : Text) : Noted (Option Declared) :=
  match declareLine? line with
  | none => pure none
  | some ⟨indent, items, comment⟩ =>
    match readItems items with
    | .unreadable => pure none
    | .table =>
      ⟨none, [.log .warning ("Table variable must be converted manually: ".toList ++ line.trim)]⟩
    | .allVariables list => do
      let declared ← declareVariables p indent comment list
      return some declared

end SqlRoutine.Body

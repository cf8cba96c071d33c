import SqlRoutine.Log
import SqlRoutine.Fault
import SqlRoutine.NameMap.Basic

/-! # Name map files

A name map is kept as tab-separated text. The first line that is not blank names the columns; each
further line is a row. A field that starts with a double quote runs to the closing one, and a doubled
quote inside it is a quote. Lines end in a line feed, a carriage return or both. -/

namespace SqlRoutine.NameMap

/-- A line of the file: its number, counted from one, and its fields. -/
structure Row where
  number : Nat
  fields : List Text
  deriving DecidableEq, Repr

/-- Where the reader stands within a line. -/
inductive FieldState where
  | start
  | plain
  | quoted
  | afterQuote
  deriving DecidableEq, Repr

/-- The reader: the rows so far, the fields and the field being read (last first), and how many lines
have been passed. -/
structure Reader where
  state : FieldState := .start
  field : Text := []
  fields : List Text := []
  rows : List Row := []
  passed : Nat := 0
  /-- The line being read consists of spaces so far. -/
  spaces : Bool := true
  returned : Bool := false
  deriving DecidableEq, Repr

namespace Reader

/-- A field ends. -/
def endField (r : Reader) : Reader :=
  { r with state := .start, field := [], fields := r.field.reverse :: r.fields }

/-- A line ends, and with it a row, unless the line has only spaces. -/
def endLine (r : Reader) : Reader :=
  let rows :=
    if r.spaces then r.rows
    else ⟨r.passed + 1, (r.field.reverse :: r.fields).reverse⟩ :: r.rows
  { rows, passed := r.passed + 1 }

/-- One more character of a field. -/
def push (r : Reader) (state : FieldState) (c : Char) : Reader :=
  { r with state, field := c :: r.field, spaces := r.spaces && c == ' ' }

/-- A character outside quotes. -/
def outside (r : Reader) (c : Char) : Reader :=
  if c = '\n' then r.endLine
  else if c = '\r' then { r.endLine with returned := true }
  else if c = '\t' then { r.endField with spaces := false }
  else if c = '"' && r.state = .start then { r with state := .quoted, spaces := false }
  else r.push .plain c

/-- Reads one character. -/
def step (r : Reader) (c : Char) : Reader :=
  if r.returned && c = '\n' then { r with returned := false }
  else
    let r := { r with returned := false }
    match r.state with
    | .start | .plain => r.outside c
    | .quoted => if c = '"' then { r with state := .afterQuote } else r.push .quoted c
    | .afterQuote => if c = '"' then r.push .quoted c else r.outside c

/-- The rows at the end of the file: a last line need not have an end, but it has to be outside
quotes. -/
def finish (r : Reader) : List Row :=
  if r.state = .quoted || (r.state = .start && r.field.isEmpty && r.fields.isEmpty) then
    r.rows.reverse
  else r.endLine.rows.reverse

/-- The fault of a field whose quotes are not closed. -/
def unclosed? (r : Reader) : Option Fault :=
  if r.state = .quoted then some (.unclosedField r.passed) else none

end Reader

/-- The text without a byte order mark. -/
def withoutMark : Text → Text
  | '\uFEFF' :: rest => rest
  | t => t

/-- Reads all characters. -/
def readAll (t : Text) : Reader := (withoutMark t).foldl Reader.step {}

/-- **All rows have the same number of fields**: short ones are filled up, and a row that is longer
than those before it is refused. `width` is the number of fields of the row before. -/
def fillRows (width : Nat) : List Row → Except Fault (List (List Text))
  | [] => .ok []
  | row :: rows => do
    let count := row.fields.length
    if count > width then throw (.tooManyFields width row.number count)
    let rest ← fillRows width rows
    return (row.fields ++ List.replicate (width - count) []) :: rest

/-- The columns that a file has to have. -/
def columnNames : List Text :=
  ["SourceTable".toList, "SourceName".toList, "Schema".toList, "NewTable".toList, "NewName".toList]

/-- The column names and the rows of a file. A first row that is longer than the header starts with
fields that have no column. -/
def tableOf : List Row → Except Fault (List Text × List (List Text))
  | [] => .error .noColumns
  | [header] => .ok (header.fields, [])
  | header :: first :: rest =>
    let columns := header.fields.length
    let width := max columns first.fields.length
    (fillRows width rest).map fun rest =>
      let first := first.fields ++ List.replicate (width - first.fields.length) []
      (header.fields, (first :: rest).map (·.drop (width - columns)))

/-- The column names and the rows of a file that must not end inside quotes. A row that is too long
is refused first. -/
def readTable (t : Text) : Except Fault (List Text × List (List Text)) :=
  let reader := readAll t
  match tableOf reader.finish, reader.unclosed? with
  | .error (.tooManyFields expected line seen), _ => .error (.tooManyFields expected line seen)
  | _, some fault => .error fault
  | table, none => table

/-- The field of a row in the named column, without blanks around it. -/
def field (header row : List Text) (column : Text) : Text :=
  ((header.zip row).lookup column).getD [] |>.trim

/-- The entry of a row. -/
def entryOf (header row : List Text) : NameEntry where
  sourceTable := field header row "SourceTable".toList
  sourceColumn := field header row "SourceName".toList
  schema := field header row "Schema".toList
  newTable := field header row "NewTable".toList
  newColumn := field header row "NewName".toList

/-- **The name map of a file.** -/
def ofFile (file t : Text) : Except Fault NameMap := do
  let (header, rows) ← readTable t
  let missing := columnNames.filter fun column => !header.contains column
  if missing.isEmpty then return ofEntries (rows.map (entryOf header))
  else throw (.missingColumns file missing)

/-- The message before a file is read. -/
def loadingNote (file : Text) : Note := .log .info ("Loading name map from ".toList ++ file)

/-- The message with the size of the map. -/
def loadedNote (m : NameMap) : Note :=
  .log .debug ("Name map: ".toList ++ Text.ofNat m.tables.length ++ " tables, ".toList ++
    Text.ofNat m.columnCount ++ " columns".toList)

end SqlRoutine.NameMap

import SqlRoutine.Body.Line
import SqlRoutine.Text.Replace

/-! # Updates that join their own table

In PostgreSQL the table of an `UPDATE` or `DELETE` must not stand in the `FROM` clause again. A body
remembers the table of the query it is in (`Pending`), and a warning is written after a line that
names it after `FROM`. -/

namespace SqlRoutine.Body

/-- The two kinds of query. -/
inductive Query where
  | update
  | delete
  deriving DecidableEq, Repr

/-- The keyword that starts the query. -/
def Query.keyword : Query → Text
  | .update => "UPDATE".toList
  | .delete => "DELETE".toList

/-- A query whose `FROM` clause has not been seen, and its table. -/
structure Pending where
  query : Query
  table : Text
  deriving DecidableEq, Repr

/-- **The name of a table** without brackets, final semicolons and the schema `dbo`. -/
def tableName (t : Text) : Text :=
  let name := (t.remove fun c => c == '[' || c == ']').dropEndWhile (· == ';')
  if name.lower.startsWith "dbo.".toList then name.drop 4 else name

/-- Reads the name of a table: up to a blank or a parenthesis. -/
def table? (t : Text) : Option Text :=
  match t.takeWhile fun c => !isBlank c && c != '(' with
  | [] => none
  | name => some name

/-- The table of an `UPDATE`, as it is written. -/
def updateTable? (line : Text) : Option Text := do
  let rest ← Text.keyword? "UPDATE".toList line.trimStart
  let rest ← Text.blanks? rest
  if (Text.word? "STATISTICS".toList rest).isSome then none
  table? rest

/-- The table of a `DELETE`, as it is written; the word `FROM` before it is passed over. -/
def deleteTable? (line : Text) : Option Text := do
  let rest ← Text.keyword? "DELETE".toList line.trimStart
  let rest ← Text.blanks? rest
  ((Text.keyword? "FROM".toList rest).bind Text.blanks? |>.bind table?) <|> table? rest

/-- The query that a line starts. -/
def query? (line : Text) : Option Pending :=
  match updateTable? line with
  | some table => some ⟨.update, tableName table⟩
  | none => (deleteTable? line).map fun table => ⟨.delete, tableName table⟩

/-- Reads `FROM` and a table, up to a blank, a parenthesis, a comma or a semicolon. -/
def fromTable? (t : Text) : Option (Text × Text) := do
  let rest ← Text.keyword? "FROM".toList t
  let rest ← Text.blanks? rest
  let isNameChar := fun c : Char => !isBlank c && c != '(' && c != ',' && c != ';'
  match rest.takeWhile isNameChar with
  | [] => none
  | name => some (name, rest.dropWhile isNameChar)

/-- The first table after `FROM` in the code of a line. -/
def firstFromTable? (line : Text) : Option Text :=
  ((Code.codeOf line).find? fun prev t => if Text.atWordStart prev then fromTable? t else none).map
    fun (_, name) => tableName name

/-- **The line names the table of the query** after `FROM`, in any case. -/
def Pending.isJoinedBy (pending : Pending) (line : Text) : Bool :=
  match firstFromTable? line with
  | some table => table.lower == pending.table.lower
  | none => false

/-- The stars above and below a warning. -/
def warningBorder : Text := List.replicate 80 '*'

/-- **The lines of the warning.** -/
def Pending.warning (pending : Pending) : List Text :=
  let query := pending.query.keyword
  let condition := " *   WHERE source.id = ".toList ++ pending.table ++ ".id;".toList
  ['/' :: warningBorder,
    " * This ".toList ++ query ++
      " query includes the target table name in the FROM clause".toList,
    " * The WHERE clause needs to have a self join to the target table, for example:".toList,
    " *   ".toList ++ query ++ ' ' :: pending.table] ++
  (match pending.query with
    | .update => [" *   SET ...".toList, " *   FROM source".toList, condition]
    | .delete =>
      [" *   FROM source".toList, condition, " *".toList,
        " * Delete queries must also use the USING keyword".toList,
        " * Alternatively, the more standard approach is to rearrange the query to be similar to".toList,
        " *   DELETE FROM ".toList ++ pending.table ++ " WHERE id IN (SELECT id FROM ...);".toList]) ++
  [' ' :: warningBorder ++ ['/'], "ToDo: fix this query".toList]

/-- The text of the log message about the query. -/
def Pending.note (pending : Pending) : Text :=
  pending.query.keyword ++ " query for ".toList ++ pending.table ++
    " has the target table in the FROM clause".toList

end SqlRoutine.Body

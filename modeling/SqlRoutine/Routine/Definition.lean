import SqlRoutine.Name.SnakeCase
import SqlRoutine.Profile

/-! # The definition of a routine

A stored procedure or function as it is collected from the source, and the statements that define it
for PostgreSQL (`Definition.lines`). The parts of a definition are lists in source order. -/

namespace SqlRoutine

/-- The kind of a routine. -/
inductive RoutineKind where
  | procedure
  | function
  deriving DecidableEq, Repr

namespace RoutineKind

/-- The keyword of the kind in a `CREATE` statement. -/
def keyword : RoutineKind → Text
  | .procedure => "PROCEDURE".toList
  | .function => "FUNCTION".toList

/-- The name of the kind in messages. -/
def description : RoutineKind → Text
  | .procedure => "stored procedure".toList
  | .function => "function".toList

/-- The keyword as comments write it. -/
def lowerKeyword : RoutineKind → Text
  | .procedure => "procedure".toList
  | .function => "function".toList

end RoutineKind

/-- A routine as it is collected from the source. -/
structure Definition where
  /-- The name with its schema; an empty name means that no routine has been started. -/
  name : Text := []
  /-- The name as the source writes it, without schema. -/
  sourceName : Text := []
  kind : RoutineKind := .procedure
  /-- The type that a function returns, or nothing if it was not found. -/
  returnType : Text := []
  skip : Bool := false
  arguments : List Text := []
  /-- Names of arguments and the comments on them. -/
  argumentComments : List (Text × Text) := []
  localVariables : List Text := []
  commentBlock : List Text := []
  body : List Text := []

namespace Definition

/-- The body is not blank. -/
def hasBody (d : Definition) : Bool := d.body.any fun line => !line.isBlank

/-! ### Names -/

/-- A name without the marker `udf` of functions, if a capital or an underscore follows it. -/
def withoutMarker : Text → Text
  | 'u' :: 'd' :: 'f' :: c :: cs =>
    if isCapital c || c == '_' then c :: cs else 'u' :: 'd' :: 'f' :: c :: cs
  | name => name

/-- **The name in PostgreSQL.** In snake case the object name loses brackets and quotes around it,
the marker `udf` and leading underscores. -/
def targetName (d : Definition) (snakeCase : Bool) : Text :=
  if snakeCase then
    let object := (d.name.afterLast '.').dropAround fun c => c == '[' || c == ']' || c == '"'
    d.name.uptoLast '.' ++ Name.snakeCase ((withoutMarker object).dropWhile (· == '_'))
  else d.name

/-! ### The comment block -/

/-- The lines that list the argument comments, the names padded to one column. -/
def argumentLines (comments : List (Text × Text)) : List Text :=
  let width := (comments.map fun c => c.1.length).foldl Nat.max 0
  "**  Arguments:".toList :: comments.map fun (name, comment) =>
    Text.trimEnd ("**    ".toList ++ name.padRight width ++ "  ".toList ++ comment)

/-- The lines that list the argument comments; without a comment there is no column to pad to. -/
def argumentLines? (d : Definition) : Except Fault (List Text) :=
  if d.argumentComments.isEmpty then .error .noArgumentComments
  else .ok (argumentLines d.argumentComments)

/-- The line of a comment block that names the author. -/
def isAuthorLine (line : Text) : Bool :=
  ((Text.char? '*' line).bind (Text.char? '*') |>.bind Text.blanks?
    |>.bind (Text.keyword? "Auth:".toList)).isSome

/-- An empty line of a comment block. -/
def emptyLine : Text := "**".toList

/-- The first line of a comment block. -/
def blockStart : Text := "/****************************************************".toList

/-- The last line of a comment block. -/
def blockEnd : Text := "*****************************************************/".toList

/-- **The comment block with the argument comments**: after the line with the author, else before
the closing line, else in a new block. -/
def fullCommentBlock (d : Definition) : List Text :=
  let block := d.commentBlock
  if d.argumentComments.isEmpty then block
  else
    let listed := argumentLines d.argumentComments
    match block.span fun line => !isAuthorLine line with
    | (before, author :: after) =>
      before ++ author :: emptyLine :: listed ++ emptyLine :: after
    | _ =>
      match block.getLast? with
      | some last =>
        if (Text.trimEnd last).endsWith ['*', '/'] then
          let inner := block.dropLast
          let start := match inner.getLast? with
            | some line => if Text.trim line == emptyLine then [] else [emptyLine]
            | none => [emptyLine]
          inner ++ start ++ listed ++ [emptyLine, last]
        else block ++ [blockStart, emptyLine] ++ listed ++ [emptyLine, blockEnd]
      | none => [blockStart, emptyLine] ++ listed ++ [emptyLine, blockEnd]

/-! ### Declarations and body -/

/-- The variable that takes a row count. -/
def rowCountVariable : Text := "_myRowCount".toList

/-- **A declaration.** The row count variable is an integer that starts at zero. -/
def declaration (item : Text) : Text :=
  let name := if item.firstWord.isEmpty then item else item.firstWord
  if name.lower == rowCountVariable.lower then name ++ " int := 0".toList else item

/-- The declarations of the local variables. -/
def declarations (d : Definition) : List Text := d.localVariables.map declaration

/-- The body without blank lines around it. -/
def bodyLines (d : Definition) : List Text :=
  ((d.body.dropWhile Text.isBlank).reverse.dropWhile Text.isBlank).reverse

/-! ### The statements -/

/-- The arguments, each on a line of its own; the indentation has to be a text. -/
def indentedArguments (indent : Value) (arguments : List Text) : Except Fault (List Text) :=
  match indent with
  | .text t => .ok (arguments.map (t ++ ·))
  | other => .error (.noIndent other.kind)

/-- The opening line with the arguments. -/
def argumentList (d : Definition) (indent : Value) (create : Text) : Except Fault (List Text) :=
  if d.arguments.isEmpty then .ok [create ++ "()".toList]
  else (indentedArguments indent d.arguments).map fun arguments =>
    create :: "(".toList :: arguments ++ [")".toList]

/-- The declaration section, if anything is declared. -/
def declarationLines (d : Definition) (indent : Value) : List Text :=
  if d.declarations.isEmpty then []
  else "DECLARE".toList :: d.declarations.map fun item => indent.display ++ item ++ [';']

/-- The return type, which a procedure does not have. -/
def returnsLines (d : Definition) : List Text :=
  match d.kind with
  | .procedure => []
  | .function =>
    ["RETURNS ".toList ++ (if d.returnType.isEmpty then "void".toList else d.returnType)]

/-- The text as the inside of a string literal. -/
def doubleQuotes (t : Text) : Text :=
  t.flatMap fun c => if c = '\x27' then ['\x27', '\x27'] else [c]

/-- **The statements that define the routine**; none if it has no name or no body. -/
def lines (d : Definition) (snakeCase : Bool) (indent : Value) : Except Fault (List Text) :=
  if d.name.isEmpty || !d.hasBody then .ok []
  else
    let object := d.kind.keyword ++ ' ' :: d.targetName snakeCase
    (d.argumentList indent ("CREATE OR REPLACE ".toList ++ object)).map fun head =>
      head ++ d.returnsLines ++ ["LANGUAGE plpgsql".toList, "AS $$".toList] ++ d.fullCommentBlock ++
        d.declarationLines indent ++ ["BEGIN".toList] ++ d.bodyLines ++
        ["END".toList, "$$;".toList, [],
          "COMMENT ON ".toList ++ object ++ " IS '".toList ++ doubleQuotes d.sourceName ++
            "';".toList]

/-- **The text that is written for the routine**: its lines and a blank line, or nothing. -/
def render (d : Definition) (snakeCase : Bool) (indent : Value) : Except Fault Text :=
  (d.lines snakeCase indent).map fun lines =>
    if lines.isEmpty then [] else Text.join ['\n'] lines ++ ['\n', '\n']

end Definition

end SqlRoutine

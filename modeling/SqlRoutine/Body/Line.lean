import SqlRoutine.Code.Terminator
import SqlRoutine.Text.Scan

/-! # Lines of a body

How a line joins a converted body (`appendLine`), which part a converted line has in the control flow
(`Role`), and what the first word of a source line says about it. -/

namespace SqlRoutine.Body

/-- A converted line as it is written: tabs as spaces, no trailing blanks, one terminator. -/
def tidy (line : Text) : Text := Code.collapseTerminators line.expandTabs

/-- **Adds a line to a body.** A blank line is written empty, and only after a line that is not
blank. -/
def appendLine (body : List Text) (line : Text) : List Text :=
  let line := tidy line
  if line.isBlank then
    match body.getLast? with
    | none => body
    | some last => if last.isBlank then body else body ++ [[]]
  else body ++ [line]

/-- The body with the lines appended one after the other. -/
def appendLines (body lines : List Text) : List Text := lines.foldl appendLine body

/-- The part of a converted line in the control flow. -/
inductive Role where
  | ifHead
  | ifEnd
  | loopHead
  | loopEnd
  | plain
  deriving DecidableEq, Repr

/-- **A converted line**, before it is tidied up, and its part in the control flow. -/
structure Converted where
  role : Role := .plain
  text : Text
  deriving DecidableEq, Repr

/-- The texts of converted lines. -/
def texts (lines : List Converted) : List Text := lines.map (·.text)

/-! ### First words -/

/-- The line starts with the word, in any case. -/
def startsWithWord (word line : Text) : Bool := (Text.word? word line.trimStart).isSome

/-- The line starts with the keyword and a blank or a parenthesis. -/
def startsWithCondition (keyword line : Text) : Bool :=
  match Text.keyword? keyword line.trimStart with
  | some (c :: _) => isBlank c || c == '('
  | _ => false

/-- **An `If` line.** -/
def isIf (line : Text) : Bool := startsWithCondition "If".toList line

/-- **A `While` line.** -/
def isWhile (line : Text) : Bool := startsWithCondition "While".toList line

/-- **An `Else` line.** -/
def isElse (line : Text) : Bool := startsWithWord "Else".toList line

/-- The line starts with `Else If`. -/
def isElseIf (line : Text) : Bool :=
  ((Text.keyword? "Else".toList line.trimStart).bind Text.blanks?
    |>.bind (Text.word? "If".toList)).isSome

/-- **A `Begin` line** that opens a block, not a transaction. -/
def isBegin (line : Text) : Bool :=
  match Text.word? "Begin".toList line.trimStart with
  | none => false
  | some rest => ((Text.blanks? rest).bind (Text.keyword? "Tran".toList)).isNone

/-- What follows the `End` that a line starts with. -/
def end? (line : Text) : Option Text :=
  (Text.word? "End".toList line.trimStart).bind Text.restOfLine?

end SqlRoutine.Body

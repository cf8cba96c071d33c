import SqlRoutine.Text.Replace

/-! # Quotes, parentheses and comments within a line

Three scanners read a line of code and disregard what stands in single quotes: `splitComment` cuts
off a trailing `--` comment, `splitCommas` cuts at the commas outside parentheses, and
`topLevelWord?` finds a word outside parentheses. A doubled quote inside a literal closes and opens
it again, which comes to the same. -/

namespace SqlRoutine.Code

/-- The single quote. -/
def quote : Char := '\x27'

/-! ### Inline comments -/

/-- The text before and from the first `--` outside quotes; `quoted` tells whether it starts inside
a literal. -/
def splitAtDashes (quoted : Bool) : Text → Text × Text
  | [] => ([], [])
  | c :: cs =>
    if c = quote then
      let (code, comment) := splitAtDashes (!quoted) cs
      (c :: code, comment)
    else if !quoted && Text.startsWith (c :: cs) ['-', '-'] then ([], c :: cs)
    else
      let (code, comment) := splitAtDashes quoted cs
      (c :: code, comment)

/-- **Code and inline comment** of a line. The comment keeps its dashes, and the code before it
loses its trailing blanks; a line without a comment is all code. -/
def splitComment (t : Text) : Text × Text :=
  match splitAtDashes false t with
  | (_, []) => (t, [])
  | (code, comment) => (code.trimEnd, comment)

/-- The code of a line, without its comment. -/
def codeOf (t : Text) : Text := (splitComment t).1

/-- The line is a comment and nothing else. -/
def isCommentOnly (t : Text) : Bool := t.trim.startsWith ['-', '-']

/-- The statement with the comment behind it, if there is one. -/
def withComment (statement comment : Text) : Text :=
  if comment.isEmpty then statement else statement ++ ' ' :: comment

/-! ### Commas -/

/-- Puts the character in front of the first piece. -/
def consFirst (c : Char) : List Text → List Text
  | [] => [[c]]
  | piece :: pieces => (c :: piece) :: pieces

/-- The pieces from a place that may be inside quotes and parentheses. -/
def splitCommasFrom (quoted : Bool) (depth : Int) : Text → List Text
  | [] => [[]]
  | c :: cs =>
    if c = quote then consFirst c (splitCommasFrom (!quoted) depth cs)
    else if quoted then consFirst c (splitCommasFrom quoted depth cs)
    else if c = '(' then consFirst c (splitCommasFrom quoted (depth + 1) cs)
    else if c = ')' then consFirst c (splitCommasFrom quoted (depth - 1) cs)
    else if depth = 0 && c = ',' then [] :: splitCommasFrom quoted depth cs
    else consFirst c (splitCommasFrom quoted depth cs)

/-- **The pieces between top-level commas**: those outside quotes and parentheses. There is always
at least one piece, and the pieces keep their blanks. -/
def splitCommas (t : Text) : List Text := splitCommasFrom false 0 t

/-! ### Words -/

/-- The position of the word in a text that starts at `position` after the character `prev`. -/
def topLevelWordFrom (word : Text) (quoted : Bool) (depth : Int) (prev : Option Char)
    (position : Nat) : Text → Option Nat
  | [] => none
  | c :: cs =>
    if c = quote then topLevelWordFrom word (!quoted) depth (some c) (position + 1) cs
    else if quoted then topLevelWordFrom word quoted depth (some c) (position + 1) cs
    else if c = '(' then topLevelWordFrom word quoted (depth + 1) (some c) (position + 1) cs
    else if c = ')' then topLevelWordFrom word quoted (depth - 1) (some c) (position + 1) cs
    else if depth = 0 && Text.atWordStart prev && (Text.word? word (c :: cs)).isSome then
      some position
    else topLevelWordFrom word quoted depth (some c) (position + 1) cs

/-- **The first top-level occurrence of a word**, in any case: its position outside quotes and
parentheses. -/
def topLevelWord? (word t : Text) : Option Nat := topLevelWordFrom word false 0 none 0 t

end SqlRoutine.Code

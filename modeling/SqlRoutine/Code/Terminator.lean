import SqlRoutine.Code.Quoting

/-! # Statement terminators

A converted statement ends in exactly one semicolon: `addTerminator` sets a missing one in front of
the comment, `collapseTerminators` joins several at the end of a line into one. -/

namespace SqlRoutine.Code

/-- A semicolon or a blank. -/
def isTerminatorOrBlank (c : Char) : Bool := c == ';' || isBlank c

/-- **Several semicolons at the end become one.** Of the blanks among them only those after the last
one are kept. -/
def collapseTerminators (t : Text) : Text :=
  let ending := (t.reverse.takeWhile isTerminatorOrBlank).reverse
  let run := ending.dropWhile (· != ';')
  if run.count ';' ≥ 2 then
    t.take (t.length - run.length) ++ ';' :: (run.reverse.takeWhile isBlank).reverse
  else t

/-- **A semicolon after the code**, before any comment, unless the code ends in one. A line without
code is kept. -/
def addTerminator (t : Text) : Text :=
  let (code, comment) := splitComment t
  if code.isBlank then t
  else withComment (if code.endsWith [';'] then code else code ++ [';']) comment

end SqlRoutine.Code

import SqlRoutine.Text.Table.Alphanumeric
import SqlRoutine.Text.Table.DecimalDigit

/-! # Classes of characters

The scanners of this library know three classes: **blanks** (white space), **word characters**
(letters, numbers and the underscore) and **decimal digits**. They are Unicode classes, so a
no-break space separates words and `é` is part of one. Below 128 each class is given by a formula,
from 128 on by a table of run lengths. -/

namespace SqlRoutine

/-- The number lies in one of the closed intervals. -/
def inIntervals (intervals : List (Nat × Nat)) (n : Nat) : Bool :=
  intervals.any fun i => i.1 ≤ n && n ≤ i.2

/-- The number lies in a class given by **run lengths**: from 0 on, runs outside the class and inside it
follow each other by turns. -/
def inRuns : (runs : List Nat) → (n : Nat) → Bool
  | outside :: inside :: runs, n =>
    if n < outside then false
    else n < outside + inside || inRuns runs (n - (outside + inside))
  | _, _ => false

/-- **Blanks**: the space, the controls from tab to carriage return, the four information
separators, next line, and the Unicode space and line separators. The zero-width space is none. -/
def isBlank (c : Char) : Bool :=
  inIntervals [(9, 13), (28, 32), (133, 133), (160, 160), (5760, 5760), (8192, 8202), (8232, 8233),
    (8239, 8239), (8287, 8287), (12288, 12288)] c.toNat

/-- Letters and numbers. -/
def isAlphanumeric (c : Char) : Bool :=
  if c.toNat < 128 then c.isAlphanum else inRuns Table.alphanumeric c.toNat

/-- **Word characters**: letters, numbers and the underscore. Combining marks are none. -/
def isWord (c : Char) : Bool := c == '_' || isAlphanumeric c

/-- The value of a decimal digit. -/
def decimalValue? (c : Char) : Option Nat :=
  if c.toNat < 128 then
    if c.isDigit then some (c.toNat - 48) else none
  else
    (Table.zeros.find? fun z => z ≤ c.toNat && c.toNat < z + 10).map (c.toNat - ·)

/-- **Decimal digits** of any script. -/
def isDecimal (c : Char) : Bool := (decimalValue? c).isSome

/-- A capital letter of ASCII. -/
def isCapital (c : Char) : Bool := 'A' ≤ c && c ≤ 'Z'

/-- A small letter of ASCII. -/
def isSmall (c : Char) : Bool := 'a' ≤ c && c ≤ 'z'

end SqlRoutine

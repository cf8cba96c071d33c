import SqlRoutine.DataType.Spelling

/-! # Data types

Types of SQL Server are spelled as types of PostgreSQL. Inside any text, long `varchar` types become
`text` (`longVarchar`) and the narrow integers become `int` (`narrowIntegers`). A type that stands
alone, as in `Convert(type, @x)`, is read as a type and spelled anew (`convert`); a text in which no
type can be read is kept as it is. -/

namespace SqlRoutine.DataType

/-! ### Types inside a text -/

/-- The number that the digits write. -/
def decimalNumber (digits : Text) : Nat :=
  digits.foldl (fun n c => 10 * n + (decimalValue? c).getD 0) 0

/-- Reads one or more decimal digits. -/
def digits? (t : Text) : Option (Text × Text) :=
  match t.takeWhile isDecimal with
  | [] => none
  | digits => some (digits, t.dropWhile isDecimal)

/-- The length of a character type: a number of characters, or `max`. -/
inductive Length where
  | max
  | characters (count : Nat)
  deriving DecidableEq, Repr

/-- Reads the length of a character type. -/
def length? (t : Text) : Option (Length × Text) :=
  match digits? t with
  | some (digits, rest) => some (.characters (decimalNumber digits), rest)
  | none => (Text.keyword? "max".toList t).map (.max, ·)

/-- Reads a `varchar` or `nvarchar` with its length in parentheses. -/
def varchar? (t : Text) : Option (Length × Text) := do
  let t ← Text.anyKeyword? ["nvarchar".toList, "varchar".toList] t
  let t ← Text.char? '(' t.trimStart
  let (length, t) ← length? t.trimStart
  let t ← Text.char? ')' t.trimStart
  return (length, t)

/-- The length is at least `minimum`; `max` always is. -/
def Length.atLeast (minimum : Int) : Length → Bool
  | .max => true
  | .characters n => decide ((n : Int) ≥ minimum)

/-- **Long `varchar` types become `text`**: those of length `max` or at least `minimum`. -/
def longVarchar (minimum : Int) (t : Text) : Text :=
  t.replaceAll fun prev t =>
    if Text.atWordStart prev then
      (varchar? t).map fun (length, rest) =>
        (if length.atLeast minimum then "text".toList else Text.readBefore rest t, rest)
    else none

/-- Reads the name of a narrow integer type. -/
def narrowInteger? (t : Text) : Option Text :=
  ["tinyint".toList, "smallint".toList].findSome? (Text.word? · t)

/-- **Narrow integers become `int`.** -/
def narrowIntegers (t : Text) : Text := t.replaceAll (Text.wordFinder narrowInteger? "int".toList)

/-! ### Types that stand alone -/

/-- **The spelling of a type for PostgreSQL** by the mapping; a text that starts with no type is kept,
with its case. -/
def convert (minimum : Int) (t : Text) (types : Mapping := spelling?) : Text :=
  let t := narrowIntegers (longVarchar minimum t.trim)
  (types t).getD t

end SqlRoutine.DataType

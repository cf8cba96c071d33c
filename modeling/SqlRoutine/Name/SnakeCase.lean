import SqlRoutine.Text.Replace

/-! # Names in snake case

An underscore goes in front of the last capital of an acronym when a small letter follows it, and
between a small letter or digit and a capital. Then the name is lower-cased. -/

namespace SqlRoutine.Name

/-- A run of two or more ASCII capitals before a small letter: the last capital starts a word. -/
def acronymEnd : Text.Finder Text := fun _ t =>
  match (t.takeWhile isCapital).getLast?, t.dropWhile isCapital with
  | some last, c :: rest =>
    if (t.takeWhile isCapital).length ≥ 2 && isSmall c then
      some ((t.takeWhile isCapital).dropLast ++ ['_', last, c], rest)
    else none
  | _, _ => none

/-- A small letter or a digit before a capital: the capital starts a word. -/
def wordStart : Text.Finder Text := fun _ t =>
  match t with
  | a :: b :: rest =>
    if (isSmall a || isDecimal a) && isCapital b then some ([a, '_', b], rest) else none
  | _ => none

/-- **The name in snake case.** -/
def snakeCase (name : Text) : Text :=
  (Text.replaceAll wordStart (Text.replaceAll acronymEnd name)).lower

end SqlRoutine.Name

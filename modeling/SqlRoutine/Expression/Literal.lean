import SqlRoutine.DataType
import SqlRoutine.Profile

/-! # Renamed functions and types

The first step for every line: a fixed list of calls and types gets new spellings, in order, and
then the functions of the profile. Later entries see the output of earlier ones. -/

namespace SqlRoutine.Expression

/-- Reads the opening of a call: the function name and a parenthesis. -/
def callOf? (function t : Text) : Option Text :=
  (Text.keyword? function t).bind fun rest => Text.char? '(' rest.trimStart

/-- Reads a call without arguments. -/
def emptyCallOf? (function t : Text) : Option Text :=
  (callOf? function t).bind fun rest => Text.char? ')' rest.trimStart

/-- Reads the name of a date and time type. -/
def dateTime? (t : Text) : Option Text :=
  ["smalldatetime".toList, "datetime".toList].findSome? (Text.word? · t)

/-- What is replaced, in this order. -/
def literalFinders : List (Text.Finder Text) :=
  [Text.wordFinder (callOf? "IsNull".toList) "Coalesce(".toList,
    Text.wordFinder dateTime? "timestamp".toList,
    Text.wordFinder (emptyCallOf? "GetDate".toList) "CURRENT_TIMESTAMP".toList,
    Text.wordFinder DataType.narrowInteger? "int".toList,
    Text.wordFinder (emptyCallOf? "SUSER_SNAME".toList) "SESSION_USER".toList]

/-- The text with another one before each character and at the end. -/
def intersperse (inserted : Text) : Text → Text
  | [] => inserted
  | c :: cs => inserted ++ c :: intersperse inserted cs

/-- **Every occurrence of a source text**, in any case, becomes the target. The empty source occurs
before every character and at the end. -/
def renameFunction (source target t : Text) : Text :=
  if source.isEmpty then intersperse target t
  else t.replaceAll fun _ t => (Text.keyword? source t).map (target, ·)

/-- **A line with functions and types renamed.** -/
def literal (p : Profile) (t : Text) : Text :=
  let t := literalFinders.foldl (fun t find => Text.replaceAll find t) t
  p.functionNames.foldl (fun t (source, target) => renameFunction source target t) t

end SqlRoutine.Expression

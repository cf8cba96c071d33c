import SqlRoutine.DataType.Spelling
import SqlRoutine.Fault
import SqlRoutine.Log

/-! # The profile of a conversion

The settings that shape a conversion, after the configuration has been read and checked. Two of them
can still be at fault, and are so only where they are used: the list of routines to skip, and the
indentation of the argument list. -/

namespace SqlRoutine

/-- What shapes a conversion. -/
structure Profile where
  schema : Text
  snakeCase : Bool
  verbose : Bool
  level : Level
  /-- A `varchar` of this length or more becomes `text`. -/
  textLength : Int
  /-- Columns with shorter names are not renamed. -/
  columnLength : Int
  /-- Source texts and what replaces them, in the order in which they are applied. -/
  functionNames : List (Text × Text)
  /-- The indentation of arguments and declarations. -/
  indent : Value
  skipped : Except Fault (List Text)
  /-- The spelling of types that stand alone. -/
  types : DataType.Mapping := DataType.spelling?

namespace Profile

/-- The functions that are renamed in any case. -/
def builtInFunctionNames : List (Text × Text) :=
  [("dbo.udfTimeStampTextImmutable(", "public.timestamp_text_immutable("),
    ("dbo.udfTimeStampText(", "public.timestamp_text("),
    ("dbo.udfCombinePaths(", "public.combine_paths("),
    ("dbo.udfGetFilename(", "public.get_filename("),
    ("dbo.udfParseDelimitedIntegerList(", "public.parse_delimited_integer_list("),
    ("dbo.udfParseDelimitedList(", "public.parse_delimited_list("),
    ("dbo.AppendToText(", "public.append_to_text(")].map fun (source, target) =>
      (source.toList, target.toList)

/-- The indentation if none is set. -/
def defaultIndent : Text := "    ".toList

/-- The schema if none is set. -/
def defaultSchema : Text := "public".toList

/-- The profile without any settings. -/
def standard : Profile where
  schema := defaultSchema
  snakeCase := false
  verbose := false
  level := .info
  textLength := 10
  columnLength := 4
  functionNames := builtInFunctionNames
  indent := .text defaultIndent
  skipped := .ok []

/-- The list has the name, in any case. -/
def lists (names : List Text) (name : Text) : Bool := (names.map Text.lower).contains name.lower

/-- **A routine is skipped** when the list names it. -/
def skips (p : Profile) (name : Text) : Except Fault Bool := p.skipped.map (lists · name)

end Profile

end SqlRoutine

import SqlRoutine.Expression.Call

/-! # Expressions

An expression is converted in a fixed order: variables get an underscore for their `@`, a plus sign
beside a quoted literal becomes `||`, the calls with arguments are renamed, and long `varchar` types
become `text`. -/

namespace SqlRoutine.Expression

/-- **Variables start with an underscore.** -/
def localNames (t : Text) : Text := t.replaceChar '@' '_'

/-- A quoted literal with a plus sign behind it. -/
def plusAfterQuoted : Text.Finder Text := fun _ t => do
  let inner ← Text.char? Code.quote t
  let rest ← Text.char? Code.quote (inner.dropWhile (· != Code.quote))
  let rest ← Text.char? '+' rest.trimStart
  return ((Text.readBefore rest t).dropLast ++ ['|', '|'], rest)

/-- A plus sign with a quoted literal behind it. -/
def plusBeforeQuoted : Text.Finder Text := fun _ t => do
  let rest ← Text.char? '+' t
  let inner ← Text.char? Code.quote rest.trimStart
  if inner.any (· == Code.quote) then some (['|', '|'], rest) else none

/-- **A plus sign beside quoted text becomes `||`.** -/
def concatenation (t : Text) : Text := (t.replaceAll plusAfterQuoted).replaceAll plusBeforeQuoted

/-- **The conversion of an expression.** -/
def convert (p : Profile) (t : Text) : Noted Text := do
  let t ← calls p (concatenation (localNames t))
  return DataType.longVarchar p.textLength t

/-- **The conversion of a type** with what surrounds it: variables, long `varchar` types and narrow
integers. -/
def dataType (p : Profile) (t : Text) : Text :=
  DataType.narrowIntegers (DataType.longVarchar p.textLength (localNames t))

end SqlRoutine.Expression

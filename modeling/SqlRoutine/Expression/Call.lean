import SqlRoutine.Code.Quoting
import SqlRoutine.Expression.Literal

/-! # Calls with arguments

`Len`, `CharIndex` and `Convert` are calls whose arguments matter. An argument is either a quoted
literal or a piece of text up to a separator. A call that does not have the expected form is left
alone, and an unconverted `Convert` is noted. -/

namespace SqlRoutine.Expression

/-- Reads a quoted literal; a doubled quote belongs to it. -/
def quotedLiteral? (t : Text) : Option (Text × Text) :=
  match Text.char? Code.quote t with
  | none => none
  | some inner => go [Code.quote] inner
where
  /-- Reads on inside the literal, of which `read` has been passed, last character first. -/
  go (read : Text) : Text → Option (Text × Text)
    | [] => none
    | [c] => if c = Code.quote then some ((c :: read).reverse, []) else none
    | c :: d :: rest =>
      if c = Code.quote then
        if d = Code.quote then go (d :: c :: read) rest
        else some ((c :: read).reverse, d :: rest)
      else go (c :: read) (d :: rest)

/-- A piece of text as an argument: without the blanks around it, or the last blank if there is
nothing else. -/
def argument? (piece : Text) : Option Text :=
  match piece.trim with
  | [] => piece.getLast?.map ([·])
  | argument => some argument

/-- Reads the character, with blanks before it. -/
def sign? (c : Char) (t : Text) : Option Text := Text.char? c t.trimStart

/-- The readings of a first argument and the comma after it: a literal, or a piece up to a comma. -/
def firstArguments (t : Text) : List (Text × Text) :=
  let literal := (quotedLiteral? t.trimStart).bind fun (argument, rest) =>
    (sign? ',' rest).map (argument, ·)
  let isStop := fun c : Char => c == ',' || c == ')'
  let piece := (Text.char? ',' (t.dropWhile (!isStop ·))).bind fun rest =>
    (argument? (t.takeWhile (!isStop ·))).map (·, rest)
  literal.toList ++ piece.toList

/-- The ways to read a last argument and the closing parenthesis. -/
def lastArguments (t : Text) : List (Text × Text) :=
  let literal := (quotedLiteral? t.trimStart).bind fun (argument, rest) =>
    (sign? ')' rest).map (argument, ·)
  let piece := (Text.char? ')' (t.dropWhile (· != ')'))).bind fun rest =>
    (argument? (t.takeWhile (· != ')'))).map (·, rest)
  literal.toList ++ piece.toList

/-- Reads `CharIndex(a, b)`: the first reading of both arguments. -/
def charIndex? (t : Text) : Option ((Text × Text) × Text) := do
  let t ← callOf? "CharIndex".toList t
  (firstArguments t).findSome? fun (find, rest) =>
    (lastArguments rest).head?.map fun (search, rest) => ((find, search), rest)

/-- Reads `Convert(type, _name)`: the type and the name. -/
def convert? (t : Text) : Option ((Text × Text) × Text) := do
  let t ← callOf? "Convert".toList t
  let type ← argument? (t.takeWhile (· != ','))
  let t ← Text.char? ',' (t.dropWhile (· != ','))
  let t := t.trimStart
  let t ← Text.char? '@' t <|> Text.char? '_' t
  let (name, t) ← Text.name? t
  let t ← sign? ')' t
  return ((type, name), t)

/-- Scans where a word may start. -/
def atWord {α : Type} (scan : Text → Option (α × Text)) : Text.Finder α := fun prev t =>
  if Text.atWordStart prev then scan t else none

/-- **`Len` becomes `char_length`.** -/
def renameLen (t : Text) : Text :=
  t.replaceAll (Text.wordFinder (callOf? "Len".toList) "char_length(".toList)

/-- **`CharIndex(a, b)` becomes `position(a in b)`.** -/
def renameCharIndex (t : Text) : Text :=
  t.replaceAll <| atWord fun t => (charIndex? t).map fun ((find, search), rest) =>
    ("position(".toList ++ find ++ " in ".toList ++ search ++ [')'], rest)

/-- **`Convert(type, _name)` becomes a cast.** -/
def renameConvert (p : Profile) (t : Text) : Text :=
  t.replaceAll <| atWord fun t => (convert? t).map fun ((type, name), rest) =>
    ('_' :: name ++ "::".toList ++ DataType.convert p.textLength type p.types, rest)

/-- A call of `Convert` stands in the text. -/
def hasConvert (t : Text) : Bool :=
  (t.find? (Text.wordFinder (callOf? "Convert".toList) [])).isSome

/-- **The three calls**, with a note if a `Convert` is left over. -/
def calls (p : Profile) (t : Text) : Noted Text :=
  let t := renameConvert p (renameCharIndex (renameLen t))
  ⟨t, if hasConvert t then
    [.log .debug ("Check this code (Convert not translated): ".toList ++ t.trim)] else []⟩

end SqlRoutine.Expression

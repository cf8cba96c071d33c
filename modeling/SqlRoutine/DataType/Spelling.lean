import SqlRoutine.DataType.Name
import SqlRoutine.DataType.Token

/-! # Spelling of a type

A type is read off the front of a token sequence: a type keyword, an optional parameter list, and
words that modify it. What follows is disregarded, so `int not null` is read as `int`. Reading fails
if the first token names no type or a parameter list is not closed. `spelling?` writes the type that
was read with its PostgreSQL name. -/

namespace SqlRoutine.DataType

/-! ### Writing -/

/-- A comment as it is written between marks. -/
def commentText (t : Text) : Text :=
  let mark : Text.Finder Text := fun _ t =>
    match t with
    | '*' :: '/' :: rest => some ("* /".toList, rest)
    | '/' :: '*' :: rest => some ("/ *".toList, rest)
    | _ => none
  let before := if t.head?.any (!isBlank ·) then " " else ""
  let after := if t.getLast?.any (!isBlank ·) then " " else ""
  "/*".toList ++ before.toList ++ t.replaceAll mark ++ after.toList ++ "*/".toList

/-- The text with the comments behind it. -/
def withComments (t : Text) (comments : List Text) : Text :=
  t ++ (comments.filter (!·.isEmpty)).flatMap fun comment => ' ' :: commentText comment

/-- The text in quotes, with the quotes in it doubled. -/
def between (quote : Char) (t : Text) : Text :=
  quote :: (t.flatMap fun c => if c = quote then [c, c] else [c]) ++ [quote]

/-- The texts in parentheses, with commas between them. -/
def inParentheses (texts : List Text) : Text := '(' :: Text.join ", ".toList texts ++ [')']

/-! ### Lists -/

/-- Reads items divided by commas. An item may be missing; the comments of a comma belong to the
item before it. -/
def items (item : List Token → Option Text × List Token) :
    (fuel : Nat) → List Token → List Text × List Token
  | 0, tokens => ([], tokens)
  | fuel + 1, tokens =>
    match item tokens with
    | (text, ⟨.sign [','], comments⟩ :: rest) =>
      let (texts, rest) := items item fuel rest
      ((text.map (withComments · comments)).toList ++ texts, rest)
    | (text, rest) => (text.toList, rest)

/-- Reads items up to a closing parenthesis. -/
def closedItems? (item : List Token → Option Text × List Token) (tokens : List Token) :
    Option (List Text × List Token) :=
  match items item (tokens.length + 1) tokens with
  | (texts, ⟨.sign [')'], _⟩ :: rest) => some (texts, rest)
  | _ => none

/-! ### Values -/

/-- One part of a name. -/
structure Part where
  text : Text
  quoted : Bool
  deriving DecidableEq, Repr

/-- The part of a name as it is written. -/
def Part.render (p : Part) : Text := if p.quoted then between '"' p.text else p.text

/-- A value in a parameter list. -/
inductive Value where
  | literal (text : Text)
  /-- A name, with the names that qualify it before it. -/
  | name (parts : List Part)
  | other (text : Text)
  deriving DecidableEq, Repr

/-- The value as it is written. -/
def Value.render : Value → Text
  | .literal t | .other t => t
  | .name parts => Text.join ['.'] (parts.map Part.render)

/-- A value as the parameter of a type: **a name is a word in capitals**, without quotes. -/
def Value.parameter : Value → Text
  | .name [part] => part.text.upper
  | v => v.render

/-- Reads a number or a string. -/
def literal? : List Token → Option (Text × List Token)
  | ⟨.number n, comments⟩ :: rest => some (withComments n comments, rest)
  | ⟨.sign ['.'], _⟩ :: ⟨.number n, comments⟩ :: rest =>
    some (withComments ('0' :: '.' :: n) comments, rest)
  | ⟨.string national t, comments⟩ :: rest =>
    some (withComments ((if national then ['N'] else []) ++ between '\x27' t) comments, rest)
  | ⟨.hexadecimal digits, comments⟩ :: rest =>
    some (withComments ('x' :: between '\x27' digits) comments, rest)
  | _ => none

/-- Reads the parts of a name that follow its first one. -/
def parts : List Token → List Part × List Token
  | ⟨.sign ['.'], _⟩ :: ⟨.word t, _⟩ :: rest =>
    let (further, rest) := parts rest
    (⟨t, false⟩ :: further, rest)
  | ⟨.sign ['.'], _⟩ :: ⟨.quoted t, _⟩ :: rest =>
    let (further, rest) := parts rest
    (⟨t, true⟩ :: further, rest)
  | rest => ([], rest)

/-- Reads the name of a variable behind its sign. -/
def variableName? : List Token → Option (Text × List Token)
  | ⟨.word t, _⟩ :: rest | ⟨.number t, _⟩ :: rest => some (t, rest)
  | ⟨.quoted t, _⟩ :: rest => some (between '"' t, rest)
  | _ => none

/-- Reads a value: a literal, a name, a variable, a call, or values in parentheses. -/
def value? : (fuel : Nat) → List Token → Option (Value × List Token)
  | 0, _ => none
  | fuel + 1, tokens =>
    let item := fun tokens =>
      match value? fuel tokens with
      | some (v, rest) => (some v.render, rest)
      | none => (none, tokens)
    match literal? tokens with
    | some (t, rest) => some (.literal t, rest)
    | none =>
      match tokens with
      | ⟨.sign ['*'], _⟩ :: rest => some (.other ['*'], rest)
      | ⟨.sign ['?'], _⟩ :: rest => some (.other ['?'], rest)
      | ⟨.sign ['@'], _⟩ :: rest =>
        (variableName? rest).map fun (t, rest) => (.other ('$' :: t), rest)
      | ⟨.sign ['('], _⟩ :: rest =>
        (closedItems? item rest).map fun (texts, rest) => (.other (inParentheses texts), rest)
      | ⟨.quoted t, _⟩ :: rest =>
        let (further, rest) := parts rest
        some (.name (⟨t, true⟩ :: further), rest)
      | ⟨.word t, _⟩ :: rest =>
        if ["NULL".toList, "TRUE".toList, "FALSE".toList].contains t.upper then
          some (.other t, rest)
        else if !isName t then none
        else match rest with
          | ⟨.sign ['('], _⟩ :: inner =>
            (closedItems? item inner).map fun (texts, rest) =>
              (.other (t.upper ++ inParentheses texts), rest)
          | _ =>
            match base? t, literal? rest with
            | some base, some (text, rest) =>
              let type := base.spelling
              some (.other ("CAST(".toList ++ text ++ " AS ".toList ++ type ++ [')']), rest)
            | _, _ =>
              let (further, rest) := parts rest
              some (.name (⟨t, false⟩ :: further), rest)
      | _ => none

/-- Reads a value as an item of a list. -/
def valueItem (tokens : List Token) : Option Text × List Token :=
  match value? (tokens.length + 1) tokens with
  | some (v, rest) => (some v.render, rest)
  | none => (none, tokens)

/-! ### Parameters -/

/-- A token that may qualify a parameter, as in `varchar(5 char)`: any but a single sign and a few
keywords. -/
def Lexeme.qualifies : Lexeme → Bool
  | .word t => ["SELECT".toList, "NOT".toList, "UNKNOWN".toList].all (· != t.upper)
  | .sign t => t.length > 1
  | _ => true

/-- The tokens behind the qualifier of a parameter. -/
def dropQualifier : List Token → List Token
  | ⟨.sign ['?'], _⟩ :: rest => rest
  | ⟨.sign ['@'], comments⟩ :: rest =>
    ((variableName? rest).map (·.2)).getD (⟨.sign ['@'], comments⟩ :: rest)
  | token :: rest => if token.lexeme.qualifies then rest else token :: rest
  | [] => []

/-- Reads a parameter of a type, with its qualifier. -/
def parameter (tokens : List Token) : Option Text × List Token :=
  match value? (tokens.length + 1) tokens with
  | some (v, rest) => (some v.parameter, dropQualifier rest)
  | none => (none, tokens)

/-! ### Modifying words -/

/-- Reads the words one after the other, in any case. -/
def words? : (words : List Text) → List Token → Option (List Token)
  | [], tokens => some tokens
  | _ :: _, [] => none
  | word :: words, token :: tokens =>
    if token.lexeme.text.upper = word then words? words tokens else none

/-- Reads the words that modify a type: its spelling and family then. -/
def Base.modified (base : Base) (tokens : List Token) : Text × Family × List Token :=
  let after := fun (phrase : List String) => words? (phrase.map String.toList) tokens
  if base.family = .clock || base.family = .instant then
    match after ["WITH", "TIME", "ZONE"], after ["WITH", "LOCAL", "TIME", "ZONE"],
      after ["WITHOUT", "TIME", "ZONE"] with
    | some rest, _, _ =>
      ((if base.family = .clock then "timetz" else "timestamptz").toList, .plain, rest)
    | _, some rest, _ => ("timestampltz".toList, .plain, rest)
    | _, _, some rest => (base.spelling, base.family, rest)
    | _, _, _ => (base.spelling, base.family, tokens)
  else if base.family = .interval then
    match tokens with
    | ⟨.word unit, _⟩ :: rest =>
      if isName unit && (base? unit).isNone then
        match rest with
        | ⟨.word joint, _⟩ :: ⟨.word last, _⟩ :: rest' =>
          if joint.upper = "TO".toList then
            (Text.join [' '] [base.spelling, unit, joint, last], .plain, rest')
          else (base.spelling ++ ' ' :: unit, .plain, rest)
        | _ => (base.spelling ++ ' ' :: unit, .plain, rest)
      else (base.spelling, .interval, tokens)
    | _ => (base.spelling, .interval, tokens)
  else
    match after ["UNSIGNED"], base.unsigned with
    | some rest, some unsigned => (unsigned, .plain, rest)
    | some rest, none => (base.spelling, base.family, rest)
    | none, _ => (base.spelling, base.family, tokens)

/-- **A type with its parameters** as it is written. -/
def Family.render (spelling : Text) (parameters : List Text) (family : Family) : Text :=
  match family, parameters with
  | .enumeration, _ => spelling ++ ' ' :: inParentheses parameters
  | _, [] => spelling
  | .floating, _ => "float".toList ++ inParentheses parameters
  | .interval, _ => spelling ++ ' ' :: Text.join ", ".toList parameters
  | .container, _ | .record, _ => spelling ++ '<' :: Text.join ", ".toList parameters ++ ['>']
  | .array, _ => Text.join ", ".toList parameters ++ "[]".toList
  | _, _ => spelling ++ inParentheses parameters

/-- Reads the words that make a type the type of a list or array. -/
def collected : (fuel : Nat) → (type : Text) → List Token → Text × List Token
  | fuel + 1, type, token :: rest =>
    if token.lexeme.isWord "LIST".toList then
      collected fuel ("list<".toList ++ type ++ ['>']) rest
    else if token.lexeme.isWord "ARRAY".toList && !rest.isEmpty then
      let (sizes, rest) := items valueItem (rest.length + 1) rest
      (type ++ '[' :: Text.join ", ".toList sizes ++ [']'], rest)
    else (type, token :: rest)
  | _, type, tokens => (type, tokens)

/-! ### Types -/

/-- Reads a field of a record: a type, or a name and a type. -/
def field (type? : List Token → Option (Text × List Token)) (tokens : List Token) :
    Option Text × List Token :=
  match tokens with
  | ⟨.word t, _⟩ :: rest | ⟨.quoted t, _⟩ :: rest =>
    match type? rest, type? tokens with
    | some (type, rest), _ => (some (t ++ ' ' :: type), rest)
    | none, some (type, rest) => (some type, rest)
    | none, none => (none, tokens)
  | _ => (none, tokens)

/-- Reads a value of an enumeration, which may be set equal to another one. -/
def equation (tokens : List Token) : Option Text × List Token :=
  match valueItem tokens with
  | (some left, ⟨.sign ['='], _⟩ :: rest) =>
    let (right, rest) := valueItem rest
    (some (left ++ " = ".toList ++ right.getD []), rest)
  | result => result

/-- Reads a named field of a `json` type; a value without a name is read and dropped. -/
def jsonField (type? : List Token → Option (Text × List Token)) (tokens : List Token) :
    Option Text × List Token :=
  match value? (tokens.length + 1) tokens with
  | none => (none, tokens)
  | some (.name [part], ⟨.sign ['='], _⟩ :: rest) =>
    match literal? rest with
    | some (text, rest) => (some (part.text ++ " = ".toList ++ text), rest)
    | none => (some (part.text ++ " = ".toList), rest)
  | some (.name ps, rest) =>
    match type? rest with
    | some (type, rest) => (some ((Value.name ps).render ++ ' ' :: type), rest)
    | none => (some (Value.name ps).render, rest)
  | some (_, rest) => (none, rest)

/-- Reads a type as an item of a list. -/
def typeItem (type? : List Token → Option (Text × List Token)) (tokens : List Token) :
    Option Text × List Token :=
  match type? tokens with
  | some (type, rest) => (some type, rest)
  | none => (none, tokens)

/-- Reads an item of the parameter list of a type. -/
def Family.item (type? : List Token → Option (Text × List Token)) :
    Family → List Token → Option Text × List Token
  | .json => jsonField type?
  | .enumeration => equation
  | .container | .array | .nullable => typeItem type?
  | .record => field type?
  | _ => parameter

/-- The parameters are types, which may stand in angle brackets. -/
def Family.isNested : Family → Bool
  | .container | .array | .nullable | .record => true
  | _ => false

/-- Reads the parameter list of a type, if there is one; `none` if it is not closed. -/
def parameters? (type? : List Token → Option (Text × List Token)) (family : Family) :
    List Token → Option (List Text × List Token)
  | ⟨.sign ['('], _⟩ :: inner => closedItems? (family.item type?) inner
  | ⟨.sign ['<'], comments⟩ :: inner =>
    if family.isNested then
      match items (family.item type?) (inner.length + 1) inner with
      | (texts, ⟨.sign ['>'], _⟩ :: rest) => some (texts, rest)
      | result => some result
    else some ([], ⟨.sign ['<'], comments⟩ :: inner)
  | tokens => some ([], tokens)

/-- **Reads a type** off the front of a token sequence. -/
def type? : (fuel : Nat) → List Token → Option (Text × List Token)
  | fuel + 1, ⟨.word w, _⟩ :: rest => do
    let base ← base? w
    let (parameters, rest) ← parameters? (type? fuel) base.family rest
    match base.family, parameters with
    | .nullable, [type] => return (type, rest)
    | .nullable, _ => none
    | _, _ =>
      let (spelling, family, rest) := base.modified rest
      return collected (rest.length + 1) (family.render spelling parameters) rest
  | _, _ => none

/-- **The spelling of the type at the front of a text**, in lower case. A semicolon ends the
text. -/
def spelling? (t : Text) : Option Text := do
  let tokens := (← tokens? t).takeWhile (·.lexeme != .sign [';'])
  let (type, _) ← type? (tokens.length + 1) tokens
  return type.lower

/-- How types are spelled anew: the spelling of the type at the front of a text, or none if no type can
be read there. -/
abbrev Mapping := Text → Option Text

end SqlRoutine.DataType

import SqlRoutine.Text.Basic
import SqlRoutine.Text.Table.Unprintable

/-! # Values of settings

A configuration file may hold any value under any key, and a setting is only judged where it is
used. `Value` is what such a file can hold. A value has two written forms: `display`, as a message
shows it, and `literal`, as it stands inside a list or a mapping, where texts are quoted. -/

namespace SqlRoutine

/-- A value of a configuration file. A decimal fraction is `mantissa / 10 ^ places`. -/
inductive Value where
  | null
  | bool (b : Bool)
  | int (n : Int)
  | fraction (mantissa : Int) (places : Nat)
  | text (t : Text)
  | list (items : List Value)
  | mapping (entries : List (Text × Value))
  deriving Inhabited

namespace Value

/-- The name of the type of a value in messages. -/
def kind : Value → Text
  | null => "NoneType".toList
  | bool _ => "bool".toList
  | int _ => "int".toList
  | fraction .. => "float".toList
  | text _ => "str".toList
  | list _ => "list".toList
  | mapping _ => "dict".toList

/-- **An empty value counts as absent**: null, false, zero, and the empty text, list and mapping. -/
def isPresent : Value → Bool
  | null => false
  | bool b => b
  | int n => n != 0
  | fraction m _ => m != 0
  | text t => !t.isEmpty
  | list items => !items.isEmpty
  | mapping entries => !entries.isEmpty

/-- The value as a text. -/
def text? : Value → Option Text
  | text t => some t
  | _ => none

/-! ### Written forms -/

/-- The number with so many hexadecimal digits at least. -/
def hexDigits (count n : Nat) : Text :=
  let digits := Nat.toDigits 16 n
  List.replicate (count - digits.length) '0' ++ digits

/-- A character inside quotes; what has no printed form becomes an escape. -/
def quoteChar (quote c : Char) : Text :=
  if c = quote || c = '\\' then ['\\', c]
  else if c = '\n' then ['\\', 'n']
  else if c = '\r' then ['\\', 'r']
  else if c = '\t' then ['\\', 't']
  else if inRuns Table.unprintable c.toNat then
    if c.toNat < 0x100 then '\\' :: 'x' :: hexDigits 2 c.toNat
    else if c.toNat < 0x10000 then '\\' :: 'u' :: hexDigits 4 c.toNat
    else '\\' :: 'U' :: hexDigits 8 c.toNat
  else [c]

/-- **A text in quotes**: single ones, or double ones if it has single and no double quotes. -/
def quoted (t : Text) : Text :=
  let quote := if t.any (· == '\x27') && !t.any (· == '"') then '"' else '\x27'
  quote :: t.flatMap (quoteChar quote) ++ [quote]

/-- The decimal places of a fraction without the zeros at the end, at least one. -/
def fractionDigits (places n : Nat) : Text :=
  let digits := Nat.toDigits 10 n
  let digits := List.replicate (places - digits.length) '0' ++ digits
  match Text.dropEndWhile (· == '0') digits with
  | [] => ['0']
  | digits => digits

/-- A decimal fraction. -/
def fractionText (mantissa : Int) (places : Nat) : Text :=
  let scale := Nat.pow 10 places
  let sign := if mantissa < 0 then ['-'] else []
  sign ++ Text.ofNat (mantissa.natAbs / scale) ++
    '.' :: fractionDigits places (mantissa.natAbs % scale)

mutual

/-- **The literal form** of a value: texts are quoted. -/
def literal : Value → Text
  | null => "None".toList
  | bool true => "True".toList
  | bool false => "False".toList
  | int n => Text.ofInt n
  | fraction m places => fractionText m places
  | text t => quoted t
  | list items => '[' :: literalItems items ++ [']']
  | mapping entries => '\x7b' :: literalEntries entries ++ ['\x7d']

/-- The items of a list. -/
def literalItems : List Value → Text
  | [] => []
  | [v] => literal v
  | v :: vs => literal v ++ ", ".toList ++ literalItems vs

/-- The entries of a mapping. -/
def literalEntries : List (Text × Value) → Text
  | [] => []
  | [(k, v)] => quoted k ++ ": ".toList ++ literal v
  | (k, v) :: es => quoted k ++ ": ".toList ++ literal v ++ ", ".toList ++ literalEntries es

end

/-- **The displayed form** of a value: a text stands for itself. -/
def display : Value → Text
  | text t => t
  | v => literal v

end Value

end SqlRoutine

import SqlRoutine.Setting.Value
import SqlRoutine.Text.Keyed

/-! # Configuration files

Settings are written in a small part of YAML: block mappings and lists, lists and mappings in
brackets, plain and quoted scalars of one line, and comments. A plain scalar is a null, a boolean, a
number or else a text. `Yaml.read?` gives nothing for a text outside this part. -/

namespace SqlRoutine.Yaml

/-! ### Scalars -/

/-- The value of a digit in any base up to 16. -/
def digit? (c : Char) : Option Nat :=
  if '0' ≤ c && c ≤ '9' then some (c.toNat - '0'.toNat)
  else if 'a' ≤ c && c ≤ 'f' then some (c.toNat - 'a'.toNat + 10)
  else if 'A' ≤ c && c ≤ 'F' then some (c.toNat - 'A'.toNat + 10)
  else none

/-- A number in a base; underscores are skipped, but there has to be a digit. -/
def natural? (base : Nat) (t : Text) : Option Nat :=
  let digits := t.filter (· != '_')
  if digits.isEmpty then none
  else digits.foldl (fun n c => do
    let d ← digit? c
    if d < base then return (← n) * base + d else none) (some 0)

/-- A number without its sign: binary, hexadecimal, octal after a zero, or decimal. -/
def magnitude? : Text → Option Nat
  | '0' :: 'b' :: digits => natural? 2 digits
  | '0' :: 'x' :: digits => natural? 16 digits
  | ['0'] => some 0
  | '0' :: digits => natural? 8 ('0' :: digits)
  | '_' :: _ => none
  | digits => natural? 10 digits

/-- A fraction without its sign, as its digits and the number of decimal places. -/
def fraction? (t : Text) : Option (Nat × Nat) :=
  match t.dropWhile (· != '.') with
  | '.' :: decimals =>
    let whole := t.takeWhile (· != '.')
    let digits := decimals.filter (· != '_')
    if whole.head? = some '_' || (whole.isEmpty && (decimals.isEmpty || decimals.head? = some '_'))
    then none
    else (natural? 10 (whole ++ digits)).map (·, digits.length)
  | _ => none

/-- A sign and what follows it. -/
def signed : Text → Int × Text
  | '-' :: t => (-1, t)
  | '+' :: t => (1, t)
  | t => (1, t)

/-- The word in small letters, in capitals, or with one capital. -/
def isSpelling (word : String) (t : Text) : Bool :=
  let lower := word.toList
  t == lower || t == Text.upper lower ||
    t == Text.upper (lower.take 1) ++ lower.drop 1

/-- **The value of a plain scalar.** -/
def plainValue (t : Text) : Value :=
  let (sign, digits) := signed t
  if t.isEmpty || t == ['~'] || isSpelling "null" t then .null
  else if ["yes", "true", "on"].any (isSpelling · t) then .bool true
  else if ["no", "false", "off"].any (isSpelling · t) then .bool false
  else match magnitude? digits, fraction? digits with
    | some n, _ => .int (sign * n)
    | none, some (n, places) => .fraction (sign * n) places
    | none, none => .text t

/-- The text up to the closing single quote. -/
def single? : Text → Option (Text × Text)
  | '\x27' :: '\x27' :: rest => (single? rest).map fun (t, rest) => ('\x27' :: t, rest)
  | '\x27' :: rest => some ([], rest)
  | c :: rest => (single? rest).map fun (t, rest) => (c :: t, rest)
  | [] => none

/-- The character of an escape. -/
def escape? (c : Char) : Option Char :=
  [('0', '\x00'), ('a', '\x07'), ('b', '\x08'), ('t', '\t'), ('\t', '\t'), ('n', '\n'),
    ('v', '\x0b'), ('f', '\x0c'), ('r', '\r'), ('e', '\x1b'), (' ', ' '), ('"', '"'), ('\\', '\\'),
    ('/', '/'), ('N', '\u0085'), ('_', '\u00a0'), ('L', '\u2028'), ('P', '\u2029')].lookup c

/-- The number of digits behind the letter of an escape. -/
def escapeLength? (c : Char) : Option Nat :=
  [('x', 2), ('u', 4), ('U', 8)].lookup c

/-- Reads the rest of a text in double quotes; `pending` are the digits of an escape that are still to
be read, and the number so far. -/
def double? : Option (Nat × Nat) → Text → Option (Text × Text)
  | some (left + 1, n), c :: rest => do
    let n := n * 16 + (← digit? c)
    if left = 0 then
      let (t, rest) ← double? none rest
      return (Char.ofNat n :: t, rest)
    else double? (some (left, n)) rest
  | _, '\\' :: c :: rest =>
    match escape? c, escapeLength? c with
    | some e, _ => (double? none rest).map fun (t, rest) => (e :: t, rest)
    | none, some count => double? (some (count, 0)) rest
    | none, none => none
  | _, '"' :: rest => some ([], rest)
  | _, c :: rest => (double? none rest).map fun (t, rest) => (c :: t, rest)
  | _, [] => none

/-- A quoted text. -/
def quoted? : Text → Option (Text × Text)
  | '\x27' :: rest => single? rest
  | '"' :: rest => double? none rest
  | _ => none

/-- A character that separates on a line. -/
def isSpace (c : Char) : Bool := c == ' ' || c == '\t'

/-- At the end of a word: nothing follows, or a blank. -/
def endsWord : Text → Bool
  | [] => true
  | c :: _ => isSpace c

/-- A character that ends a plain text inside brackets. -/
def isBracket (c : Char) : Bool := [',', '[', ']', '\x7b', '\x7d'].contains c

/-- The text starts with a plain scalar. -/
def startsPlain : Text → Bool
  | [] => false
  | c :: rest =>
    if ['-', '?', ':'].contains c then !endsWord rest
    else !([',', '[', ']', '\x7b', '\x7d', '#', '&', '*', '!', '|', '>', '\x27', '"', '%', '@',
      '\x60'].contains c)

/-- A plain scalar and what follows it. -/
def plainSpan (inBrackets : Bool) : Text → Text × Text
  | [] => ([], [])
  | c :: rest =>
    let ends :=
      (c == ':' && (endsWord rest || (inBrackets && (rest.head?.map isBracket).getD false)))
      || (inBrackets && isBracket c)
      || (isSpace c && (rest.head? == some '#'))
    if ends then ([], c :: rest)
    else
      let (t, rest) := plainSpan inBrackets rest
      (c :: t, rest)

/-- A scalar. -/
def scalar? (inBrackets : Bool) (t : Text) : Option (Value × Text) :=
  match quoted? t with
  | some (text, rest) => some (.text text, rest)
  | none =>
    if startsPlain t then
      let (plain, rest) := plainSpan inBrackets t
      some (plainValue (Text.trimEnd plain), rest)
    else none

/-! ### Brackets -/

mutual

/-- A scalar, or a collection in brackets. -/
def flow? (inBrackets : Bool) : (fuel : Nat) → Text → Option (Value × Text)
  | 0, _ => none
  | fuel + 1, t =>
    match t.dropWhile isSpace with
    | '[' :: rest => (flowItems? fuel rest).map fun (items, rest) => (.list items, rest)
    | '\x7b' :: rest =>
      (flowEntries? fuel [] rest).map fun (entries, rest) => (.mapping entries, rest)
    | t => scalar? inBrackets t

/-- The items of a list in brackets. -/
def flowItems? : (fuel : Nat) → Text → Option (List Value × Text)
  | 0, _ => none
  | fuel + 1, t =>
    match t.dropWhile isSpace with
    | ']' :: rest => some ([], rest)
    | t => do
      let (v, rest) ← flow? true fuel t
      match rest.dropWhile isSpace with
      | ',' :: rest =>
        let (vs, rest) ← flowItems? fuel rest
        return (v :: vs, rest)
      | ']' :: rest => return ([v], rest)
      | _ => none

/-- The entries of a mapping in brackets. -/
def flowEntries? : (fuel : Nat) → List (Text × Value) → Text → Option (List (Text × Value) × Text)
  | 0, _, _ => none
  | fuel + 1, entries, t =>
    match t.dropWhile isSpace with
    | '\x7d' :: rest => some (entries, rest)
    | t => do
      let (key, rest) ← scalar? true t
      let (v, rest) ← match rest.dropWhile isSpace with
        | ':' :: rest => flow? true fuel rest
        | rest => some (Value.null, rest)
      let entries := Keyed.set key.display v entries
      match rest.dropWhile isSpace with
      | ',' :: rest => flowEntries? fuel entries rest
      | '\x7d' :: rest => return (entries, rest)
      | _ => none

end

/-! ### Lines -/

/-- Blank, or only a comment. -/
def isComment (t : Text) : Bool :=
  match t.dropWhile isSpace with
  | [] | '#' :: _ => true
  | _ => false

/-- Nothing follows but a comment. -/
def endsLine (t : Text) : Bool := t.isEmpty || (endsWord t && isComment t)

/-- A value that takes the rest of a line. -/
def inline? (t : Text) : Option Value :=
  match flow? false (t.length + 1) t with
  | some (v, rest) => if endsLine rest then some v else none
  | none => none

/-- A line with its indentation. -/
structure Line where
  indent : Nat
  text : Text

/-- The lines with content, and their indentation. -/
def linesOf (t : Text) : List Line :=
  let lines := (Text.splitOn '\n' (Text.unifyLineEnds t)).filter (!isComment ·)
  lines.map fun line => ⟨(line.takeWhile (· == ' ')).length, line.dropWhile (· == ' ')⟩

/-- The line starts an item of a list. -/
def isItem : Text → Bool
  | '-' :: rest => endsWord rest
  | _ => false

/-- The key of an entry and what follows it. -/
def key? (t : Text) : Option (Text × Text) :=
  match scalar? false t with
  | none => none
  | some (key, rest) =>
    match rest.dropWhile isSpace with
    | ':' :: rest => if endsWord rest then some (key.display, rest) else none
    | _ => none

mutual

/-- A value that starts on a line of its own, indented by `least` at least, and the lines after it. -/
def block? (least : Nat) : (fuel : Nat) → List Line → Option (Value × List Line)
  | 0, _ => none
  | _, [] => some (.null, [])
  | fuel + 1, line :: lines =>
    if line.indent < least then some (.null, line :: lines)
    else if isItem line.text then
      (items? line.indent fuel (line :: lines)).map fun (items, lines) => (.list items, lines)
    else if (key? line.text).isSome then
      (entries? line.indent fuel [] (line :: lines)).map fun (entries, lines) =>
        (.mapping entries, lines)
    else (inline? line.text).map (·, lines)

/-- The items of a list with this indentation. -/
def items? (indent : Nat) : (fuel : Nat) → List Line → Option (List Value × List Line)
  | 0, _ => none
  | _, [] => some ([], [])
  | fuel + 1, line :: lines =>
    if line.indent = indent && isItem line.text then do
      let rest := line.text.drop 1
      let column := indent + 1 + (rest.takeWhile (· == ' ')).length
      let lines := if isComment rest then lines
        else ⟨column, rest.dropWhile isSpace⟩ :: lines
      let (v, lines) ← block? (indent + 1) fuel lines
      let (vs, lines) ← items? indent fuel lines
      return (v :: vs, lines)
    else some ([], line :: lines)

/-- The entries with an indentation, put over those before, and the lines after them. A list may
stand at the indentation of its key. -/
def entries? (indent : Nat) : (fuel : Nat) → List (Text × Value) → List Line →
    Option (List (Text × Value) × List Line)
  | 0, _, _ => none
  | _, entries, [] => some (entries, [])
  | fuel + 1, entries, line :: lines =>
    if line.indent = indent then do
      let (key, rest) ← key? line.text
      let (v, lines) ←
        if !isComment rest then (inline? rest).map (·, lines)
        else match lines with
          | next :: _ =>
            if next.indent = indent && isItem next.text then
              (items? indent fuel lines).map fun (items, lines) => (Value.list items, lines)
            else block? (indent + 1) fuel lines
          | [] => some (Value.null, [])
      entries? indent fuel (Keyed.set key v entries) lines
    else some (entries, line :: lines)

end

/-- The line is the mark. -/
def isMark (mark : String) (line : Line) : Bool :=
  line.indent = 0 && line.text.startsWith mark.toList && isComment (line.text.drop 3)

/-- The lines of the first document. -/
def documentLines (lines : List Line) : List Line :=
  match lines with
  | line :: rest => (if isMark "---" line then rest else line :: rest).takeWhile (!isMark "..." ·)
  | [] => []

/-- The text without a byte order mark. -/
def withoutMark : Text → Text
  | '\uFEFF' :: rest => rest
  | t => t

/-- **The value of a text**; an empty one is null. -/
def read? (t : Text) : Option Value :=
  let lines := documentLines (linesOf (withoutMark t))
  match block? 0 (2 * t.length + 2) lines with
  | some (v, []) => some v
  | _ => none

end SqlRoutine.Yaml

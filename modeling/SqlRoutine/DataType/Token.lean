import SqlRoutine.Text.Replace

/-! # Tokens of a type

The text of a type is laid out as words, quoted names, numbers, string literals and signs. Blanks
divide tokens, and comments stand beside them: a comment belongs to the token before it on the same
line, otherwise to the token after it. A literal, a quoted name or a block comment that is never
closed **spoils the whole text**, wherever it stands. -/

namespace SqlRoutine.DataType

/-- A token without the comments beside it. -/
inductive Lexeme where
  | word (text : Text)
  | quoted (text : Text)
  | number (text : Text)
  | hexadecimal (digits : Text)
  | string (national : Bool) (text : Text)
  | sign (text : Text)
  deriving DecidableEq, Repr

/-- The characters of a token; a literal has none to compare with a keyword. -/
def Lexeme.text : Lexeme → Text
  | .word t | .quoted t | .number t | .hexadecimal t | .sign t => t
  | .string .. => []

/-- The token is the word, in any case. -/
def Lexeme.isWord (word : Text) : Lexeme → Bool
  | .word t => t.upper == word
  | _ => false

/-- A token and the comments that belong to it. -/
structure Token where
  lexeme : Lexeme
  comments : List Text
  deriving DecidableEq, Repr

/-! ### Characters -/

/-- A character that is a token by itself. -/
def isSign (c : Char) : Bool :=
  "()[]\x7b\x7d&^:,-.>=<%!|+;/\\*~?@#$\x27\x22\x60".toList.contains c

/-- A character that may stand inside a word. -/
def continuesWord (c : Char) : Bool := !isBlank c && (!isSign c || ['@', '$', '#'].contains c)

/-- The signs of several characters, long ones first. -/
def longSigns : List Text :=
  ["?::", "<=>", "->>", "#>>", "<->", "~~~", "~~*", "-|-", "&<", "&>", "==", "::", "||", "|>", ">=",
    "<=", "<>", "!=", ":=", "->", "=>", "#>", "&&", "??", "~~", "~*"].map String.toList

/-- The keywords of several words. -/
def phrases : List Text :=
  ["DOUBLE PRECISION", "CHARACTER VARYING", "CHAR VARYING", "CHARACTER SET"].map String.toList

/-- Reads a keyword of several words, with any blanks between them. It ends at a blank, a sign or
the end of the text. -/
def phrase? : (phrase t : Text) → Option Text
  | [], [] => some []
  | [], c :: t => if isBlank c || isSign c then some (c :: t) else none
  | _ :: _, [] => none
  | k :: phrase, c :: t =>
    if k = ' ' then if isBlank c then phrase? phrase (Text.trimStart t) else none
    else if upperLetters c = [k] then phrase? phrase t
    else none

/-! ### Literals and comments -/

/-- What stands before the closing character, and the rest behind it. Inside, the closing character
is written twice. -/
def closed? (close : Char) : Text → Option (Text × Text)
  | [] => none
  | [c] => if c = close then some ([], []) else none
  | c :: d :: t =>
    if c = close then
      if d = close then (closed? close t).map fun (inner, rest) => (close :: inner, rest)
      else some ([], d :: t)
    else (closed? close (d :: t)).map fun (inner, rest) => (c :: inner, rest)

/-- The characters of a block comment's marks: it opens with `first` and `mark`, and closes with
`mark` and `last`. -/
structure CommentMarks where
  first : Char
  mark : Char
  last : Char
  deriving DecidableEq, Repr

/-- What stands before the end of a block comment of which `depth` further levels are open, and the
rest behind it. -/
def CommentMarks.closed? (m : CommentMarks) : (depth : Nat) → Text → Option (Text × Text)
  | _, [] => none
  | depth, c :: t =>
    let closes := c = m.mark && t.head? = some m.last
    if closes && depth = 0 then some ([], t.tail)
    else
      let depth := if closes then depth - 1 else depth
      match t with
      | a :: b :: u =>
        if a = m.first && b = m.mark then
          (m.closed? (depth + 1) u).map fun (inner, rest) => (c :: a :: b :: inner, rest)
        else (m.closed? depth (a :: b :: u)).map fun (inner, rest) => (c :: inner, rest)
      | u => (m.closed? depth u).map fun (inner, rest) => (c :: inner, rest)

/-- A character that ends a line. -/
def endsLine (c : Char) : Bool := c == '\n' || c == '\r'

/-! ### Numbers -/

/-- What goes on a number: digits, one point, one exponent mark, and a sign behind the mark. -/
def numberRest (point mark signed : Bool) : Text → Text × Text
  | [] => ([], [])
  | c :: t =>
    let goOn := fun point mark signed =>
      let (taken, rest) := numberRest point mark signed t
      (c :: taken, rest)
    if isDecimal c then goOn point mark signed
    else if c = '.' && !point then goOn true mark signed
    else if (c = '-' || c = '+') && mark && !signed && (t.head?.any isDecimal) then
      goOn point mark true
    else if (c = 'e' || c = 'E') && !mark then goOn point true signed
    else ([], c :: t)

/-- A hexadecimal digit. -/
def isHexadecimal (c : Char) : Bool :=
  isDecimal c || ('a' ≤ c && c ≤ 'f') || ('A' ≤ c && c ≤ 'F')

/-- Reads a number. `0x` opens a hexadecimal constant, which is a name if a character of it is no
digit. -/
def number (t : Text) : Lexeme × Text :=
  let hexadecimal := fun (mark : Char) (t : Text) =>
    let inWord := fun c => !isBlank c && !isSign c
    let digits := t.takeWhile inWord
    (if !digits.isEmpty && digits.all isHexadecimal then .hexadecimal digits
      else .quoted ('0' :: mark :: digits), t.dropWhile inWord)
  match t with
  | '0' :: 'x' :: t => hexadecimal 'x' t
  | '0' :: 'X' :: t => hexadecimal 'X' t
  | '0' :: 'b' :: t => (.number ['0'], 'b' :: t)
  | '0' :: 'B' :: t => (.number ['0'], 'B' :: t)
  | t =>
    let (taken, rest) := numberRest false false false t
    (.number taken, rest)

/-! ### Layout -/

/-- What is found in the text of a type. -/
inductive Piece where
  | lexeme (lexeme : Lexeme)
  | comment (text : Text)
  /-- A literal, a quoted name or a block comment that is never closed. -/
  | unclosed
  deriving DecidableEq, Repr

/-- The piece for what stands inside marks, if they are closed. -/
def enclosed (piece : Text → Piece) : Option (Text × Text) → Piece × Text
  | some (inner, rest) => (piece inner, rest)
  | none => (.unclosed, [])

/-- Reads a keyword of several words, a sign or a word. -/
def wordOrSign (t : Text) : Lexeme × Text :=
  match phrases.findSome? (fun phrase => (phrase? phrase t).map (phrase, ·)) with
  | some (phrase, rest) => (.word phrase, rest)
  | none =>
    match longSigns.find? (Text.startsWith t) with
    | some long => (.sign long, t.drop long.length)
    | none =>
      if t.head?.any isSign then (.sign (t.take 1), t.drop 1)
      else (.word (t.takeWhile continuesWord), t.dropWhile continuesWord)

/-- The piece at the front of a text; blanks are passed over. -/
def piece : Text.Finder Piece := fun _ t =>
  match t with
  | [] => none
  | '-' :: '-' :: t =>
    some (.comment (t.takeWhile fun c => !endsLine c), t.dropWhile fun c => !endsLine c)
  | '/' :: '*' :: t => some (enclosed .comment (CommentMarks.closed? ⟨'/', '*', '/'⟩ 0 t))
  | '\x7b' :: '#' :: t => some (enclosed .comment (CommentMarks.closed? ⟨'\x7b', '#', '\x7d'⟩ 0 t))
  | '[' :: t => some (enclosed (.lexeme ∘ .quoted) (closed? ']' t))
  | '"' :: t => some (enclosed (.lexeme ∘ .quoted) (closed? '"' t))
  | '\x27' :: t => some (enclosed (.lexeme ∘ .string false) (closed? '\x27' t))
  | 'n' :: '\x27' :: t | 'N' :: '\x27' :: t =>
    some (enclosed (.lexeme ∘ .string true) (closed? '\x27' t))
  | c :: t =>
    if isBlank c then none
    else
      let (lexeme, rest) := if isDecimal c then number (c :: t) else wordOrSign (c :: t)
      some (.lexeme lexeme, rest)

/-! ### Comments beside tokens -/

/-- The tokens read so far, the last one first; the comments that wait for the next token; and
whether the line of the last token goes on. -/
structure Layout where
  tokens : List Token := []
  waiting : List Text := []
  sameLine : Bool := false

/-- The layout with the comments at its last token. -/
def Layout.comment (l : Layout) (comments : List Text) : Layout :=
  match l.tokens with
  | [] => l
  | last :: tokens =>
    { l with tokens := { last with comments := last.comments ++ comments } :: tokens }

/-- The layout with one more character or piece. -/
def Layout.add? (l : Layout) : Char ⊕ Piece → Option Layout
  | .inl c => some (if endsLine c then { l with sameLine := false } else l)
  | .inr (.lexeme lexeme) => some { tokens := ⟨lexeme, l.waiting⟩ :: l.tokens, sameLine := true }
  | .inr (.comment text) =>
    some (if l.sameLine then l.comment [text] else { l with waiting := l.waiting ++ [text] })
  | .inr .unclosed => none

/-- **The tokens of a text**, or `none` if something in it is never closed. -/
def tokens? (t : Text) : Option (List Token) :=
  ((t.segments piece).foldlM Layout.add? {}).map fun l => (l.comment l.waiting).tokens.reverse

end SqlRoutine.DataType

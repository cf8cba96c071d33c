import SqlRoutine.Text.Letter

/-! # Operations on texts

Trimming, splitting, joining and padding. White space is the class `isBlank` throughout. -/

namespace SqlRoutine.Text

/-! ### White space at the ends -/

/-- A **blank** text has no character but white space; the empty text is blank. -/
def isBlank (t : Text) : Bool := t.all SqlRoutine.isBlank

/-- The text without blanks at its start. -/
def trimStart (t : Text) : Text := t.dropWhile SqlRoutine.isBlank

/-- The blanks at the start. -/
def indent (t : Text) : Text := t.takeWhile SqlRoutine.isBlank

/-- The text without such characters at its end. -/
def dropEndWhile (p : Char → Bool) (t : Text) : Text := (t.reverse.dropWhile p).reverse

/-- The text without blanks at its end. -/
def trimEnd (t : Text) : Text := t.dropEndWhile SqlRoutine.isBlank

/-- The text without blanks around it. -/
def trim (t : Text) : Text := t.trimStart.trimEnd

/-- The text without such characters around it. -/
def dropAround (p : Char → Bool) (t : Text) : Text := dropEndWhile p (t.dropWhile p)

/-! ### Parts of a text -/

/-- The text starts so. -/
def startsWith (t start : Text) : Bool := start.isPrefixOf t

/-- The text ends so. -/
def endsWith (t ending : Text) : Bool := ending.reverse.isPrefixOf t.reverse

/-- The needle stands somewhere in the text. -/
def contains (needle : Text) : Text → Bool
  | [] => needle.isEmpty
  | c :: cs => needle.isPrefixOf (c :: cs) || contains needle cs

/-- The pieces between the separators; one piece more than there are separators. -/
def splitOn (sep : Char) : Text → List Text
  | [] => [[]]
  | c :: cs =>
    if c = sep then [] :: splitOn sep cs
    else match splitOn sep cs with
      | piece :: pieces => (c :: piece) :: pieces
      | [] => [[c]]

/-- The part after the last separator, or the whole text if there is none. -/
def afterLast (sep : Char) (t : Text) : Text := (t.reverse.takeWhile (· != sep)).reverse

/-- The part up to and including the last separator, or nothing if there is none. -/
def uptoLast (sep : Char) (t : Text) : Text := (t.reverse.dropWhile (· != sep)).reverse

/-- The characters up to a blank. -/
def firstWord (t : Text) : Text := t.trimStart.takeWhile fun c => !SqlRoutine.isBlank c

/-! ### Building texts -/

/-- The texts with a separator between them. -/
def join (sep : Text) : List Text → Text
  | [] => []
  | [t] => t
  | t :: ts => t ++ sep ++ join sep ts

/-- The text filled up with spaces to `width` characters; a longer text is kept. -/
def padRight (width : Nat) (t : Text) : Text := t ++ List.replicate (width - t.length) ' '

/-- The text with one character for another. -/
def replaceChar (old new : Char) (t : Text) : Text := t.map fun c => if c = old then new else c

/-- The text without such characters. -/
def remove (p : Char → Bool) (t : Text) : Text := t.filter fun c => !p c

/-- The number in decimal digits. -/
def ofNat (n : Nat) : Text := Nat.toDigits 10 n

/-- A number in decimal digits, with a minus sign when it is negative. -/
def ofInt (n : Int) : Text :=
  if n < 0 then '-' :: ofNat n.natAbs else ofNat n.natAbs

/-- The text with every line end, `\r\n` and `\r` as well, as a line feed. -/
def unifyLineEnds : Text → Text
  | '\r' :: '\n' :: rest => '\n' :: unifyLineEnds rest
  | '\r' :: rest => '\n' :: unifyLineEnds rest
  | c :: rest => c :: unifyLineEnds rest
  | [] => []

/-- Four spaces for a tab, and no blanks at the end. -/
def expandTabs (t : Text) : Text :=
  trimEnd (t.flatMap fun c => if c = '\t' then [' ', ' ', ' ', ' '] else [c])

end SqlRoutine.Text

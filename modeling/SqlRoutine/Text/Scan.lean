import SqlRoutine.Text.Basic

/-! # Scanning from the front of a text

A scanner reads something off the front of a text and returns what is left, or `none`. The classes
it takes runs of never overlap with what may follow them, so **a scanner never has to go back**: a
run of blanks before a word, a word before a sign, are as long as they can be. Keywords are compared
letter by letter with `sameLetter`. -/

namespace SqlRoutine.Text

/-- What follows the keyword, in any case. -/
def keyword? : (keyword t : Text) → Option Text
  | [], t => some t
  | _ :: _, [] => none
  | k :: ks, c :: cs => if sameLetter k c then keyword? ks cs else none

/-- What follows the first of the keywords that fits. -/
def anyKeyword? (keywords : List Text) (t : Text) : Option Text :=
  keywords.findSome? (keyword? · t)

/-- What follows the character. -/
def char? (c : Char) : Text → Option Text
  | [] => none
  | d :: ds => if d = c then some ds else none

/-- What follows the blanks; there is one at least. -/
def blanks? : Text → Option Text
  | [] => none
  | c :: cs => if SqlRoutine.isBlank c then some (trimStart cs) else none

/-- No word goes on here. -/
def atWordEnd : Text → Bool
  | [] => true
  | c :: _ => !isWord c

/-- What follows the keyword, as a word. -/
def word? (keyword t : Text) : Option Text :=
  (keyword? keyword t).bind fun rest => if atWordEnd rest then some rest else none

/-- Reads a name: one or more word characters. -/
def name? (t : Text) : Option (Text × Text) :=
  match t.takeWhile isWord with
  | [] => none
  | name => some (name, t.dropWhile isWord)

/-- Reads a variable: `@` and a name. -/
def atName? (t : Text) : Option (Text × Text) := (char? '@' t).bind name?

/-- The rest of the last line: up to a line feed, which only may be the last character. -/
def restOfLine? (t : Text) : Option Text :=
  match t.dropWhile (· != '\n') with
  | [] | ['\n'] => some (t.takeWhile (· != '\n'))
  | _ => none

/-- Only a terminator can follow. -/
def atStatementEnd (t : Text) : Bool :=
  match trimStart t with
  | ';' :: rest => isBlank rest
  | rest => rest.isEmpty

/-- What has been read when the rest is left. -/
def readBefore (rest t : Text) : Text := t.take (t.length - rest.length)

/-- A word can start behind this character. -/
def atWordStart : Option Char → Bool
  | none => true
  | some c => !isWord c

end SqlRoutine.Text

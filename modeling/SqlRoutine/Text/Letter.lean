import SqlRoutine.Text.Class
import SqlRoutine.Text.Table.FinalSigma
import SqlRoutine.Text.Table.LowerCase
import SqlRoutine.Text.Table.UpperCase

/-! # Letter case

Two ways to disregard the case of letters live side by side. **Keywords and names in a script** are
compared character by character: two characters are the same letter when they have the same
`letterKey` (`sameLetter`), so `K` is the Kelvin sign and `s` the long s. **Keys of a look-up** are
lower-cased as whole texts (`Text.lower`), where a character may become two and a capital sigma
depends on its context. The two disagree on a few letters, and scripts can show it. -/

namespace SqlRoutine

/-- A text is a list of characters, so that scanning it is recursion on its structure. -/
abbrev Text := List Char

/-- The code point that the runs of a case table give to `n`, if they cover it. -/
def shiftInRuns (runs : List (Nat × Nat × Nat × Int)) (n : Nat) : Option Nat :=
  (runs.find? fun r => r.1 ≤ n && n ≤ r.2.1 && (n - r.1) % r.2.2.1 == 0).map fun r =>
    ((n : Int) + r.2.2.2).toNat

/-- The lower case of a character. -/
def lowerLetter (c : Char) : Char :=
  if c.toNat < 128 then c.toLower
  else match shiftInRuns Table.lowerRuns c.toNat with
    | some n => Char.ofNat n
    | none => c

/-- The character that stands for all forms of a letter: capital, small and variant. -/
def letterKey (c : Char) : Char :=
  let l := lowerLetter c
  if l.toNat < 128 then l
  else match Table.letterVariants.lookup l.toNat with
    | some n => Char.ofNat n
    | none => l

/-- Two characters are **the same letter** when they differ at most in case or variant form. -/
def sameLetter (a b : Char) : Bool := letterKey a == letterKey b

/-- The upper case of a character, which may be several. -/
def upperLetters (c : Char) : Text :=
  if c.toNat < 128 then [c.toUpper]
  else match Table.upperSequences.lookup c.toNat with
    | some ns => ns.map Char.ofNat
    | none => match shiftInRuns Table.upperRuns c.toNat with
      | some n => [Char.ofNat n]
      | none => [c]

/-- A capital sigma between `before` (nearest character first) and `after` **ends a word**. -/
def endsWord (before after : Text) : Bool :=
  let cased (t : Text) : Bool :=
    match t.dropWhile fun c => inRuns Table.caseIgnorable c.toNat with
    | c :: _ => inRuns Table.casedLetters c.toNat
    | [] => false
  cased before && !cased after

namespace Text

/-- Lower case of `t` where the characters `before` it, nearest first, have been passed. -/
def lowerFrom (before : Text) : Text → Text
  | [] => []
  | c :: cs =>
    if c = 'Σ' then
      (if endsWord before cs then 'ς' else 'σ') :: lowerFrom (c :: before) cs
    else if c = 'İ' then 'i' :: '\u0307' :: lowerFrom (c :: before) cs
    else lowerLetter c :: lowerFrom (c :: before) cs

/-- **Lower case of a text.** The dotted capital i becomes two characters, and a capital sigma at
the end of a word becomes the final sigma. -/
def lower (t : Text) : Text := lowerFrom [] t

/-- **Upper case of a text.** -/
def upper (t : Text) : Text := t.flatMap upperLetters

end Text

end SqlRoutine

import SqlRoutine.Text.Scan

/-! # Replacing all occurrences

A **finder** looks at one position of a text: it gets the previous character and what follows, and
returns what it found there with the rest after it. `segments` lays a text out from left to right as
the characters that were passed over and the things that were found; occurrences never overlap,
because the search goes on behind the last one. `replaceAll` puts texts in their places. -/

namespace SqlRoutine.Text

/-- What is found at a position, given the previous character and the text from there on. -/
abbrev Finder (α : Type) := Option Char → Text → Option (α × Text)

/-- The segments of what is left, with the character before it and the number of characters to skip.
-/
def segmentsFrom {α : Type} (find : Finder α) : Option Char → Nat → Text → List (Char ⊕ α)
  | _, _, [] => []
  | _, skip + 1, c :: cs => segmentsFrom find (some c) skip cs
  | prev, 0, c :: cs =>
    match find prev (c :: cs) with
    | none => .inl c :: segmentsFrom find (some c) 0 cs
    | some (found, rest) => .inr found :: segmentsFrom find (some c) (cs.length - rest.length) cs

/-- **The layout of a text**: passed characters and things found, from left to right. -/
def segments {α : Type} (find : Finder α) (t : Text) : List (Char ⊕ α) := segmentsFrom find none 0 t

/-- The text of a segment. -/
def fill : Char ⊕ Text → Text
  | .inl c => [c]
  | .inr t => t

/-- **Every occurrence is replaced** by the text that was found for it. -/
def replaceAll (find : Finder Text) (t : Text) : Text := (segments find t).flatMap fill

/-- The first occurrence: its position and what was found there. -/
def findFrom {α : Type} (find : Finder α) (prev : Option Char) (position : Nat) :
    Text → Option (Nat × α)
  | [] => none
  | c :: cs =>
    match find prev (c :: cs) with
    | some (found, _) => some (position, found)
    | none => findFrom find (some c) (position + 1) cs

/-- **The first occurrence** in a text: its position and what was found there. -/
def find? {α : Type} (find : Finder α) (t : Text) : Option (Nat × α) := findFrom find none 0 t

/-- A finder for whole words and the like: `scan` reads from where a word may start, and the
occurrence is replaced by `replacement`. -/
def wordFinder (scan : Text → Option Text) (replacement : Text) : Finder Text := fun prev t =>
  if atWordStart prev then (scan t).map (replacement, ·) else none

end SqlRoutine.Text

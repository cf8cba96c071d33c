import SqlRoutine.Fault

/-! # Source lines with a look ahead

A source delivers the lines of a script one after the other and lets the upcoming lines be looked at
before they are delivered. Lines that have been looked at wait in a buffer. Once the physical lines
have come to their end, no more are asked for. -/

namespace SqlRoutine

/-- A source: lines that have been looked at, physical lines that have not been read, and whether
their end has been seen. -/
structure LineSource where
  buffer : List Text := []
  unread : List Text := []
  exhausted : Bool := false
  /-- The end is behind the last physical line. -/
  unread_of_exhausted : exhausted = true → unread = [] := by simp
  deriving DecidableEq, Repr

namespace LineSource

/-- The line without its end. -/
def chomp (line : Text) : Text := line.dropEndWhile fun c => c == '\r' || c == '\n'

/-- The source of the given lines. -/
def ofLines (lines : List Text) : LineSource := { unread := lines }

/-- **The lines that are still to be delivered.** -/
def remaining (s : LineSource) : List Text := s.buffer ++ s.unread.map chomp

/-- Takes one line from what is unread. -/
def readPhysical (s : LineSource) : Option Text × LineSource :=
  match s.exhausted, s.unread with
  | true, _ => (none, s)
  | false, [] => (none, { buffer := s.buffer, exhausted := true })
  | false, line :: rest => (some (chomp line), { buffer := s.buffer, unread := rest })

/-- Buffers so many more lines, as long as there are any. -/
def fillMore : (count : Nat) → LineSource → LineSource
  | 0, s => s
  | count + 1, s =>
    match s.readPhysical with
    | (none, s) => s
    | (some line, s) => fillMore count { s with buffer := s.buffer ++ [line] }

/-- Reads physical lines until the buffer holds `count` lines, or there are none left. -/
def fill (s : LineSource) (count : Nat) : LineSource := fillMore (count - s.buffer.length) s

/-- Takes the next line. -/
def read (s : LineSource) : Option Text × LineSource :=
  match (s.fill 1).buffer with
  | [] => (none, s.fill 1)
  | line :: rest => (some line, { s.fill 1 with buffer := rest })

/-- The next lines, which stay in the source. -/
def peek (s : LineSource) (count : Int) : List Text × LineSource :=
  ((s.fill count.toNat).buffer.take count.toNat, s.fill count.toNat)

/-- The upcoming line at a distance; there is none behind the current one. -/
def peekLine (s : LineSource) (offset : Int) : Except Fault (Option Text) × LineSource :=
  let (lines, s) := s.peek (offset + 1)
  if offset < 0 then (.error .outOfRange, s) else (.ok lines[offset.toNat]?, s)

/-- Takes a line that has been looked at. -/
def dequeue (s : LineSource) : Option Text × LineSource := s.read

end LineSource

end SqlRoutine

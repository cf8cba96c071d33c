import SqlRoutine.Text.Basic

/-! # The log

A record has a level and a message. Records are collected in the order in which they arise, and a
level of interest decides at the end which of them are shown. Beside the records a conversion notes
when it asks for a source line after the last one, because an unreadable source fails at that very
moment: what it would have logged later is then not logged. -/

namespace SqlRoutine

/-- The levels, the most severe first. -/
inductive Level where
  | error
  | warning
  | info
  | debug
  deriving DecidableEq, Repr

namespace Level

/-- All levels, the most severe first. -/
def all : List Level := [.error, .warning, .info, .debug]

/-- The levels count from the most severe one. -/
def rank : Level → Nat
  | .error => 0
  | .warning => 1
  | .info => 2
  | .debug => 3

/-- The name of the level. -/
def name : Level → Text
  | .error => "ERROR".toList
  | .warning => "WARNING".toList
  | .info => "INFO".toList
  | .debug => "DEBUG".toList

/-- The level of that name. -/
def ofName? (t : Text) : Option Level := all.find? (·.name == t)

/-- A message of the level is shown to those with this interest. -/
def shows (interest level : Level) : Bool := decide (level.rank ≤ interest.rank)

end Level

/-- A record of the log. -/
structure Record where
  level : Level
  message : Text
  deriving DecidableEq, Repr

/-- The line of the record in a log file, behind the time. -/
def Record.line (r : Record) : Text :=
  ": [".toList ++ r.level.name ++ "] ".toList ++ r.message ++ ['\n']

/-- What a conversion notes while it runs. -/
inductive Note where
  | record (record : Record)
  /-- A source line was asked for, and there was none. -/
  | ranDry
  deriving DecidableEq, Repr

namespace Note

/-- A note that is a message. -/
def log (level : Level) (message : Text) : Note := .record ⟨level, message⟩

/-- The message of a note, if it is one. -/
def record? : Note → Option Record
  | .record r => some r
  | .ranDry => none

/-- The messages that are of interest. -/
def shown (interest : Level) (notes : List Note) : List Record :=
  (notes.filterMap record?).filter fun r => interest.shows r.level

/-- The note on a look at more lines than there are. -/
def lookAhead (count : Nat) (ahead : List Text) : List Note :=
  if ahead.length < count then [.ranDry] else []

end Note

/-- A value together with the notes that were made on the way to it. -/
structure Noted (α : Type) where
  value : α
  notes : List Note

namespace Noted

/-- Notes of later steps come after those of earlier ones. -/
instance : Monad Noted where
  pure a := ⟨a, []⟩
  bind x f := ⟨(f x.value).value, x.notes ++ (f x.value).notes⟩

/-- Only notes. -/
def tell (notes : List Note) : Noted Unit := ⟨(), notes⟩

@[simp]
theorem value_pure {α : Type} (a : α) : (pure a : Noted α).value = a := rfl

@[simp]
theorem notes_pure {α : Type} (a : α) : (pure a : Noted α).notes = [] := rfl

@[simp]
theorem value_bind {α β : Type} (x : Noted α) (f : α → Noted β) :
    (x >>= f).value = (f x.value).value := rfl

@[simp]
theorem notes_bind {α β : Type} (x : Noted α) (f : α → Noted β) :
    (x >>= f).notes = x.notes ++ (f x.value).notes := rfl

end Noted

end SqlRoutine

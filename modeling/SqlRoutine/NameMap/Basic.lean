import SqlRoutine.Text.Keyed

/-! # The name map

A name map says what tables and columns are called after a migration. Tables are found by the
lower-cased name in the source, columns by the lower-cased name of their new table and their own.
**The first entry for a table counts, and the last for a column**; both keep the place where their
key first appeared. -/

namespace SqlRoutine

/-- The new place of a table. -/
structure NewTable where
  schema : Text
  name : Text
  deriving DecidableEq, Repr

/-- A column and its new name. -/
structure NewColumn where
  source : Text
  name : Text
  deriving DecidableEq, Repr

/-- One entry of a name map. -/
structure NameEntry where
  sourceTable : Text
  sourceColumn : Text
  schema : Text
  newTable : Text
  newColumn : Text
  deriving DecidableEq, Repr

/-- What tables and columns are called, by lower-cased keys in order of appearance. -/
structure NameMap where
  tables : List (Text × NewTable) := []
  columns : List (Text × List (Text × NewColumn)) := []
  deriving DecidableEq, Repr

namespace NameMap

/-- The map without entries. -/
def empty : NameMap := {}

/-- The map has no tables. -/
def isEmpty (m : NameMap) : Bool := m.tables.isEmpty

/-- The new table of a source table. -/
def table? (m : NameMap) (source : Text) : Option NewTable := m.tables.lookup source.lower

/-- The columns of a new table, by their source names. -/
def columnsOf (m : NameMap) (newTable : Text) : List (Text × NewColumn) :=
  (m.columns.lookup newTable.lower).getD []

/-- **Adds an entry.** An entry without a source table or a new table says nothing, and one without
column names says nothing about columns. -/
def add (m : NameMap) (e : NameEntry) : NameMap :=
  if e.sourceTable.isEmpty || e.newTable.isEmpty then m
  else
    let tables := match m.tables.lookup e.sourceTable.lower with
      | some _ => m.tables
      | none => m.tables ++ [(e.sourceTable.lower, ⟨e.schema, e.newTable⟩)]
    let columns :=
      if e.sourceColumn.isEmpty || e.newColumn.isEmpty then m.columns
      else
        let column : NewColumn := ⟨e.sourceColumn, e.newColumn⟩
        let known := m.columnsOf e.newTable
        Keyed.set e.newTable.lower (Keyed.set e.sourceColumn.lower column known) m.columns
    ⟨tables, columns⟩

/-- The map of the entries, in order. -/
def ofEntries (entries : List NameEntry) : NameMap := entries.foldl add empty

/-- The texts, the longer before the shorter and otherwise in the given order. -/
def longestFirst (texts : List Text) : List Text :=
  texts.mergeSort fun a b => decide (b.length ≤ a.length)

/-- **The keys of the tables**, the longest first. -/
def tableNames (m : NameMap) : List Text := longestFirst (m.tables.map (·.1))

/-- The number of columns. -/
def columnCount (m : NameMap) : Nat := m.columns.foldl (fun n c => n + c.2.length) 0

end NameMap

end SqlRoutine

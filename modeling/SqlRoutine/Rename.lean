import SqlRoutine.Code.Quoting
import SqlRoutine.NameMap.Basic
import SqlRoutine.Profile

/-! # Renaming tables and columns in a body

A line that names a mapped table is the seed of a **block**: the lines around it up to a blank line, a
line of control flow, or a change between code and comments. In a block the tables are renamed first,
and then the columns of the tables that were found in it. Blocks do not overlap. -/

namespace SqlRoutine

/-- What a renaming needs to know: the map, and the schemas that may qualify a table. -/
structure Renaming where
  map : NameMap
  schema : Text
  /-- Columns with shorter names are not renamed. -/
  columnLength : Int
  verbose : Bool

namespace Renaming

/-! ### Tables -/

/-- The schemas that may qualify a table: `dbo`, that of the conversion, and those of the map. -/
def schemas (r : Renaming) : List Text :=
  NameMap.longestFirst <| List.eraseDups <| "dbo".toList :: r.schema.lower ::
    (r.map.tables.filter fun t => !t.2.schema.isEmpty).map fun t => t.2.schema.lower

/-- The ways to pass an optional character: over it if it is there, or not at all. -/
def optionally (c : Char) (t : Text) : List Text :=
  (Text.char? c t).toList ++ [t]

/-- The texts behind each name that the text starts with. -/
def passAny (names : List Text) (t : Text) : List Text := names.filterMap (Text.keyword? · t)

/-- The texts behind a schema, with or without brackets, and its dot. -/
def passSchema (schemas : List Text) (t : Text) : List Text :=
  (optionally '[' t).flatMap fun t => (passAny schemas t).flatMap fun t =>
    (optionally ']' t).filterMap (Text.char? '.')

/-- **The readings of a table reference**, the preferred one first: perhaps a schema, then the name of
a table, in brackets or not, at the end of a word. Each is the name as written and what follows. -/
def references (schemas tables : List Text) (t : Text) : List (Text × Text) :=
  (passSchema schemas t ++ [t]).flatMap fun t => (optionally '[' t).flatMap fun t =>
    (passAny tables t).flatMap fun rest =>
      ((optionally ']' rest).filter Text.atWordEnd).map (Text.readBefore rest t, ·)

/-- A character that makes what follows it no table of its own. -/
def isQualifier (c : Char) : Bool := isWord c || c == '.' || c == '@' || c == '#' || c == ']'

/-- Finds the references to tables. -/
def tableFinder (schemas tables : List Text) : Text.Finder Text := fun prev t =>
  if prev.any isQualifier then none else (references schemas tables t).head?

/-- Finds the references to the tables of the map. -/
def finder (r : Renaming) : Text.Finder Text := tableFinder r.schemas r.map.tableNames

/-- The line has a reference to a table of the map. -/
def mentionsTable (r : Renaming) (line : Text) : Bool := (line.find? r.finder).isSome

/-- The written form of a table: with its schema, unless that needs no mention. -/
def writtenTable (r : Renaming) (t : NewTable) : Text :=
  if t.schema.isEmpty || t.schema.lower == r.schema.lower then t.name
  else t.schema ++ '.' :: t.name

/-- The new table of a name that was found. -/
def resolve (r : Renaming) (name : Text) : Except Fault NewTable :=
  match r.map.table? name with
  | some t => .ok t
  | none => .error .unresolvedTable

/-- The line with the new tables for the references in it. -/
def resolveLine (r : Renaming) (line : Text) : Except Fault (List (Char ⊕ NewTable)) :=
  (line.segments r.finder).mapM fun
    | .inl c => .ok (.inl c)
    | .inr name => (r.resolve name).map .inr

/-- The line with the new names of the tables. -/
def writeLine (r : Renaming) (line : List (Char ⊕ NewTable)) : Text :=
  line.flatMap fun
    | .inl c => [c]
    | .inr t => r.writtenTable t

/-- The tables in resolved lines, each once, in order of appearance. -/
def tablesIn (lines : List (List (Char ⊕ NewTable))) : List Text :=
  (lines.flatten.filterMap fun
    | .inl _ => none
    | .inr t => some t.name).eraseDups

/-! ### Columns -/

/-- Finds the source name of a column, as a word. -/
def columnFinder (c : NewColumn) : Text.Finder Text := fun prev t =>
  if prev.any fun c => isWord c || c == '@' then none
  else (Text.word? c.source t).map (c.name, ·)

/-- The columns of a table that get another name, if the source name is long enough. -/
def renamedColumns (r : Renaming) (newTable : Text) : List NewColumn :=
  ((r.map.columnsOf newTable).map (·.2)).filter fun c =>
    decide ((c.source.length : Int) ≥ r.columnLength) && c.source != c.name

/-- The columns that have been looked up before, by the lower-cased name of their new table. -/
abbrev ColumnCache := List (Text × List NewColumn)

/-- The renamed columns of a new table, from the cache if they are there. What is not in the cache is
kept for the next time. -/
def cachedColumns (r : Renaming) (cache : ColumnCache) (newTable : Text) :
    List NewColumn × ColumnCache :=
  match cache.lookup newTable.lower with
  | some columns => (columns, cache)
  | none => (r.renamedColumns newTable, cache ++ [(newTable.lower, r.renamedColumns newTable)])

/-- The renamed columns of several new tables, one table after the other. -/
def cachedColumnsOf (r : Renaming) (cache : ColumnCache) : List Text → List NewColumn × ColumnCache
  | [] => ([], cache)
  | newTable :: newTables =>
    let (columns, cache) := r.cachedColumns cache newTable
    let (others, cache) := cachedColumnsOf r cache newTables
    (columns ++ others, cache)

/-- Renames the columns one after the other. -/
def renameColumns (columns : List NewColumn) (line : Text) : Text :=
  columns.foldl (fun line c => line.replaceAll (columnFinder c)) line

/-! ### Blocks -/

/-- The words that end a block when a line starts with them. -/
def boundaryWords : List Text :=
  ["Begin".toList, "End".toList, "If".toList, "Else".toList]

/-- The line starts with a word that ends a block. -/
def startsControl (line : Text) : Bool :=
  boundaryWords.any fun word => (Text.word? word line.trimStart).isSome

/-- **A line that ends a block** of comments or of code. -/
def isBoundary (comments : Bool) (line : Text) : Bool :=
  line.isBlank || Code.isCommentOnly line != comments || (!comments && startsControl line)

/-- The longest ending of a list whose elements satisfy `p`, and what comes before it. -/
def splitEnding (p : Text → Bool) (lines : List Text) : List Text × List Text :=
  let ending := (lines.reverse.takeWhile p).reverse
  (lines.take (lines.length - ending.length), ending)

/-- The line does not end a block. -/
def isInner (comments : Bool) (line : Text) : Bool := !isBoundary comments line

/-- A portion of a body. -/
inductive Portion where
  | kept (lines : List Text)
  | block (lines : List Text)
  deriving DecidableEq, Repr

/-- **The portions of a body**: each block is spread out from the first line after the block before
it that mentions a table. -/
def portions (mentions : Text → Bool) (body : List Text) : List Portion :=
  match _h : body.dropWhile fun line => !mentions line with
  | [] => [.kept body]
  | seed :: after =>
    let comments := Code.isCommentOnly seed
    let (kept, start) := splitEnding (isInner comments) (body.takeWhile fun line => !mentions line)
    .kept kept :: .block (start ++ seed :: after.takeWhile (isInner comments)) ::
      portions mentions (after.dropWhile (isInner comments))
termination_by body.length
decreasing_by
  have h₁ := (List.dropWhile_suffix (fun line => !mentions line) (l := body)).length_le
  have h₂ := (List.dropWhile_suffix (isInner (Code.isCommentOnly seed)) (l := after)).length_le
  simp only [_h, List.length_cons] at h₁
  omega

/-- What a renaming comes to: the lines or the fault that ended it, the notes that were made up to
then, and the columns that have been looked up. -/
structure Renamed where
  result : Except Fault (List Text)
  notes : List Note := []
  columns : ColumnCache

/-- The lines of a block with new tables and columns. -/
def writeBlock (r : Renaming) (columns : List NewColumn) (block : List (List (Char ⊕ NewTable))) :
    List Text :=
  block.map fun line => renameColumns columns (r.writeLine line)

/-- The message about a block that was changed. -/
def blockNotes (r : Renaming) (lines : List Text) : List Note :=
  if r.verbose then [.log .debug ("Updated block:\n".toList ++ Text.join ['\n'] lines)] else []

/-- **The renaming of one block.** The columns are looked up only when all tables are resolved. -/
def renameBlock (r : Renaming) (cache : ColumnCache) (block : List Text) : Renamed :=
  match block.mapM r.resolveLine with
  | .error fault => { result := .error fault, columns := cache }
  | .ok resolved =>
    let (columns, cache) := r.cachedColumnsOf cache (tablesIn resolved)
    let lines := r.writeBlock columns resolved
    ⟨.ok lines, r.blockNotes lines, cache⟩

/-- Renames a portion of a body, if it is a block. -/
def renamePortion (r : Renaming) (cache : ColumnCache) : Portion → Renamed
  | .kept lines => { result := .ok lines, columns := cache }
  | .block lines => r.renameBlock cache lines

/-- The renaming of portions, one after the other up to the first fault. -/
def renamePortions (r : Renaming) (cache : ColumnCache) : List Portion → Renamed
  | [] => { result := .ok [], columns := cache }
  | portion :: portions =>
    let first := r.renamePortion cache portion
    match first.result with
    | .error fault => { first with result := .error fault }
    | .ok lines =>
      let others := renamePortions r first.columns portions
      ⟨others.result.map (lines ++ ·), first.notes ++ others.notes, others.columns⟩

/-- **The renaming of a body**, portion by portion. -/
def renameBody (r : Renaming) (cache : ColumnCache) (body : List Text) : Renamed :=
  r.renamePortions cache (portions r.mentionsTable body)

/-- **The renaming of a profile** and a map, if there is a map and it has tables. -/
def ofProfile? (p : Profile) (map : Option NameMap) : Option Renaming :=
  match map with
  | none => none
  | some map => if map.isEmpty then none else some ⟨map, p.schema, p.columnLength, p.verbose⟩

end Renaming

end SqlRoutine

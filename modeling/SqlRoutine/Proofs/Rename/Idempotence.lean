import SqlRoutine.Proofs.Rename.Reference

/-! # A second renaming changes nothing

A renaming is **closed** if new names are not renamed again (`Closed`): every new table is a table of the
map with itself as its new place, a new column is not the old name of another one, and the names of
schemas, tables and columns do not get mixed up. Such a renaming does not fail on a body in ASCII without
square brackets, and **what it comes to is not changed by a second one** (`renameBody_idempotent`).

In a line the tables are renamed in its references (`renamedTable`) and the columns in its other words
(`onWords`). Neither makes a reference out of something else, so both leave a similar line, and the blocks
of the renamed body are the renamed blocks (`portions_of_alike`). -/

namespace SqlRoutine

open List NameMap Text

variable {ps : List Piece} {c : NewColumn} {k table w z : Text} {t : Text × NewTable}
  {mentions : Text → Bool}

/-! ### The keys of a map -/

namespace NameMap

/-- All columns that the map knows. -/
def allColumns (m : NameMap) : List NewColumn := m.columns.flatMap fun t => t.2.map (·.2)

theorem mem_allColumns_of_columnsOf {m : NameMap} {newTable : Text} {c : Text × NewColumn}
    (h : c ∈ m.columnsOf newTable) : c.2 ∈ m.allColumns := by
  unfold columnsOf at h
  cases hlook : m.columns.lookup newTable.lower with
  | none => rw [hlook] at h; cases h
  | some columns =>
    rw [hlook] at h
    obtain ⟨l₁, l₂, hl, -⟩ := lookup_eq_some_iff.mp hlook
    refine mem_flatMap.mpr ⟨(newTable.lower, columns), by rw [hl]; simp, ?_⟩
    exact mem_map_of_mem h

theorem exists_source (entries : List NameEntry) :
    ∀ t ∈ (ofEntries entries).tables, ∃ source : Text, t.1 = source.lower := by
  refine List.foldlRecOn (motive := fun m : NameMap => ∀ t ∈ m.tables, ∃ source : Text, t.1 = source.lower)
    entries add nofun fun m hm e _ => ?_
  unfold add
  split
  · exact hm
  · dsimp only
    cases m.tables.lookup e.sourceTable.lower with
    | some _ => exact hm
    | none =>
      intro t ht
      rcases mem_append.mp ht with ht | ht
      · exact hm t ht
      · rw [mem_singleton.mp ht]
        exact ⟨e.sourceTable, rfl⟩

end NameMap

namespace Renaming

variable {r : Renaming}

/-! ### Closed renamings -/

/-- The names of schemas: `dbo`, that of the conversion, and those of the map. -/
def schemaWords (r : Renaming) : List Text :=
  "dbo".toList :: r.schema :: (r.map.tables.filter fun t => !t.2.schema.isEmpty).map fun t => t.2.schema

/-- The names of tables, old and new. -/
def tableWords (r : Renaming) : List Text := r.map.tables.flatMap fun t => [t.1, t.2.name]

/-- The names of columns, old and new. -/
def columnWords (r : Renaming) : List Text := r.map.allColumns.flatMap fun c => [c.source, c.name]

/-- The column gets another name and is long enough. -/
def IsRenamed (r : Renaming) (c : NewColumn) : Prop :=
  (c.source.length : Int) ≥ r.columnLength ∧ c.source ≠ c.name

instance (r : Renaming) (c : NewColumn) : Decidable (r.IsRenamed c) :=
  inferInstanceAs (Decidable (_ ∧ _))

/-- **New names are not renamed again.** -/
structure Closed (r : Renaming) : Prop where
  identifiers : ∀ w ∈ r.schemaWords ++ r.tableWords ++ r.columnWords, isIdentifier w
  /-- Every new table is a table of the map, and stays where it is. -/
  tables : ∀ t ∈ r.map.tables, r.map.table? t.2.name = some t.2
  /-- The new name of a renamed column is the old name of another one only if that one gets it too. -/
  columns : ∀ c ∈ r.map.allColumns, ∀ d ∈ r.map.allColumns, r.IsRenamed c → r.IsRenamed d →
    c.name.lower = d.source.lower → d.name = c.name
  /-- Schemas, tables, columns and words of control flow have different names, ignoring case. -/
  disjoint : [r.schemaWords, r.tableWords, r.columnWords, boundaryWords].Pairwise fun names others =>
    ∀ v ∈ names, ∀ w ∈ others, v.lower ≠ w.lower

theorem mem_schemas_iff : k ∈ r.schemas ↔ ∃ s ∈ r.schemaWords, k = s.lower := by
  have hdbo : lower "dbo".toList = "dbo".toList := by decide
  rw [schemas, longestFirst, mem_mergeSort, mem_eraseDups, schemaWords]
  simp only [mem_cons, mem_map, exists_eq_or_imp, hdbo]
  refine or_congr_right (or_congr_right ⟨?_, ?_⟩)
  · rintro ⟨t, ht, rfl⟩
    exact ⟨_, ⟨t, ht, rfl⟩, rfl⟩
  · rintro ⟨_, ⟨t, ht, rfl⟩, rfl⟩
    exact ⟨t, ht, rfl⟩

theorem mem_tableNames_iff : k ∈ r.map.tableNames ↔ ∃ t ∈ r.map.tables, t.1 = k := by
  rw [tableNames, longestFirst, mem_mergeSort, mem_map]

theorem mem_tableWords (h : t ∈ r.map.tables) :
    t.1 ∈ r.tableWords ∧ t.2.name ∈ r.tableWords :=
  ⟨mem_flatMap.mpr ⟨t, h, by simp⟩, mem_flatMap.mpr ⟨t, h, by simp⟩⟩

theorem mem_columnWords (h : c ∈ r.map.allColumns) :
    c.source ∈ r.columnWords ∧ c.name ∈ r.columnWords :=
  ⟨mem_flatMap.mpr ⟨c, h, by simp⟩, mem_flatMap.mpr ⟨c, h, by simp⟩⟩

theorem lower_table {entries : List NameEntry} (hmap : r.map = ofEntries entries)
    (ht : t ∈ r.map.tables) : t.1.lower = t.1 := by
  obtain ⟨source, hsource⟩ := exists_source entries t (hmap ▸ ht)
  rw [hsource]
  exact lower_lower source

/-- **The names are identifiers**, and no schema has the name of a table, ignoring case. -/
structure IdentifierNames (r : Renaming) : Prop where
  schemas : ∀ s ∈ r.schemaWords, isIdentifier s
  tables : ∀ t ∈ r.map.tables, isIdentifier t.1
  disjoint : ∀ s ∈ r.schemaWords, ∀ t ∈ r.map.tables, s.lower ≠ t.1.lower

namespace IdentifierNames

variable (h : r.IdentifierNames) {entries : List NameEntry} (hmap : r.map = ofEntries entries)
include h hmap

theorem wordNames : r.WordNames where
  schemas k hk := by
    obtain ⟨s, hs, rfl⟩ := mem_schemas_iff.mp hk
    exact isIdentifier_lower (h.schemas s hs)
  tables k hk := by
    obtain ⟨t, ht, rfl⟩ := mem_tableNames_iff.mp hk
    exact ⟨h.tables t ht, lower_table hmap ht⟩
  disjoint k hk hin := by
    obtain ⟨t, ht, rfl⟩ := mem_tableNames_iff.mp hk
    obtain ⟨s, hs, heq⟩ := mem_schemas_iff.mp hin
    exact h.disjoint s hs t ht (by rw [lower_table hmap ht, heq])

end IdentifierNames

namespace Closed

variable (h : r.Closed)
include h

theorem isIdentifier_schema (hw : w ∈ r.schemaWords) : isIdentifier w :=
  h.identifiers w (mem_append_left _ (mem_append_left _ hw))

theorem isIdentifier_table (hw : w ∈ r.tableWords) : isIdentifier w :=
  h.identifiers w (mem_append_left _ (mem_append_right _ hw))

theorem isIdentifier_column (hw : w ∈ r.columnWords) : isIdentifier w :=
  h.identifiers w (mem_append_right _ hw)

theorem plainNames {entries : List NameEntry} (hmap : r.map = ofEntries entries) : r.PlainNames := by
  have hdisjoint := h.disjoint
  simp only [pairwise_cons, mem_cons, forall_eq_or_imp, not_mem_nil, or_false,
    forall_eq] at hdisjoint
  obtain ⟨⟨hst, -, hsb⟩, ⟨-, htb⟩, -⟩ := hdisjoint
  have hnames : r.IdentifierNames :=
    { schemas := fun s hs => h.isIdentifier_schema hs
      tables := fun t ht => h.isIdentifier_table (mem_tableWords ht).1
      disjoint := fun s hs t ht => hst s hs t.1 (mem_tableWords ht).1 }
  refine ⟨hnames.wordNames hmap, fun k hk => ⟨fun hin => ?_, fun hin => ?_⟩⟩
  · obtain ⟨s, hs, heq⟩ := mem_schemas_iff.mp hin
    exact hsb s hs k hk heq.symm
  · obtain ⟨t, ht, heq⟩ := mem_tableNames_iff.mp hin
    exact htb t.1 (mem_tableWords ht).1 k hk (by rw [lower_table hmap ht, heq])

end Closed

/-! ### Tables -/

/-- The schema that a table is written with. -/
def writtenSchema (r : Renaming) (t : NewTable) : Option Text :=
  if t.schema.isEmpty || t.schema.lower == r.schema.lower then none else some t.schema

/-- A reference to the new place of its table. -/
def renamedTable (r : Renaming) : Piece → Piece
  | .reference schema table =>
    match r.map.table? table with
    | some t => .reference (r.writtenSchema t) t.name
    | none => .reference schema table
  | p => p

/-- What a piece is resolved to. -/
def Piece.resolved (r : Renaming) : Piece → List (Char ⊕ NewTable)
  | sign c => [.inl c]
  | word w => w.map .inl
  | reference _ table => ((r.map.table? table).map .inr).toList

/-- The new table that a piece refers to. -/
def Piece.newTable (r : Renaming) : Piece → Option Text
  | reference _ table => (r.map.table? table).map (·.name)
  | _ => none

theorem writtenTable_eq (r : Renaming) (t : NewTable) :
    r.writtenTable t = (Piece.reference (r.writtenSchema t) t.name).text := by
  unfold writtenTable writtenSchema
  split_ifs <;> rfl

theorem Names.exists_table {schema : Option Text} (h : r.Names schema table) :
    ∃ t, r.map.table? table = some t ∧ (table.lower, t) ∈ r.map.tables := by
  obtain ⟨t, ht, hkey⟩ := mem_tableNames_iff.mp h.table
  cases hlook : r.map.tables.lookup table.lower with
  | none =>
    rw [List.lookup_eq_none_iff] at hlook
    exact absurd (hlook t ht) (by simp [hkey])
  | some t' =>
    obtain ⟨l₁, l₂, hl, -⟩ := lookup_eq_some_iff.mp hlook
    exact ⟨t', hlook, by rw [hl]; simp⟩

theorem renamedTable_reference {t : NewTable} (schema : Option Text)
    (h : r.map.table? table = some t) :
    r.renamedTable (.reference schema table) = .reference (r.writtenSchema t) t.name := by
  rw [renamedTable, h]

section

variable {prev : Option Char} {ps : List Piece}

theorem Closed.names (h : r.Closed) {t : NewTable} (ht : (k, t) ∈ r.map.tables) :
    r.Names (r.writtenSchema t) t.name where
  schema s hs := by
    unfold writtenSchema at hs
    split_ifs at hs with hno
    · cases hs
    · obtain rfl := Option.some.inj hs
      rw [Bool.or_eq_true, not_or, Bool.not_eq_true] at hno
      have hmem : t.schema ∈ r.schemaWords := by
        refine mem_cons_of_mem _ (mem_cons_of_mem _ (mem_map.mpr ⟨(k, t), ?_, rfl⟩))
        exact mem_filter.mpr ⟨ht, by simp [hno.1]⟩
      exact ⟨h.isIdentifier_schema hmem, mem_schemas_iff.mpr ⟨_, hmem, rfl⟩⟩
  isIdentifier := h.isIdentifier_table (mem_tableWords ht).2
  table := by
    obtain ⟨l₁, l₂, hl, -⟩ := lookup_eq_some_iff.mp (h.tables _ ht)
    exact mem_tableNames_iff.mpr ⟨(t.name.lower, t), by rw [hl]; simp, rfl⟩

theorem Scanned.names (hps : Scanned r prev ps) {schema : Option Text} {table : Text}
    (hin : .reference schema table ∈ ps) : r.Names schema table := by
  induction hps with
  | nil => cases hin
  | sign _ _ _ _ _ ih => exact ih ((mem_cons.mp hin).resolve_left nofun)
  | word _ _ _ _ _ ih => exact ih ((mem_cons.mp hin).resolve_left nofun)
  | reference _ names _ _ ih =>
    rcases mem_cons.mp hin with heq | hin
    · obtain ⟨rfl, rfl⟩ := Piece.reference.inj heq
      exact names
    · exact ih hin

theorem similar_renamedTable (h : r.Closed) (hps : Scanned r prev ps) :
    List.Forall₂ (Similar r) ps (ps.map r.renamedTable) := by
  refine forall₂_map_right_iff.mpr (forall₂_same.mpr fun p hp => ?_)
  cases p with
  | sign c => exact .sign c
  | word w => exact .same w
  | reference schema table =>
    obtain ⟨t, ht, hmem⟩ := (hps.names hp).exists_table
    rw [renamedTable_reference _ ht]
    exact .reference (h.names hmem)

/-- **The new places are not renamed again.** -/
theorem renamedTable_renamedTable (h : r.Closed) (hps : Scanned r prev ps) {p : Piece} (hp : p ∈ ps) :
    r.renamedTable (r.renamedTable p) = r.renamedTable p ∧
      (r.renamedTable p).newTable r = p.newTable r := by
  cases p with
  | sign c => exact ⟨rfl, rfl⟩
  | word w => exact ⟨rfl, rfl⟩
  | reference schema table =>
    obtain ⟨t, ht, hmem⟩ := (hps.names hp).exists_table
    have hnew := h.tables _ hmem
    rw [renamedTable_reference _ ht, renamedTable_reference _ hnew, Piece.newTable, Piece.newTable, ht,
      hnew]
    exact ⟨rfl, rfl⟩

/-- **All references of a line are resolved.** -/
theorem resolveLine_write (hr : r.WordNames) (hps : Scanned r none ps) :
    r.resolveLine (write ps) = .ok (ps.flatMap (Piece.resolved r)) := by
  rw [resolveLine, segments, hps.segmentsFrom_finder hr, mapM_eq_ok_iff]
  refine rel_flatMap (R := fun p q => p = q ∧ p ∈ ps)
    (forall₂_same.mpr fun p hp => ⟨rfl, hp⟩) ?_
  rintro p _ ⟨rfl, hp⟩
  cases p with
  | sign c => exact .cons rfl .nil
  | word w =>
    refine forall₂_map_left_iff.mpr (forall₂_map_right_iff.mpr ?_)
    exact forall₂_same.mpr fun _ _ => rfl
  | reference schema table =>
    obtain ⟨t, ht, -⟩ := (hps.names hp).exists_table
    rw [Piece.segments, Piece.resolved, ht]
    refine .cons ?_ .nil
    dsimp only
    rw [resolve, ht]
    rfl

theorem writeLine_resolved (hps : Scanned r prev ps) :
    r.writeLine (ps.flatMap (Piece.resolved r)) = write (ps.map r.renamedTable) := by
  rw [writeLine, flatMap_assoc, write, flatMap_map]
  refine flatMap_congr fun p hp => ?_
  cases p with
  | sign c => rfl
  | word w => simp [Piece.resolved, renamedTable, Piece.text, flatMap_map]
  | reference schema table =>
    obtain ⟨t, ht, -⟩ := (hps.names hp).exists_table
    rw [renamedTable_reference _ ht, Piece.resolved, ht, ← writtenTable_eq]
    simp

/-- The tables in resolved lines. -/
theorem tablesIn_resolved (lines : List (List Piece)) :
    tablesIn (lines.map fun ps => ps.flatMap (Piece.resolved r)) =
      (lines.flatten.filterMap (Piece.newTable r)).eraseDups := by
  rw [tablesIn]
  congr 1
  induction lines with
  | nil => rfl
  | cons ps lines ih =>
    rw [map_cons, flatten_cons, flatten_cons, filterMap_append,
      filterMap_append, ih, filterMap_flatMap,
      filterMap_eq_flatMap_toList (Piece.newTable r) ps]
    congr 1
    refine flatMap_congr fun p _ => ?_
    cases p with
    | sign c => rfl
    | word w => simp [Piece.resolved, Piece.newTable]
    | reference schema table =>
      rw [Piece.resolved, Piece.newTable]
      cases r.map.table? table <;> rfl

end

/-! ### Columns -/

/-- A word after the renaming of one column. -/
def renameWord (c : NewColumn) (w : Text) : Text := if c.source.lower = w.lower then c.name else w

/-- A word after the renaming of several columns, one after the other. -/
def renameWords (columns : List NewColumn) (w : Text) : Text :=
  columns.foldl (fun w c => renameWord c w) w

/-- The pieces with `f` applied to the words that are no variables. -/
def onWords (f : Text → Text) : Option Char → List Piece → List Piece
  | _, [] => []
  | _, .sign c :: ps => .sign c :: onWords f (some c) ps
  | prev, .word w :: ps => .word (if prev = some '@' then w else f w) :: onWords f (some '_') ps
  | _, .reference schema table :: ps => .reference schema table :: onWords f (some '_') ps

theorem onWords_id : ∀ (prev : Option Char) (ps : List Piece), onWords id prev ps = ps
  | _, [] => rfl
  | _, .sign c :: ps => congrArg (Piece.sign c :: ·) (onWords_id (some c) ps)
  | prev, .word w :: ps => by
    rw [onWords, onWords_id (some '_') ps, id, ite_self]
  | _, .reference schema table :: ps =>
    congrArg (Piece.reference schema table :: ·) (onWords_id (some '_') ps)

theorem onWords_onWords (f g : Text → Text) : ∀ (prev : Option Char) (ps : List Piece),
    onWords g prev (onWords f prev ps) = onWords (g ∘ f) prev ps
  | _, [] => rfl
  | _, .sign c :: ps => congrArg (Piece.sign c :: ·) (onWords_onWords f g (some c) ps)
  | prev, .word w :: ps => by
    rw [onWords, onWords, onWords, onWords_onWords f g (some '_') ps]
    split_ifs <;> rfl
  | _, .reference schema table :: ps =>
    congrArg (Piece.reference schema table :: ·) (onWords_onWords f g (some '_') ps)

/-- Words and references are renamed independently. -/
theorem map_renamedTable_onWords (f : Text → Text) : ∀ (prev : Option Char) (ps : List Piece),
    (onWords f prev ps).map r.renamedTable = onWords f prev (ps.map r.renamedTable)
  | _, [] => rfl
  | _, .sign c :: ps => congrArg (Piece.sign c :: ·) (map_renamedTable_onWords f (some c) ps)
  | prev, .word w :: ps => congrArg (Piece.word _ :: ·) (map_renamedTable_onWords f (some '_') ps)
  | prev, .reference schema table :: ps => by
    have ih := map_renamedTable_onWords f (some '_') ps
    rw [onWords, map_cons, map_cons, renamedTable, ih]
    cases r.map.table? table <;> rfl

theorem filterMap_newTable_onWords (f : Text → Text) : ∀ (prev : Option Char) (ps : List Piece),
    (onWords f prev ps).filterMap (Piece.newTable r) = ps.filterMap (Piece.newTable r)
  | _, [] => rfl
  | _, .sign c :: ps => filterMap_newTable_onWords f (some c) ps
  | prev, .word w :: ps => filterMap_newTable_onWords f (some '_') ps
  | prev, .reference schema table :: ps => by
    rw [onWords, filterMap_cons, filterMap_cons, filterMap_newTable_onWords f (some '_') ps]

section

variable {prev : Option Char} {ps : List Piece}

/-- The words may become others that are no names either. -/
theorem similar_onWords {f : Text → Text} (hf : ∀ w, isIdentifier w →
      f w = w ∨ isIdentifier (f w) ∧ r.IsOther w ∧ r.IsOther (f w))
    (hps : Scanned r prev ps) : List.Forall₂ (Similar r) ps (onWords f prev ps) := by
  induction hps with
  | nil => exact .nil
  | sign _ _ _ _ _ ih => exact .cons (.sign _) ih
  | word isIdentifier _ _ _ _ ih =>
    refine .cons ?_ ih
    split_ifs
    · exact .same _
    · rcases hf _ isIdentifier with heq | ⟨hid, hother, hother'⟩
      · rw [heq]
        exact .same _
      · exact .word hid hother hother'
  | reference _ names _ _ ih => exact .cons (.reference names) ih

/-! ### One column in a line -/

variable {c : NewColumn}

theorem outsideWords_columnFinder (c : NewColumn) : OutsideWords (columnFinder c) := by
  intro prev t hprev
  cases prev with
  | none => cases hprev
  | some d =>
    rw [Option.any_some] at hprev
    simp [columnFinder, hprev]

/-- A column is found at the start of a word if it is the word, unless that is a variable. -/
theorem columnFinder_word (hsource : isIdentifier c.source)
    (hprev : atWordStart prev) (hw : w.all isAsciiWord)
    (hz : atSign z) : columnFinder c prev (w ++ z) =
      if prev = some '@' then none else if c.source.lower = w.lower then some (c.name, z) else none := by
  have hblocked : (prev.any fun d => isWord d || d == '@') = decide (prev = some '@') := by
    cases prev with
    | none => rfl
    | some d =>
      have hd : isWord d = false := by simpa [atWordStart] using hprev
      simp [hd, Bool.beq_eq_decide_eq]
  rw [columnFinder, hblocked, word?_word (isIdentifier_iff.mp hsource).2 hw hz]
  split_ifs <;> simp_all

theorem columnFinder_sign (hsource : isIdentifier c.source) {d : Char}
    (hd : atSign (d :: z)) : columnFinder c prev (d :: z) = none := by
  have hne : c.source.lower ≠ lower [] := by
    obtain ⟨e, es, hcons, -⟩ := exists_cons_of_identifier (isIdentifier_lower hsource).1
    rw [hcons]
    exact cons_ne_nil e es
  by_cases hprev : atWordStart prev
  · have hfinder := columnFinder_word hsource hprev (w := []) rfl hd
    rwa [if_neg hne, ite_self] at hfinder
  · refine outsideWords_columnFinder c prev _ ?_
    cases prev with
    | none => exact absurd rfl hprev
    | some e => simpa [atWordStart] using hprev

/-- A name is passed over by a column that is no name. -/
theorem replaceFrom_name (hsource : isIdentifier c.source) (hother : r.IsOther c.source)
    (hprev : atWordStart prev) (hw : isIdentifier w)
    (hname : w.lower ∈ r.schemas ∨ w.lower ∈ r.map.tableNames) (hz : atSign z) :
    replaceFrom (columnFinder c) prev (w ++ z) =
      w ++ replaceFrom (columnFinder c) (some '_') z := by
  have hne : c.source.lower ≠ w.lower := by
    intro heq
    rw [← heq] at hname
    exact hname.elim hother.1 hother.2.1
  refine replaceFrom_word (outsideWords_columnFinder c) hw ?_
  rw [columnFinder_word hsource hprev (isIdentifier_iff.mp hw).2 hz, if_neg hne, ite_self]

theorem atWordStart_of_qualifier (h : prev.any isQualifier = false) : atWordStart prev := by
  cases prev with
  | none => rfl
  | some d =>
    rw [Option.any_some] at h
    simp only [isQualifier, Bool.or_eq_false_iff] at h
    simp [atWordStart, h.1.1.1.1]

/-- **The renaming of a column in a line**: its references are passed over. -/
theorem replaceFrom_columnFinder (hsource : isIdentifier c.source)
    (hother : r.IsOther c.source) (hps : Scanned r prev ps) :
    replaceFrom (columnFinder c) prev (write ps) = write (onWords (renameWord c) prev ps) := by
  induction hps with
  | nil => rfl
  | @sign prev d ps ascii sign opening closing rest ih =>
    have hscanned : Scanned r prev (.sign d :: ps) := .sign ascii sign opening closing rest
    have hnone : columnFinder c prev (d :: write ps) = none :=
      columnFinder_sign hsource (hscanned.atSign_write rfl)
    have hpass := replaceFrom_of_none hnone
    exact hpass.trans (congrArg (d :: ·) ih)
  | @word prev w ps isIdentifier start next other rest ih =>
    have hfinder := columnFinder_word hsource start (isIdentifier_iff.mp isIdentifier).2
      (rest.atSign_write next)
    rw [onWords, write_cons, write_cons, ← ih]
    simp only [Piece.text, renameWord]
    split_ifs at hfinder ⊢ with hat heq
    · exact replaceFrom_word (outsideWords_columnFinder c) isIdentifier hfinder
    · rw [replaceFrom, segmentsFrom_found (outsideWords_columnFinder c)
        (getLast?_identifier isIdentifier) hfinder]
      rfl
    · exact replaceFrom_word (outsideWords_columnFinder c) isIdentifier hfinder
  | @reference prev schema table ps start names next rest ih =>
    have hstart := atWordStart_of_qualifier start
    have hend := rest.atSign_write next
    rw [onWords, write_cons, write_cons, ← ih]
    cases schema with
    | none => exact replaceFrom_name hsource hother hstart names.isIdentifier (.inr names.table) hend
    | some s =>
      obtain ⟨hid, hin⟩ := names.schema s rfl
      have hdot : columnFinder c (some '_') ('.' :: (table ++ write ps)) = none :=
        columnFinder_sign hsource rfl
      rw [Piece.text, append_assoc, cons_append,
        replaceFrom_name hsource hother hstart hid (.inl hin) rfl, replaceFrom_of_none hdot,
        replaceFrom_name hsource hother (by decide) names.isIdentifier (.inr names.table) hend,
        append_assoc, cons_append]

end

/-! ### All columns of a block -/

section

variable (h : r.Closed) (hr : r.PlainNames)
include h

theorem Closed.isOther (hr : r.PlainNames) (hw : w ∈ r.columnWords) : r.IsOther w := by
  have hdisjoint := h.disjoint
  simp only [pairwise_cons, mem_cons, forall_eq_or_imp, not_mem_nil, or_false,
    forall_eq] at hdisjoint
  obtain ⟨⟨-, hschemas, -⟩, ⟨htables, -⟩, hcontrol, -⟩ := hdisjoint
  refine ⟨fun hin => ?_, fun hin => ?_, fun hin => ?_⟩
  · obtain ⟨s, hs, heq⟩ := mem_schemas_iff.mp hin
    exact hschemas s hs w hw heq.symm
  · have hlower := (hr.tables _ hin).2
    obtain ⟨t, ht, hkey⟩ := mem_tableNames_iff.mp hin
    exact htables t.1 (mem_tableWords ht).1 w hw (by rw [hkey, hlower])
  · obtain ⟨k, hk, heq⟩ := mem_map.mp hin
    exact hcontrol w hw k hk heq.symm

/-- The columns are renamed ones of the map. -/
def AreRenamed (r : Renaming) (columns : List NewColumn) : Prop :=
  ∀ c ∈ columns, c ∈ r.map.allColumns ∧ r.IsRenamed c

omit h in
theorem areRenamed_flatMap (tables : List Text) : r.AreRenamed (tables.flatMap r.renamedColumns) := by
  intro c hc
  obtain ⟨newTable, -, hc⟩ := mem_flatMap.mp hc
  obtain ⟨hc, hrenamed⟩ := mem_filter.mp hc
  obtain ⟨entry, hentry, rfl⟩ := mem_map.mp hc
  rw [Bool.and_eq_true, decide_eq_true_eq, bne_iff_ne] at hrenamed
  exact ⟨mem_allColumns_of_columnsOf hentry, hrenamed⟩

variable {columns : List NewColumn} (hcolumns : r.AreRenamed columns)
include hcolumns

theorem renameWords_name (hc : c ∈ r.map.allColumns) (hrenamed : r.IsRenamed c) :
    renameWords columns c.name = c.name := by
  refine List.foldlRecOn (motive := fun w => w = c.name) columns _ rfl fun w hw d hd => ?_
  rw [hw, renameWord]
  split_ifs with heq
  · exact h.columns c hc d (hcolumns d hd).1 hrenamed (hcolumns d hd).2 heq.symm
  · rfl

/-- **A word stays or becomes the new name of a column.** -/
theorem renameWords_cases (w : Text) : renameWords columns w = w ∨
    ∃ c ∈ r.map.allColumns, r.IsRenamed c ∧ c.source.lower = w.lower ∧
      renameWords columns w = c.name := by
  induction columns with
  | nil => exact .inl rfl
  | cons d columns ih =>
    obtain ⟨⟨hd, hrenamed⟩, hothers⟩ := forall_mem_cons.mp hcolumns
    have hstep : renameWords (d :: columns) w = renameWords columns (renameWord d w) := rfl
    rw [hstep, renameWord]
    split_ifs with heq
    · exact .inr ⟨d, hd, hrenamed, heq, renameWords_name h hothers hd hrenamed⟩
    · exact ih hothers

theorem renameWords_renameWords (w : Text) :
    renameWords columns (renameWords columns w) = renameWords columns w := by
  rcases renameWords_cases h hcolumns w with heq | ⟨c, hc, hrenamed, -, heq⟩
  · rw [heq, heq]
  · rw [heq, renameWords_name h hcolumns hc hrenamed]

include hr

theorem similar_renameWords {prev : Option Char} (hps : Scanned r prev ps) :
    List.Forall₂ (Similar r) ps (onWords (renameWords columns) prev ps) := by
  refine similar_onWords (fun w _ => ?_) hps
  refine (renameWords_cases h hcolumns w).imp_right ?_
  rintro ⟨c, hc, -, hsource, heq⟩
  obtain ⟨hold, hnew⟩ := mem_columnWords hc
  have hother := h.isOther hr hold
  rw [IsOther, hsource] at hother
  rw [heq]
  exact ⟨h.isIdentifier_column hnew, hother, h.isOther hr hnew⟩

/-- **The renaming of columns in a line.** -/
theorem renameColumns_write (hps : Scanned r none ps) :
    renameColumns columns (write ps) = write (onWords (renameWords columns) none ps) := by
  induction columns generalizing ps with
  | nil => exact congrArg write (onWords_id none ps).symm
  | cons c columns ih =>
    obtain ⟨hc, hothers⟩ := forall_mem_cons.mp hcolumns
    obtain ⟨hold, -⟩ := mem_columnWords hc.1
    have hone : r.AreRenamed [c] := forall_mem_singleton.mpr hc
    have hscanned : Scanned r none (onWords (renameWord c) none ps) :=
      hps.similar (similar_renameWords h hr hone hps)
    have hstep : renameColumns (c :: columns) (write ps) =
        renameColumns columns (replaceFrom (columnFinder c) none (write ps)) := rfl
    rw [hstep, replaceFrom_columnFinder (h.isIdentifier_column hold) (h.isOther hr hold) hps,
      ih hothers hscanned, onWords_onWords]
    rfl

end

/-! ### Lines and blocks -/

/-- The pieces of a line with tables and columns renamed. -/
def renamedLine (r : Renaming) (columns : List NewColumn) (ps : List Piece) : List Piece :=
  onWords (renameWords columns) none (ps.map r.renamedTable)

/-- The renamed columns of the tables that the lines refer to. -/
def columnsIn (r : Renaming) (lines : List (List Piece)) : List NewColumn :=
  (lines.flatten.filterMap (Piece.newTable r)).eraseDups.flatMap r.renamedColumns

/-- The pieces of a block with tables and columns renamed. -/
def renamedLines (r : Renaming) (lines : List (List Piece)) : List (List Piece) :=
  lines.map (r.renamedLine (r.columnsIn lines))

section

variable (h : r.Closed) {lines : List (List Piece)} (hlines : ∀ ps ∈ lines, Scanned r none ps)
include h hlines

theorem columnsIn_renamedLines : r.columnsIn (r.renamedLines lines) = r.columnsIn lines := by
  have htables : (r.renamedLines lines).flatten.filterMap (Piece.newTable r) =
      lines.flatten.filterMap (Piece.newTable r) := by
    rw [filterMap_flatten, filterMap_flatten, renamedLines, map_map]
    congr 1
    refine map_congr_left fun ps hps => ?_
    rw [Function.comp_apply, renamedLine, filterMap_newTable_onWords, filterMap_map]
    exact filterMap_congr fun p hp => (renamedTable_renamedTable h (hlines ps hps) hp).2
  rw [columnsIn, htables]
  rfl

/-- **Renamed lines are not renamed again.** -/
theorem renamedLines_renamedLines : r.renamedLines (r.renamedLines lines) = r.renamedLines lines := by
  have hcolumns : r.AreRenamed (r.columnsIn lines) := areRenamed_flatMap _
  have hidem : renameWords (r.columnsIn lines) ∘ renameWords (r.columnsIn lines) =
      renameWords (r.columnsIn lines) := funext (renameWords_renameWords h hcolumns)
  rw [renamedLines, columnsIn_renamedLines h hlines, renamedLines, map_map]
  refine map_congr_left fun ps hps => ?_
  have htables : (ps.map r.renamedTable).map r.renamedTable = ps.map r.renamedTable := by
    rw [map_map]
    exact map_congr_left fun p hp => (renamedTable_renamedTable h (hlines ps hps) hp).1
  rw [Function.comp_apply, renamedLine, renamedLine, map_renamedTable_onWords, htables,
    onWords_onWords, hidem]

variable (hr : r.PlainNames)
include hr

/-- Renamed lines are lines of pieces, and belong to blocks as they did. -/
theorem scanned_renamedLine (hps : ps ∈ lines) :
    Scanned r none (r.renamedLine (r.columnsIn lines) ps) ∧
      SameLine r.mentionsTable (write ps) (write (r.renamedLine (r.columnsIn lines) ps)) := by
  have hold := hlines ps hps
  have htables := similar_renamedTable h hold
  have hrenamed : r.AreRenamed (r.columnsIn lines) := areRenamed_flatMap _
  have hcolumns := similar_renameWords h hr hrenamed (hold.similar htables)
  have hfirst := sameLine_of_similar hr hold htables
  have hsecond := sameLine_of_similar hr (hold.similar htables) hcolumns
  exact ⟨(hold.similar htables).similar hcolumns, hsecond.mentions.trans hfirst.mentions,
    hsecond.isCommentOnly.trans hfirst.isCommentOnly,
    fun comments => (hsecond.isInner comments).trans (hfirst.isInner comments)⟩

/-- **A block is renamed line by line**, with the columns of its tables. -/
theorem blockRenamed_write : r.BlockRenamed (lines.map write) ((r.renamedLines lines).map write) := by
  refine ⟨lines.map fun ps => ps.flatMap (Piece.resolved r), ?_, ?_⟩
  · rw [mapM_eq_ok_iff, forall₂_map_left_iff, forall₂_map_right_iff]
    exact forall₂_same.mpr fun ps hps => resolveLine_write hr.toWordNames (hlines ps hps)
  · rw [writeBlock, tablesIn_resolved, renamedLines, map_map, map_map]
    refine map_congr_left fun ps hps => ?_
    have htables := (hlines ps hps).similar (similar_renamedTable h (hlines ps hps))
    rw [Function.comp_apply, Function.comp_apply, writeLine_resolved (hlines ps hps),
      renameColumns_write h hr (areRenamed_flatMap _) htables]
    rfl

/-- **A renamed block is what its renaming comes to.** -/
theorem blockRenamed_renamedLines :
    r.BlockRenamed ((r.renamedLines lines).map write) ((r.renamedLines lines).map write) := by
  have hscanned : ∀ ps ∈ r.renamedLines lines, Scanned r none ps := by
    intro ps hps
    obtain ⟨old, hold, rfl⟩ := mem_map.mp hps
    exact (scanned_renamedLine h hlines hr hold).1
  have hblock := blockRenamed_write h hscanned hr
  rwa [renamedLines_renamedLines h hlines] at hblock

end

/-! ### Bodies -/

/-- The lines of a portion. -/
def Portion.lines : Portion → List Text
  | kept lines => lines
  | block lines => lines

/-- Two portions whose lines belong to blocks in the same way; what is kept is the same. -/
inductive Portion.Alike (mentions : Text → Bool) : Portion → Portion → Prop
  | kept (lines : List Text) : Alike mentions (.kept lines) (.kept lines)
  | block {lines lines' : List Text} (h : List.Forall₂ (SameLine mentions) lines lines') :
      Alike mentions (.block lines) (.block lines')

/-- What a portion comes to. -/
inductive PortionRenamed (r : Renaming) : Portion → Portion → Prop
  | kept (lines : List Text) : PortionRenamed r (.kept lines) (.kept lines)
  | block {lines lines' : List Text} (h : r.BlockRenamed lines lines') :
      PortionRenamed r (.block lines) (.block lines')

theorem sameLine_refl (mentions : Text → Bool) (line : Text) : SameLine mentions line line :=
  ⟨rfl, rfl, fun _ => rfl⟩

theorem exists_append_of_forall₂ {α β : Type} {R : α → β → Prop} :
    ∀ {l₁ l₂ : List α} {l : List β}, List.Forall₂ R (l₁ ++ l₂) l →
      ∃ l₁' l₂', l = l₁' ++ l₂' ∧ List.Forall₂ R l₁ l₁' ∧ List.Forall₂ R l₂ l₂'
  | [], _, l, h => ⟨[], l, rfl, .nil, h⟩
  | a :: l₁, l₂, l, h => by
    obtain ⟨b, l', hab, hl', rfl⟩ := forall₂_cons_left_iff.mp h
    obtain ⟨l₁', l₂', rfl, h₁, h₂⟩ := exists_append_of_forall₂ hl'
    exact ⟨b :: l₁', l₂', rfl, .cons hab h₁, h₂⟩

theorem exists_of_mem_right {α β : Type} {R : α → β → Prop} {l : List α} {l' : List β}
    (h : List.Forall₂ R l l') {b : β} (hb : b ∈ l') : ∃ a ∈ l, R a b := by
  induction h with
  | nil => cases hb
  | @cons a _ _ _ hab _ ih =>
    rcases mem_cons.mp hb with rfl | hb
    · exact ⟨a, mem_cons_self, hab⟩
    · obtain ⟨a', ha', hab'⟩ := ih hb
      exact ⟨a', mem_cons_of_mem a ha', hab'⟩

/-- **The first block is cut off in the same way** from a body whose lines are alike. -/
theorem Cut.alike {body kept start inner rest start' inner' rest' : List Text}
    {seed seed' : Text} (h : Cut mentions body kept start seed inner rest)
    (hstart : List.Forall₂ (SameLine mentions) start start') (hseed : SameLine mentions seed seed')
    (hinner : List.Forall₂ (SameLine mentions) inner inner')
    (hrest : List.Forall₂ (SameLine mentions) rest rest') :
    Cut mentions (kept ++ (start' ++ seed' :: inner') ++ rest') kept start' seed' inner' rest' where
  eq := rfl
  mentions_seed := hseed.mentions.trans h.mentions_seed
  before line hline := by
    rcases mem_append.mp hline with hkept | hin
    · exact h.before line (mem_append_left _ hkept)
    · obtain ⟨old, hold, hsame⟩ := exists_of_mem_right hstart hin
      rw [hsame.mentions, h.before old (mem_append_right _ hold)]
  start_inner line hline := by
    obtain ⟨old, hold, hsame⟩ := exists_of_mem_right hstart hline
    rw [hseed.isCommentOnly, hsame.isInner, h.start_inner old hold]
  inner_inner line hline := by
    obtain ⟨old, hold, hsame⟩ := exists_of_mem_right hinner hline
    rw [hseed.isCommentOnly, hsame.isInner, h.inner_inner old hold]
  kept_last line hline := by
    rw [hseed.isCommentOnly, h.kept_last line hline]
  rest_head line hline := by
    cases hrest with
    | nil => cases hline
    | @cons old _ _ _ hsame _ =>
      obtain rfl := Option.some.inj hline
      rw [hseed.isCommentOnly, hsame.isInner, h.rest_head old rfl]

theorem flatMap_portions (mentions : Text → Bool) (body : List Text) :
    (portions mentions body).flatMap Portion.lines = body := by
  refine portions_induction
    (P := fun body ps => ps.flatMap Portion.lines = body) ?_ ?_ body
  · intro body _
    simp [Portion.lines]
  · intro body kept start seed inner rest hcut ih
    rw [flatMap_cons, flatMap_cons, ih, hcut.eq]
    simp [Portion.lines]

/-- **Portions that are alike are the portions of their own lines.** -/
theorem portions_of_alike (body : List Text) : ∀ {ps : List Portion},
    List.Forall₂ (Portion.Alike mentions) (portions mentions body) ps →
      portions mentions (ps.flatMap Portion.lines) = ps ∧
        List.Forall₂ (SameLine mentions) body (ps.flatMap Portion.lines) := by
  refine portions_induction (P := fun body portions' => ∀ {ps : List Portion},
    List.Forall₂ (Portion.Alike mentions) portions' ps →
      portions mentions (ps.flatMap Portion.lines) = ps ∧
        List.Forall₂ (SameLine mentions) body (ps.flatMap Portion.lines)) ?_ ?_ body
  · intro body hnone ps halike
    obtain ⟨p, ps, hp, hnil, rfl⟩ := forall₂_cons_left_iff.mp halike
    obtain rfl := forall₂_nil_left_iff.mp hnil
    cases hp
    simp only [flatMap_cons, flatMap_nil, append_nil, Portion.lines]
    exact ⟨portions_of_none hnone, forall₂_same.mpr fun line _ => sameLine_refl mentions line⟩
  · intro body kept start seed inner rest hcut ih ps halike
    obtain ⟨p, qs, hp, hqs, rfl⟩ := forall₂_cons_left_iff.mp halike
    obtain ⟨q, ps, hq, hps, rfl⟩ := forall₂_cons_left_iff.mp hqs
    cases hp
    cases hq with
    | @block _ lines' hlines =>
      obtain ⟨start', tail', rfl, hstart, htail⟩ := exists_append_of_forall₂ hlines
      obtain ⟨seed', inner', hseed, hinner, rfl⟩ := forall₂_cons_left_iff.mp htail
      obtain ⟨hportions, hrest⟩ := ih hps
      have hcut' := hcut.alike hstart hseed hinner hrest
      simp only [flatMap_cons, Portion.lines]
      rw [← append_assoc]
      refine ⟨by rw [portions_of_cut hcut', hportions], ?_⟩
      rw [hcut.eq]
      exact rel_append (rel_append
        (forall₂_same.mpr fun line _ => sameLine_refl mentions line) hlines) hrest

/-- **The portions of a body come to what each of them comes to.** -/
theorem renamePortions_of_renamed {ps ps' : List Portion} (h : List.Forall₂ (PortionRenamed r) ps ps') :
    ∀ {cache : ColumnCache}, r.Coherent cache →
      (r.renamePortions cache ps).result = .ok (ps'.flatMap Portion.lines) := by
  induction h with
  | nil => exact fun _ => rfl
  | cons hp _ ih =>
    intro cache hcache
    rw [renamePortions]
    cases hp with
    | kept lines =>
      simp only [renamePortion, ih hcache]
      rfl
    | @block lines lines' hblock =>
      obtain ⟨resolved, hresolved, hlines⟩ := hblock
      obtain ⟨hcolumns, hcache'⟩ := cachedColumnsOf_eq (tablesIn resolved) hcache
      simp only [renamePortion, renameBlock, hresolved, ih hcache']
      rw [hcolumns, ← hlines]
      rfl

/-- Every portion of a body in ASCII without brackets comes to something that is not changed again. -/
theorem exists_portionRenamed (h : r.Closed) (hr : r.PlainNames) (p : Portion)
    (hp : ∀ line ∈ p.lines, line.all isAscii ∧ Unbracketed line) :
    ∃ p', r.PortionRenamed p p' ∧ r.PortionRenamed p' p' ∧ p.Alike r.mentionsTable p' := by
  cases p with
  | kept lines => exact ⟨.kept lines, .kept lines, .kept lines, .kept lines⟩
  | block lines =>
    have hpieces : ∀ line ∈ lines, ∃ ps, Scanned r none ps ∧ write ps = line := fun line hline =>
      exists_scanned r line (hp line hline).1 (hp line hline).2 none (.inl rfl)
    choose! pieces hpieces using hpieces
    have hwrite : (lines.map pieces).map write = lines := by
      rw [map_map]
      exact (map_congr_left fun line hline => (hpieces line hline).2).trans (map_id lines)
    have hscanned : ∀ ps ∈ lines.map pieces, Scanned r none ps := by
      intro ps hps
      obtain ⟨line, hline, rfl⟩ := mem_map.mp hps
      exact (hpieces line hline).1
    rw [← hwrite]
    generalize lines.map pieces = pieces at hscanned
    refine ⟨.block ((r.renamedLines pieces).map write), .block (blockRenamed_write h hscanned hr),
      .block (blockRenamed_renamedLines h hscanned hr), .block ?_⟩
    rw [renamedLines, map_map]
    refine forall₂_map_left_iff.mpr (forall₂_map_right_iff.mpr ?_)
    exact forall₂_same.mpr fun ps hps => (scanned_renamedLine h hscanned hr hps).2

/-- **Renaming is idempotent.** If new names are not renamed again, a body in ASCII without square
brackets is renamed without a fault, and what it comes to is not changed by a second renaming, whatever
bodies have been renamed before. -/
theorem renameBody_idempotent (entries : List NameEntry) (r : Renaming)
    (hmap : r.map = NameMap.ofEntries entries) (h : r.Closed) (body : List Text)
    (hbody : ∀ line ∈ body, line.all Text.isAscii = true ∧ '[' ∉ line ∧ ']' ∉ line) :
    ∃ lines, ∀ earlier, (r.renameBody (r.columnsAfter earlier) body).result = .ok lines ∧
      (r.renameBody (r.columnsAfter earlier) lines).result = .ok lines := by
  have hportions : ∀ p ∈ portions r.mentionsTable body, ∃ p', r.PortionRenamed p p' ∧
      r.PortionRenamed p' p' ∧ p.Alike r.mentionsTable p' := by
    refine fun p hp => exists_portionRenamed h (h.plainNames hmap) p fun line hline => hbody line ?_
    rw [← flatMap_portions r.mentionsTable body]
    exact List.mem_flatMap.mpr ⟨p, hp, hline⟩
  have : Nonempty Portion := ⟨.kept []⟩
  choose! renamed hrenamed using hportions
  generalize hps : (portions r.mentionsTable body).map renamed = ps
  have hfirst : List.Forall₂ r.PortionRenamed (portions r.mentionsTable body) ps := by
    rw [← hps, List.forall₂_map_right_iff]
    exact List.forall₂_same.mpr fun p hp => (hrenamed p hp).1
  have hsecond : List.Forall₂ r.PortionRenamed ps ps := by
    refine List.forall₂_same.mpr fun p' hp' => ?_
    obtain ⟨p, hp, rfl⟩ := List.mem_map.mp (hps ▸ hp')
    exact (hrenamed p hp).2.1
  have halike : List.Forall₂ (Portion.Alike r.mentionsTable) (portions r.mentionsTable body) ps := by
    rw [← hps, List.forall₂_map_right_iff]
    exact List.forall₂_same.mpr fun p hp => (hrenamed p hp).2.2
  refine ⟨ps.flatMap Portion.lines, fun earlier => ?_⟩
  have hcache := coherent_columnsAfter r earlier
  refine ⟨renamePortions_of_renamed hfirst hcache, ?_⟩
  rw [renameBody, (portions_of_alike body halike).1]
  exact renamePortions_of_renamed hsecond hcache

theorem closed_jobs : jobsRenaming.Closed where
  identifiers := by decide
  tables := by decide
  columns := by decide
  disjoint := by decide

/-- The same columns in a comment, in a query and in a line of control flow. -/
theorem renameBody_idempotent_jobs :
    let body := ["-- Check T_Jobs State".toList, "SELECT J.State, @State, Step_Number".toList,
      "FROM dbo.T_Job_Steps S, sw.T_Jobs J".toList, "If State > 0 Then".toList]
    jobsRenaming.Closed ∧
      (∀ line ∈ body, line.all Text.isAscii = true ∧ '[' ∉ line ∧ ']' ∉ line) ∧
      ∃ lines, ∀ earlier,
        (jobsRenaming.renameBody (jobsRenaming.columnsAfter earlier) body).result = .ok lines ∧
          (jobsRenaming.renameBody (jobsRenaming.columnsAfter earlier) lines).result = .ok lines := by
  intro body
  have hbody : ∀ line ∈ body, line.all Text.isAscii = true ∧ '[' ∉ line ∧ ']' ∉ line := by
    decide
  exact ⟨closed_jobs, hbody, renameBody_idempotent _ jobsRenaming rfl closed_jobs body hbody⟩

end Renaming

end SqlRoutine

import Mathlib.Data.List.Induction
import Mathlib.Data.List.Nodup
import Mathlib.Tactic.SplitIfs
import SqlRoutine.NameMap.File

/-! # What a name map file says

The rows of a file are its lines that are not blank, whatever line ends it has (`finish_readAll`), and
the map of a file is the map of the entries of its rows. In the map of a list of entries **the first entry
of a table counts and the last of a column**, each in the place where its key came first. -/

namespace SqlRoutine

open List

namespace Keyed

variable {α : Type}

theorem lookup_set (key : Text) (value : α) (k : Text) (l : List (Text × α)) :
    (set key value l).lookup k = if k = key then some value else l.lookup k := by
  fun_induction set key value l with
  | case1 => grind
  | case2 => grind
  | case3 => grind

theorem keys_set (key : Text) (value : α) (l : List (Text × α)) :
    (set key value l).map (·.1) = if key ∈ l.map (·.1) then l.map (·.1) else l.map (·.1) ++ [key] := by
  fun_induction set key value l with
  | case1 => rfl
  | case2 => simp_all
  | case3 => grind

theorem lookup_eq_none_iff {k : Text} {l : List (Text × α)} : l.lookup k = none ↔ k ∉ l.map (·.1) := by
  rw [List.lookup_eq_none_iff, mem_map]
  grind

end Keyed

/-! ### First appearances -/

theorem eraseDups_concat (ts : List Text) (t : Text) :
    (ts ++ [t]).eraseDups = if t ∈ ts then ts.eraseDups else ts.eraseDups ++ [t] := by
  rw [eraseDups_append]
  split_ifs with h
  · simp [List.removeAll, h]
  · simp [List.removeAll, h, eraseDups_cons]

theorem nodup_eraseDups (ts : List Text) : ts.eraseDups.Nodup := by
  induction ts using List.reverseRecOn with
  | nil => exact nodup_nil
  | append_singleton ts t ih =>
    rw [eraseDups_concat]
    split_ifs with h
    · exact ih
    · simpa using ih.concat (by rwa [mem_eraseDups])

namespace NameMap

/-- The entry says where a table goes. -/
def namesTable (e : NameEntry) : Bool := !(e.sourceTable.isEmpty || e.newTable.isEmpty)

/-- The entry says what a column of the new table is called. -/
def namesColumn (newTable : Text) (e : NameEntry) : Bool :=
  namesTable e && !(e.sourceColumn.isEmpty || e.newColumn.isEmpty) && e.newTable.lower == newTable.lower

theorem ofEntries_concat (entries : List NameEntry) (e : NameEntry) :
    ofEntries (entries ++ [e]) = (ofEntries entries).add e := foldl_concat ..

theorem tables_add (m : NameMap) (e : NameEntry) : (m.add e).tables =
    if namesTable e ∧ e.sourceTable.lower ∉ m.tables.map (·.1) then
      m.tables ++ [(e.sourceTable.lower, ⟨e.schema, e.newTable⟩)]
    else m.tables := by
  simp only [← Keyed.lookup_eq_none_iff]
  unfold add namesTable
  cases e.sourceTable.isEmpty || e.newTable.isEmpty
  · cases m.tables.lookup e.sourceTable.lower <;> simp
  · simp

theorem columnsOf_add (m : NameMap) (e : NameEntry) (newTable : Text) : (m.add e).columnsOf newTable =
    if namesColumn newTable e then
      Keyed.set e.sourceColumn.lower ⟨e.sourceColumn, e.newColumn⟩ (m.columnsOf newTable)
    else m.columnsOf newTable := by
  unfold add namesColumn namesTable
  cases e.sourceTable.isEmpty || e.newTable.isEmpty
  · cases e.sourceColumn.isEmpty || e.newColumn.isEmpty
    · simp only [columnsOf, Bool.false_eq_true, if_false, Keyed.lookup_set]
      by_cases h : e.newTable.lower = newTable.lower
      · simp [h]
      · simp [h, Ne.symm h]
    · rfl
  · rfl

/-- The keys of the tables, in the order in which they come first. -/
def tableKeys (entries : List NameEntry) : List Text :=
  ((entries.filter namesTable).map (·.sourceTable.lower)).eraseDups

/-- **What a map says of the entries it was made of.** -/
structure Reflects (m : NameMap) (entries : List NameEntry) : Prop where
  /-- A table has the place that its first entry gives. -/
  table : ∀ source, m.table? source =
    ((entries.filter fun e => namesTable e && e.sourceTable.lower == source.lower).head?).map
      fun e => ⟨e.schema, e.newTable⟩
  /-- The columns of a new table come in the order of their first entries. -/
  columnKeys : ∀ newTable, (m.columnsOf newTable).map (·.1) =
    ((entries.filter (namesColumn newTable)).map (·.sourceColumn.lower)).eraseDups
  /-- A column has the names that its last entry gives. -/
  column : ∀ newTable key, (m.columnsOf newTable).lookup key =
    ((entries.filter fun e => namesColumn newTable e && e.sourceColumn.lower == key).getLast?).map
      fun e => ⟨e.sourceColumn, e.newColumn⟩
  /-- The tables are listed once each, -/
  once : (tableKeys entries).Nodup ∧ m.tableNames.Perm (tableKeys entries)
  /-- the longest names first, -/
  longest : m.tableNames.Pairwise fun a b => b.length ≤ a.length
  /-- and names of one length in the order of their first entries. -/
  ties : ∀ n, m.tableNames.filter (·.length == n) = (tableKeys entries).filter (·.length == n)

theorem keys_ofEntries (entries : List NameEntry) :
    (ofEntries entries).tables.map (·.1) = tableKeys entries := by
  unfold tableKeys
  induction entries using List.reverseRecOn with
  | nil => rfl
  | append_singleton entries e ih =>
    rw [ofEntries_concat, tables_add, filter_append, map_append]
    simp only [ih, mem_eraseDups]
    cases hnames : namesTable e with
    | false => simpa [hnames] using ih
    | true =>
      rw [filter_singleton, hnames, cond_true, map_singleton, eraseDups_concat, ← ih]
      split_ifs <;> simp_all

theorem table?_ofEntries (entries : List NameEntry) (source : Text) : (ofEntries entries).table? source =
    ((entries.filter fun e => namesTable e && e.sourceTable.lower == source.lower).head?).map
      fun e => ⟨e.schema, e.newTable⟩ := by
  induction entries using List.reverseRecOn with
  | nil => rfl
  | append_singleton entries e ih =>
    unfold table? at ih ⊢
    rw [ofEntries_concat, tables_add, filter_append, head?_append, Option.map_or, ← ih]
    simp only [← Keyed.lookup_eq_none_iff]
    cases hnames : namesTable e with
    | false => simp [hnames]
    | true =>
      by_cases hkey : e.sourceTable.lower = source.lower
      · cases hlook : (ofEntries entries).tables.lookup source.lower <;>
          simp [hnames, hkey, hlook, lookup_append]
      · split_ifs <;> simp [hnames, hkey, lookup_append, lookup_cons, beq_false_of_ne (Ne.symm hkey)]

theorem columns_ofEntries (entries : List NameEntry) (newTable : Text) :
    ((ofEntries entries).columnsOf newTable).map (·.1) =
        ((entries.filter (namesColumn newTable)).map (·.sourceColumn.lower)).eraseDups ∧
      ∀ key, ((ofEntries entries).columnsOf newTable).lookup key =
        ((entries.filter fun e => namesColumn newTable e && e.sourceColumn.lower == key).getLast?).map
          fun e => ⟨e.sourceColumn, e.newColumn⟩ := by
  induction entries using List.reverseRecOn with
  | nil => exact ⟨rfl, fun _ => rfl⟩
  | append_singleton entries e ih =>
    rw [ofEntries_concat, columnsOf_add, filter_append]
    simp only [filter_append]
    cases hnames : namesColumn newTable e with
    | false => simpa [hnames] using ih
    | true =>
      refine ⟨?_, fun key => ?_⟩
      · rw [if_pos rfl, Keyed.keys_set, filter_singleton, hnames, cond_true, map_append,
          map_singleton, eraseDups_concat]
        simp only [ih.1, mem_eraseDups]
      · rw [if_pos rfl, Keyed.lookup_set, ih.2 key, getLast?_append]
        by_cases hkey : key = e.sourceColumn.lower
        · simp [hnames, hkey]
        · simp [hnames, hkey, Ne.symm hkey]

theorem longestFirst_sorted (ts : List Text) : (longestFirst ts).Perm ts ∧
    (longestFirst ts).Pairwise (fun a b => b.length ≤ a.length) ∧
      ∀ n, (longestFirst ts).filter (·.length == n) = ts.filter (·.length == n) := by
  have htrans : ∀ a b c : Text, decide (b.length ≤ a.length) → decide (c.length ≤ b.length) →
      decide (c.length ≤ a.length) := by
    simp only [decide_eq_true_eq]
    omega
  have htotal : ∀ a b : Text, (decide (b.length ≤ a.length) || decide (a.length ≤ b.length)) := by
    simp only [Bool.or_eq_true, decide_eq_true_eq]
    omega
  unfold longestFirst
  refine ⟨mergeSort_perm .., by simpa using pairwise_mergeSort htrans htotal ts, fun n => ?_⟩
  -- texts of one length are in order, so sorting keeps them in the order in which they were
  have hsame : (ts.filter (·.length == n)).Pairwise fun a b => decide (b.length ≤ a.length) :=
    pairwise_of_forall_mem_list (by simp +contextual)
  refine (List.Sublist.eq_of_length ?_ ?_).symm
  · simpa using (sublist_mergeSort htrans htotal hsame filter_sublist).filter (·.length == n)
  · exact ((mergeSort_perm ts _).filter _).length_eq.symm

theorem reflects_ofEntries (entries : List NameEntry) : (ofEntries entries).Reflects entries := by
  obtain ⟨hperm, hsorted, hties⟩ := longestFirst_sorted (tableKeys entries)
  rw [← keys_ofEntries] at hperm hties
  exact
    { table := table?_ofEntries entries
      columnKeys := fun newTable => (columns_ofEntries entries newTable).1
      column := fun newTable => (columns_ofEntries entries newTable).2
      once := ⟨nodup_eraseDups _, by rwa [← keys_ofEntries]⟩
      longest := by rwa [tableNames, keys_ofEntries]
      ties := by rwa [← keys_ofEntries] }

/-! ### Lines and fields -/

/-- A field that is on one line and not quoted. -/
def IsField (f : Text) : Prop := '\t' ∉ f ∧ '\r' ∉ f ∧ '\n' ∉ f ∧ f.head? ≠ some '"'

/-- The fields of a line. -/
def IsLine (line : List Text) : Prop := line ≠ [] ∧ ∀ f ∈ line, IsField f

instance (line : List Text) : Decidable (IsLine line) :=
  inferInstanceAs (Decidable (line ≠ [] ∧ ∀ f ∈ line, _ ∧ _))

/-- A line that consists of spaces. -/
def isBlankLine : List Text → Bool
  | [f] => f.all (· == ' ')
  | _ => false

/-- The text of a file: its lines with their ends, and a last line without one. -/
def fileText (lineEnd : Text) (lines : List (List Text)) (last : List Text) : Text :=
  (lines.flatMap fun line => Text.join ['\t'] line ++ lineEnd) ++ Text.join ['\t'] last

/-- The rows of the lines that are not blank, when some lines have been passed. -/
def rowsOf (passed : ℕ) : List (List Text) → List Row
  | [] => []
  | line :: lines => (if isBlankLine line then [] else [⟨passed + 1, line⟩]) ++ rowsOf (passed + 1) lines

theorem fields_rowsOf (lines : List (List Text)) (passed : ℕ) :
    (rowsOf passed lines).map (·.fields) = lines.filter fun line => !isBlankLine line := by
  induction lines generalizing passed with
  | nil => rfl
  | cons line lines ih =>
    rw [rowsOf, map_append, ih, filter_cons]
    cases isBlankLine line <;> rfl

namespace Reader

/-- The reader when it has read some fields of a line and part of the next one. -/
def within (rows : List Row) (passed : ℕ) (fields : List Text) (f : Text) : Reader where
  state := if f = [] then .start else .plain
  field := f.reverse
  fields := fields.reverse
  rows := rows
  passed := passed
  spaces := fields.isEmpty && f.all (· == ' ')

section

variable (rows : List Row) (passed : ℕ) (fields : List Text) {f : Text}

theorem step_within {c : Char} (htab : c ≠ '\t') (hreturn : c ≠ '\r') (hfeed : c ≠ '\n')
    (hquote : f = [] → c ≠ '"') :
    (within rows passed fields f).step c = within rows passed fields (f ++ [c]) := by
  unfold step within outside push
  by_cases hf : f = []
  · simp [hf, htab, hreturn, hfeed, hquote hf]
  · simp [hf, htab, hreturn, hfeed, Bool.and_assoc]

theorem step_tab (f : Text) :
    (within rows passed fields f).step '\t' = within rows passed (fields ++ [f]) [] := by
  unfold step within outside endField
  by_cases hf : f = []
  · simp [hf]
  · simp [hf]

theorem foldl_field (hf : IsField f) :
    f.foldl step (within rows passed fields []) = within rows passed fields f := by
  obtain ⟨htab, hreturn, hfeed, hfirst⟩ := hf
  induction f using List.reverseRecOn with
  | nil => rfl
  | append_singleton f c ih =>
    simp only [mem_append, mem_singleton, not_or] at htab hreturn hfeed
    rw [foldl_concat, ih htab.1 hreturn.1 hfeed.1 ?_,
      step_within _ _ _ (Ne.symm htab.2) (Ne.symm hreturn.2) (Ne.symm hfeed.2)]
    · rintro rfl
      simpa using hfirst
    · cases f <;> simp_all

theorem foldl_line (line : List Text) (last : Text) (hline : ∀ f ∈ line ++ [last], IsField f) :
    (Text.join ['\t'] (line ++ [last])).foldl step (within rows passed fields []) =
      within rows passed (fields ++ line) last := by
  induction line generalizing fields with
  | nil =>
    rw [append_nil]
    exact foldl_field rows passed fields (hline last (by simp))
  | cons f line ih =>
    have hjoin : Text.join ['\t'] (f :: (line ++ [last])) =
        f ++ '\t' :: Text.join ['\t'] (line ++ [last]) := by
      cases line <;> simp [Text.join]
    rw [cons_append, hjoin, foldl_append, foldl_field rows passed fields (hline f (by simp)),
      foldl_cons, step_tab, ih _ fun g hg => hline g (by simp_all)]
    simp

theorem endLine_within (line : List Text) (last : Text) : (within rows passed line last).endLine =
    within ((rowsOf passed [line ++ [last]]).reverse ++ rows) (passed + 1) [] [] := by
  have hspaces : (within rows passed line last).spaces = isBlankLine (line ++ [last]) := by
    rcases line with _ | ⟨f, _ | ⟨g, line⟩⟩ <;> rfl
  unfold endLine
  rw [hspaces, rowsOf]
  cases isBlankLine (line ++ [last]) with
  | true => rfl
  | false => simp [within, rowsOf]

theorem foldl_lineEnd {lineEnd : Text} (hend : lineEnd = ['\n'] ∨ lineEnd = ['\r', '\n']) (line : List Text)
    (last : Text) : lineEnd.foldl step (within rows passed line last) =
      within ((rowsOf passed [line ++ [last]]).reverse ++ rows) (passed + 1) [] [] := by
  have houtside : ∀ c, (within rows passed line last).step c = (within rows passed line last).outside c := by
    intro c
    unfold step within
    by_cases hlast : last = [] <;> simp [hlast]
  rw [← endLine_within]
  rcases hend with rfl | rfl
  · exact houtside '\n'
  · rw [foldl_cons, houtside]
    rfl

theorem finish_within (line : List Text) (last : Text) :
    (within rows passed line last).finish = rows.reverse ++ rowsOf passed [line ++ [last]] ∧
      (within rows passed line last).unclosed? = none := by
  have hstate : (within rows passed line last).state ≠ .quoted := by
    unfold within
    split_ifs <;> simp
  refine ⟨?_, if_neg hstate⟩
  unfold finish
  split_ifs with h
  · have hempty : line = [] ∧ last = [] := by
      simpa [hstate, within, and_comm] using (Bool.or_eq_true_iff.mp h).resolve_left (by simpa using hstate)
    rw [hempty.1, hempty.2]
    exact (append_nil _).symm
  · rw [endLine_within, within, reverse_append, reverse_reverse]

/-- **The rows of a file are its lines that are not blank.** -/
theorem finish_fileText {lineEnd : Text} (hend : lineEnd = ['\n'] ∨ lineEnd = ['\r', '\n'])
    {lines : List (List Text)} {last : List Text} (hlines : ∀ line ∈ lines ++ [last], IsLine line) :
    ((fileText lineEnd lines last).foldl step (within rows passed [] [])).finish =
        rows.reverse ++ rowsOf passed (lines ++ [last]) ∧
      ((fileText lineEnd lines last).foldl step (within rows passed [] [])).unclosed? = none := by
  induction lines generalizing rows passed with
  | nil =>
    obtain ⟨hne, hfields⟩ := hlines last (by simp)
    obtain ⟨line, f, rfl⟩ := (eq_nil_or_concat' last).resolve_left hne
    rw [fileText, flatMap_nil, nil_append, foldl_line rows passed [] line f hfields]
    exact finish_within rows passed line f
  | cons line lines ih =>
    obtain ⟨hne, hfields⟩ := hlines line (by simp)
    obtain ⟨line, f, rfl⟩ := (eq_nil_or_concat' line).resolve_left hne
    rw [fileText, flatMap_cons, append_assoc, ← fileText, foldl_append, foldl_append,
      foldl_line rows passed [] line f hfields, nil_append, foldl_lineEnd rows passed hend]
    have hrest := ih ((rowsOf passed [line ++ [f]]).reverse ++ rows) (passed + 1)
      fun line' hline' => hlines line' (by simp_all)
    simpa [rowsOf] using hrest

end

end Reader

/-! ### The map of a file -/

theorem fillRows_eq {width : ℕ} : ∀ {rows : List Row}, (∀ row ∈ rows, row.fields.length = width) →
    fillRows width rows = .ok (rows.map (·.fields))
  | [], _ => rfl
  | row :: rows, h => by
    have hrow := h row (by simp)
    rw [fillRows, fillRows_eq fun row' hrow' => h row' (by simp [hrow'])]
    simp [hrow]

theorem tableOf_eq {rows : List Row} {header : List Text} {table : List (List Text)}
    (hrows : rows.map (·.fields) = header :: table) (hwidth : ∀ row ∈ table, row.length = header.length) :
    tableOf rows = .ok (header, table) := by
  rcases rows with _ | ⟨first, _ | ⟨second, rows⟩⟩
  · cases hrows
  · cases hrows
    rfl
  · cases hrows
    have hsecond := hwidth second.fields (by simp)
    rw [tableOf]
    dsimp only
    rw [hsecond, Nat.max_self, fillRows_eq fun row hrow =>
      hwidth row.fields (mem_cons_of_mem _ (mem_map_of_mem hrow))]
    simp [Except.map]

/-- The field of a row under a column, without the blanks around it. -/
def cell (header row : List Text) (column : Text) : Text := (row.getD (header.idxOf column) []).trim

theorem field_eq {header : List Text} {column : Text} (h : column ∈ header) (row : List Text) :
    field header row column = cell header row column := by
  unfold field cell
  congr 1
  induction header generalizing row with
  | nil => cases h
  | cons name header ih =>
    cases row with
    | nil => rfl
    | cons f row =>
      rw [zip_cons_cons, lookup_cons, idxOf_cons]
      by_cases hname : name = column
      · simp [hname]
      · have hcolumn : column ∈ header := (mem_cons.mp h).resolve_left (Ne.symm hname)
        simpa [beq_false_of_ne hname, beq_false_of_ne (Ne.symm hname)] using ih hcolumn row

/-- The entry that a row writes. -/
def writtenEntry (header row : List Text) : NameEntry where
  sourceTable := cell header row "SourceTable".toList
  sourceColumn := cell header row "SourceName".toList
  schema := cell header row "Schema".toList
  newTable := cell header row "NewTable".toList
  newColumn := cell header row "NewName".toList

theorem entryOf_eq {header : List Text} (h : ∀ column ∈ columnNames, column ∈ header) (row : List Text) :
    entryOf header row = writtenEntry header row := by
  unfold entryOf writtenEntry
  congr 1 <;> exact field_eq (h _ (by decide)) row

end NameMap

end SqlRoutine

import SqlRoutine.Proofs.Code.Quoting
import SqlRoutine.Proofs.Rename.Blocks
import SqlRoutine.Proofs.Text.Word

/-! # Table references in a line of words

A reference has many readings, since each of its brackets may be passed or not. Where the names are
identifiers, the first reading can be told at once (`head?_references_run`): an opening bracket is passed
if it is there, a name has to be a whole run of word characters, and a closing bracket is passed if it is
there and the next word does not start right behind it.

In a line of ASCII characters without square brackets, where all names are identifiers (`WordNames`), a
table reference is **one word, or two with a dot between them** (`finder_word`). Such a line is a
sequence of pieces: signs, words and table references (`Scanned`, `exists_scanned`), and the finder of
tables finds the references and nothing else (`segmentsFrom_finder`).

Two lines are **similar** if they differ only in the names that references have, and in words that are
neither names of schemas or tables nor words of control flow. Similar lines belong to blocks in the same
way (`sameLine_of_similar`). -/

namespace SqlRoutine.Renaming

open Text
open List hiding find?

variable {c : Char} {prev : Option Char} {schema : Option Text} {p : Piece} {rest t table u w : Text}
  {α : Type}

variable {r : Renaming}

/-! ### The first reading -/

/-- The text behind the character, if it starts with it. -/
def behind (c : Char) (t : Text) : Text := (char? c t).getD t

/-- The text behind a table: a closing bracket belongs to the table unless a word goes on behind it. -/
def behindTable (t : Text) : Text := ((char? ']' t).filter atWordEnd).getD t

/-- One of the names spells the word. -/
def isSpelled (names : List Text) (w : Text) : Bool := names.any fun k => decide (Spells k w)

/-- The table that the text starts with, in brackets or not: its name and the text behind it. -/
def tableHere (tables : List Text) (t : Text) : Option (Text × Text) :=
  let name := (behind '[' t).takeWhile isWord
  if isSpelled tables name then some (name, behindTable ((behind '[' t).dropWhile isWord)) else none

/-- The text behind the schema that the text starts with, and behind a dot. -/
def schemaHere (schemas : List Text) (t : Text) : Option Text :=
  if isSpelled schemas ((behind '[' t).takeWhile isWord) then
    char? '.' (behind ']' ((behind '[' t).dropWhile isWord))
  else none

theorem isSpelled_iff {names : List Text} : isSpelled names w ↔ ∃ k ∈ names, Spells k w := by
  simp [isSpelled]

theorem isSpelled_cons (k : Text) (names : List Text) (w : Text) :
    isSpelled (k :: names) w = (decide (Spells k w) || isSpelled names w) := rfl

section

variable {names : List Text} (hnames : ∀ k ∈ names, isIdentifier k)
include hnames

theorem isSpelled_nil : isSpelled names [] = false := by
  rw [← Bool.not_eq_true, isSpelled_iff]
  rintro ⟨k, hk, hspells⟩
  have hlength := length_of_spells hspells
  exact (isIdentifier_iff.mp (hnames k hk)).1 (length_eq_zero_iff.mp hlength.symm)

theorem all_isWord_of_isSpelled (h : isSpelled names w) : w ≠ [] ∧ w.all isWord := by
  obtain ⟨k, hk, hspells⟩ := isSpelled_iff.mp h
  refine ⟨?_, all_isWord_of_spells (isIdentifier_iff.mp (hnames k hk)).2 hspells⟩
  rintro rfl
  rw [isSpelled_nil hnames] at h
  cases h

/-- **The first way to go on after one of the names** is after the name that spells the whole run. -/
theorem head?_flatMap_passAny {next : Text → List α}
    (hnext : ∀ c t, isWord c → next (c :: t) = []) (t : Text) :
    ((passAny names t).flatMap next).head? =
      if isSpelled names (t.takeWhile isWord) then (next (t.dropWhile isWord)).head? else none := by
  have hrefuses : Refuses fun rest => (next rest).head? := by
    intro c t hc
    dsimp only
    rw [hnext c t hc]
    rfl
  induction names with
  | nil => rfl
  | cons k names ih =>
    have hk := keyword?_bind_run hrefuses (isIdentifier_iff.mp (hnames k mem_cons_self)).2 t
    have hrest := ih fun l hl => hnames l (mem_cons_of_mem k hl)
    have hfirst : ((passAny (k :: names) t).flatMap next).head? =
        ((keyword? k t).bind fun rest => (next rest).head?).or
          ((passAny names t).flatMap next).head? := by
      rw [passAny, filterMap_cons]
      cases keyword? k t with
      | none => rfl
      | some rest => rw [flatMap_cons, head?_append]; rfl
    rw [hfirst, hk, hrest, isSpelled_cons]
    by_cases hspells : Spells k (t.takeWhile isWord)
    · rw [if_pos hspells, decide_eq_true hspells, Bool.true_or, if_pos rfl]
      split_ifs
      · exact Option.or_self
      · exact Option.or_none
    · rw [if_neg hspells, decide_eq_false hspells, Bool.false_or, Option.none_or]

end

/-- An opening bracket is passed, if no name starts with one. -/
theorem head?_flatMap_optionally {next : Text → List α}
    (hnext : ∀ t, (next (c :: t)).head? = none) (t : Text) :
    ((optionally c t).flatMap next).head? = (next (behind c t)).head? := by
  unfold optionally behind
  cases hchar : char? c t with
  | none => simp
  | some rest =>
    have hnone := hnext rest
    rw [← char?_eq_some_iff.mp hchar] at hnone
    simp [hnone]

section

variable {schemas tables : List Text}

theorem char?_of_word {d : Char} (hc : isWord c = false) (hd : isWord d) (t : Text) :
    char? c (d :: t) = none := refuses_char? hc d t hd

theorem head?_filter_optionally {rest : Text} (h : atWordEnd rest) :
    ((optionally ']' rest).filter atWordEnd).head? = some (behindTable rest) := by
  unfold optionally behindTable
  cases char? ']' rest with
  | none => simp [h]
  | some z =>
    by_cases hz : atWordEnd z
    · simp [hz, Option.filter_some]
    · simp [hz, h, Option.filter_some]

/-- The readings of a table without a schema. -/
def tableReadings (tables : List Text) (t : Text) : List (Text × Text) :=
  (optionally '[' t).flatMap fun t => (passAny tables t).flatMap fun rest =>
    ((optionally ']' rest).filter atWordEnd).map (readBefore rest t, ·)

theorem head?_tableReadings (htables : ∀ k ∈ tables, isIdentifier k) (t : Text) :
    (tableReadings tables t).head? = tableHere tables t := by
  have hnext : ∀ (u : Text) (c : Char) (z : Text), isWord c →
      ((optionally ']' (c :: z)).filter atWordEnd).map (readBefore (c :: z) u, ·) = [] := by
    intro u c z hc
    simp [optionally, char?_of_word (show isWord ']' = false by decide) hc, atWordEnd, hc]
  rw [tableReadings, head?_flatMap_optionally fun z => ?_, head?_flatMap_passAny htables (hnext _),
    tableHere]
  · have hread := readBefore_append ((behind '[' t).takeWhile isWord)
      ((behind '[' t).dropWhile isWord)
    rw [takeWhile_append_dropWhile] at hread
    rw [head?_map, head?_filter_optionally (atWordEnd_dropWhile _), hread]
    rfl
  · rw [head?_flatMap_passAny htables (hnext _), takeWhile_cons_of_neg (by decide),
      isSpelled_nil htables]
    rfl

theorem head?_schemas (htables : ∀ k ∈ tables, isIdentifier k) (rest : Text) :
    (((optionally ']' rest).filterMap (char? '.')).flatMap (tableReadings tables)).head? =
      (char? '.' (behind ']' rest)).bind (tableHere tables) := by
  rw [filterMap_eq_flatMap_toList, flatMap_assoc, head?_flatMap_optionally fun z => rfl]
  cases char? '.' (behind ']' rest) with
  | none => rfl
  | some z => rw [Option.toList_some, flatMap_singleton, head?_tableReadings htables]; rfl

/-- **The reading of a reference that counts**: with a schema if there is one, and without otherwise. -/
theorem head?_references_run (hschemas : ∀ k ∈ schemas, isIdentifier k)
    (htables : ∀ k ∈ tables, isIdentifier k) (t : Text) :
    (references schemas tables t).head? =
      ((schemaHere schemas t).bind (tableHere tables)).or (tableHere tables t) := by
  have hreferences : references schemas tables t =
      (passSchema schemas t).flatMap (tableReadings tables) ++ tableReadings tables t := by
    rw [references, flatMap_append, flatMap_singleton]
    rfl
  have hnext : ∀ (c : Char) (z : Text), isWord c →
      ((optionally ']' (c :: z)).filterMap (char? '.')).flatMap (tableReadings tables) = [] := by
    intro c z hc
    simp [optionally, char?_of_word (show isWord ']' = false by decide) hc,
      char?_of_word (show isWord '.' = false by decide) hc]
  rw [hreferences, head?_append, head?_tableReadings htables]
  congr 1
  simp only [passSchema, flatMap_assoc]
  rw [head?_flatMap_optionally fun z => ?_, head?_flatMap_passAny hschemas hnext, schemaHere,
    apply_ite (Option.bind · _)]
  · rw [head?_schemas htables]
    rfl
  · rw [head?_flatMap_passAny hschemas hnext, takeWhile_cons_of_neg (by decide),
      isSpelled_nil hschemas]
    rfl

end

/-- The names that are looked for are identifiers in lower case. -/
structure KeyNames (r : Renaming) : Prop where
  schemas : ∀ k ∈ r.schemas, isIdentifier k ∧ k.lower = k
  tables : ∀ k ∈ r.map.tableNames, isIdentifier k ∧ k.lower = k

theorem finder_eq (hr : r.KeyNames) (hprev : prev.any isQualifier = false) (t : Text) :
    r.finder prev t = ((schemaHere r.schemas t).bind (tableHere r.map.tableNames)).or
      (tableHere r.map.tableNames t) := by
  rw [finder, tableFinder, hprev, if_neg (by decide),
    head?_references_run (fun k hk => (hr.schemas k hk).1) fun k hk => (hr.tables k hk).1]

/-! ### References in words -/

/-- The text has no square brackets. -/
def Unbracketed (t : Text) : Prop := '[' ∉ t ∧ ']' ∉ t

theorem Unbracketed.of_append (h : Unbracketed (t ++ u)) : Unbracketed u :=
  ⟨fun hin => h.1 (mem_append_right t hin), fun hin => h.2 (mem_append_right t hin)⟩

/-- **The names are identifiers**, and those of schemas and those of tables are different. -/
structure WordNames (r : Renaming) : Prop extends KeyNames r where
  disjoint : ∀ k ∈ r.map.tableNames, k ∉ r.schemas

/-- The names are identifiers, and no name is a word of control flow. -/
structure PlainNames (r : Renaming) : Prop extends WordNames r where
  control : ∀ k ∈ boundaryWords, k.lower ∉ r.schemas ∧ k.lower ∉ r.map.tableNames

theorem isSpelled_iff_lower_mem {names : List Text}
    (hnames : ∀ k ∈ names, isIdentifier k ∧ k.lower = k) (hw : w.all isAsciiWord) :
    isSpelled names w ↔ w.lower ∈ names := by
  rw [isSpelled_iff]
  constructor
  · rintro ⟨k, hk, hspells⟩
    obtain ⟨hid, hlower⟩ := hnames k hk
    rwa [← (spells_iff_lower_eq (isIdentifier_iff.mp hid).2 hw).mp hspells, hlower]
  · intro hin
    obtain ⟨hid, hlower⟩ := hnames _ hin
    exact ⟨_, hin, (spells_iff_lower_eq (isIdentifier_iff.mp hid).2 hw).mpr hlower⟩

theorem char?_of_not_mem (h : c ∉ t) : char? c t = none := by
  cases hchar : char? c t with
  | none => rfl
  | some rest =>
    rw [char?_eq_some_iff.mp hchar] at h
    exact absurd mem_cons_self h

section

variable {names : List Text} (hnames : ∀ k ∈ names, isIdentifier k ∧ k.lower = k) {w z : Text}
  (hplain : Unbracketed (w ++ z)) (hw : w.all isAsciiWord) (hz : atSign z)
include hnames hplain hw hz

theorem tableHere_word :
    tableHere names (w ++ z) = if w.lower ∈ names then some (w, z) else none := by
  obtain ⟨htake, hdrop⟩ := run_of_atWordEnd (all_isWord_of_ascii hw) (atWordEnd_of_atSign hz)
  have hopening : behind '[' (w ++ z) = w ++ z := by rw [behind, char?_of_not_mem hplain.1]; rfl
  have hclosing : behindTable z = z := by
    rw [behindTable, char?_of_not_mem hplain.of_append.2]
    rfl
  rw [tableHere, hopening, htake, hdrop, hclosing]
  exact if_congr (isSpelled_iff_lower_mem hnames hw) rfl rfl

theorem schemaHere_word :
    schemaHere names (w ++ z) = if w.lower ∈ names then char? '.' z else none := by
  obtain ⟨htake, hdrop⟩ := run_of_atWordEnd (all_isWord_of_ascii hw) (atWordEnd_of_atSign hz)
  have hopening : behind '[' (w ++ z) = w ++ z := by rw [behind, char?_of_not_mem hplain.1]; rfl
  have hclosing : behind ']' z = z := by rw [behind, char?_of_not_mem hplain.of_append.2]; rfl
  rw [schemaHere, hopening, htake, hdrop, hclosing]
  exact if_congr (isSpelled_iff_lower_mem hnames hw) rfl rfl

end

section

variable {w z : Text}

/-- **A table reference in words**: a schema, a dot and a table, or a table alone. -/
theorem finder_word (hr : r.WordNames) (hprev : prev.any isQualifier = false)
    (hplain : Unbracketed (w ++ z)) (hw : w.all isAsciiWord) (hz : atSign z) :
    r.finder prev (w ++ z) =
      (if w.lower ∈ r.schemas then (char? '.' z).bind (tableHere r.map.tableNames) else none).or
        (if w.lower ∈ r.map.tableNames then some (w, z) else none) := by
  rw [finder_eq hr.toKeyNames hprev, tableHere_word hr.tables hplain hw hz,
    schemaHere_word hr.schemas hplain hw hz]
  split_ifs <;> rfl

theorem finder_of_qualifier (hprev : prev.any isQualifier) (t : Text) :
    r.finder prev t = none := by
  rw [finder, tableFinder, if_pos hprev]

theorem outsideWords_finder (r : Renaming) : OutsideWords r.finder := by
  intro prev t hprev
  cases prev with
  | none => cases hprev
  | some c =>
    refine finder_of_qualifier ?_ t
    rw [Option.any_some] at hprev ⊢
    simp [isQualifier, hprev]

end

/-! ### The pieces of a line -/

/-- A piece of a line. -/
inductive Piece where
  | sign (c : Char)
  | word (w : Text)
  /-- A reference to a table, perhaps with its schema. -/
  | reference (schema : Option Text) (table : Text)

/-- A piece as text. -/
def Piece.text : Piece → Text
  | sign c => [c]
  | word w => w
  | reference none table => table
  | reference (some schema) table => schema ++ '.' :: table

/-- The text of several pieces. -/
def write (pieces : List Piece) : Text := pieces.flatMap Piece.text

@[simp]
theorem write_nil : write [] = [] := rfl

@[simp]
theorem write_cons (p : Piece) (ps : List Piece) : write (p :: ps) = p.text ++ write ps := rfl

/-- The line is at its end, or goes on with a sign. -/
def apart : List Piece → Bool
  | [] => true
  | .sign _ :: _ => true
  | _ => false

/-- The word and what follows read as a schema and a table. -/
def Qualifies (r : Renaming) (w : Text) (ps : List Piece) : Prop :=
  w.lower ∈ r.schemas ∧
    ∃ table rest, ps = .sign '.' :: .word table :: rest ∧ table.lower ∈ r.map.tableNames

/-- The names of a reference. -/
structure Names (r : Renaming) (schema : Option Text) (table : Text) : Prop where
  schema : ∀ s ∈ schema, isIdentifier s ∧ s.lower ∈ r.schemas
  isIdentifier : isIdentifier table
  table : table.lower ∈ r.map.tableNames

/-- **The pieces of a line** after the character `prev`; after a word, whatever its last character is,
that is `_`. What reads as a table reference is one, unless the character before it prevents it. -/
inductive Scanned (r : Renaming) : Option Char → List Piece → Prop
  | nil (prev : Option Char) : Scanned r prev []
  | sign {prev : Option Char} {c : Char} {ps : List Piece} (ascii : isAscii c)
      (sign : isWord c = false) (opening : c ≠ '[') (closing : c ≠ ']')
      (rest : Scanned r (some c) ps) : Scanned r prev (.sign c :: ps)
  | word {prev : Option Char} {w : Text} {ps : List Piece} (isIdentifier : isIdentifier w)
      (start : atWordStart prev) (next : apart ps)
      (other : prev.any isQualifier = false → w.lower ∉ r.map.tableNames ∧ ¬r.Qualifies w ps)
      (rest : Scanned r (some '_') ps) : Scanned r prev (.word w :: ps)
  | reference {prev : Option Char} {schema : Option Text} {table : Text} {ps : List Piece}
      (start : prev.any isQualifier = false) (names : r.Names schema table) (next : apart ps)
      (rest : Scanned r (some '_') ps) : Scanned r prev (.reference schema table :: ps)

namespace Scanned

variable {prev : Option Char} {ps : List Piece}

theorem atSign_write (h : Scanned r prev ps) (hapart : apart ps) :
    atSign (write ps) := by
  cases h with
  | nil => rfl
  | sign ascii sign => simp [Piece.text, atSign, ascii, sign]
  | word => cases hapart
  | reference => cases hapart

theorem unbracketed_identifier (h : isIdentifier w) : Unbracketed w := by
  have hall := all_eq_true.mp (isIdentifier_iff.mp h).2
  exact ⟨fun hin => absurd (hall _ hin) (by decide), fun hin => absurd (hall _ hin) (by decide)⟩

theorem unbracketed_reference (h : r.Names schema table) :
    Unbracketed (Piece.reference schema table).text := by
  have htable := unbracketed_identifier h.isIdentifier
  cases schema with
  | none => exact htable
  | some s =>
    have hschema := unbracketed_identifier (h.schema s rfl).1
    exact ⟨by simp [Piece.text, hschema.1, htable.1], by simp [Piece.text, hschema.2, htable.2]⟩

theorem unbracketed_append (ht : Unbracketed t) (hu : Unbracketed u) :
    Unbracketed (t ++ u) :=
  ⟨by simp [ht.1, hu.1], by simp [ht.2, hu.2]⟩

theorem unbracketed_write (h : Scanned r prev ps) : Unbracketed (write ps) := by
  induction h with
  | nil => exact ⟨by simp, by simp⟩
  | sign _ _ opening closing _ ih =>
    exact unbracketed_append ⟨by simp [Piece.text, opening.symm], by simp [Piece.text, closing.symm]⟩ ih
  | word isIdentifier _ _ _ _ ih => exact unbracketed_append (unbracketed_identifier isIdentifier) ih
  | reference _ names _ _ ih => exact unbracketed_append (unbracketed_reference names) ih

theorem apart_of_atWordEnd (h : Scanned r prev ps) (hend : atWordEnd (write ps)) :
    apart ps := by
  cases h with
  | nil => rfl
  | sign => rfl
  | word isIdentifier =>
    obtain ⟨c, cs, rfl, hc⟩ := exists_cons_of_identifier isIdentifier
    simp [Piece.text, atWordEnd, hc] at hend
  | @reference _ schema table _ _ names =>
    cases schema with
    | none =>
      obtain ⟨c, cs, rfl, hc⟩ := exists_cons_of_identifier names.isIdentifier
      simp [Piece.text, atWordEnd, hc] at hend
    | some s =>
      obtain ⟨c, cs, rfl, hc⟩ := exists_cons_of_identifier (names.schema s rfl).1
      simp [Piece.text, atWordEnd, hc] at hend

/-- A word in front of pieces is a piece, or the start of one. -/
theorem exists_of_word (h : Scanned r (some '_') ps) (hw : isIdentifier w)
    (hstart : atWordStart prev) (hnext : apart ps) :
    ∃ ps', Scanned r prev ps' ∧ write ps' = w ++ write ps := by
  by_cases hprev : prev.any isQualifier
  · exact ⟨_, .word hw hstart hnext (fun hno => by rw [hprev] at hno; cases hno) h, rfl⟩
  · rw [Bool.not_eq_true] at hprev
    by_cases hqualifies : r.Qualifies w ps
    · obtain ⟨hschema, table, rest, rfl, htable⟩ := hqualifies
      cases h with
      | sign _ _ _ _ hword =>
        cases hword with
        | word htableId _ hrest _ hscanned =>
          have hnames : r.Names (some w) table := by
            refine ⟨?_, htableId, htable⟩
            rintro s ⟨⟩
            exact ⟨hw, hschema⟩
          exact ⟨_, .reference hprev hnames hrest hscanned, by simp [Piece.text]⟩
    · by_cases htable : w.lower ∈ r.map.tableNames
      · have hnames : r.Names none w := ⟨nofun, hw, htable⟩
        exact ⟨_, .reference hprev hnames hnext h, rfl⟩
      · exact ⟨_, .word hw hstart hnext (fun _ => ⟨htable, hqualifies⟩) h, rfl⟩

end Scanned

/-- **A line in ASCII without brackets is a sequence of pieces.** -/
theorem exists_scanned (r : Renaming) (t : Text) (hascii : t.all isAscii)
    (hplain : Unbracketed t) (prev : Option Char)
    (hprev : atWordStart prev ∨ atWordEnd t) :
    ∃ ps, Scanned r prev ps ∧ write ps = t := by
  induction hn : t.length using Nat.strong_induction_on generalizing prev t with
  | _ n ih =>
    subst hn
    rcases t with _ | ⟨c, cs⟩
    · exact ⟨[], .nil prev, rfl⟩
    · by_cases hc : isWord c
      · have hstart : atWordStart prev := by
          refine hprev.resolve_right ?_
          simp [atWordEnd, hc]
        obtain ⟨w, z, hsplit, hid, hend⟩ := exists_identifier hascii hc
        have hlength : z.length < (c :: cs).length := by
          have := length_pos_iff.mpr (isIdentifier_iff.mp hid).1
          rw [hsplit, length_append]
          omega
        rw [hsplit] at hascii hplain ⊢
        rw [all_append, Bool.and_eq_true] at hascii
        obtain ⟨ps, hps, rfl⟩ := ih z.length hlength z hascii.2 hplain.of_append (some '_') (.inr hend) rfl
        exact hps.exists_of_word hid hstart (hps.apart_of_atWordEnd hend)
      · rw [Bool.not_eq_true] at hc
        rw [all_cons, Bool.and_eq_true] at hascii
        have hstart : atWordStart (some c) := by simp [atWordStart, hc]
        obtain ⟨ps, hps, rfl⟩ := ih cs.length (by simp) cs hascii.2 (hplain.of_append (t := [c]))
          (some c) (.inl hstart) rfl
        refine ⟨.sign c :: ps, .sign hascii.1 hc ?_ ?_ hps, rfl⟩
        · rintro rfl
          exact hplain.1 mem_cons_self
        · rintro rfl
          exact hplain.2 mem_cons_self

/-! ### What is found -/

/-- What the finder of tables makes of a piece. -/
def Piece.segments : Piece → List (Char ⊕ Text)
  | sign c => [.inl c]
  | word w => w.map .inl
  | reference _ table => [.inr table]

namespace Scanned

variable {prev : Option Char} {ps : List Piece}

theorem finder_sign (hr : r.WordNames) (h : Scanned r prev (.sign c :: ps)) :
    r.finder prev (write (.sign c :: ps)) = none := by
  by_cases hprev : prev.any isQualifier
  · exact finder_of_qualifier hprev _
  · rw [Bool.not_eq_true] at hprev
    have hempty : ∀ l : List Text, (∀ k ∈ l, isIdentifier k ∧ k.lower = k) →
        lower [] ∉ l := fun l hl hin => absurd (hl _ hin).1 (by decide)
    have hfinder := finder_word hr (w := []) hprev h.unbracketed_write rfl (h.atSign_write rfl)
    rwa [if_neg (hempty _ hr.schemas), if_neg (hempty _ hr.tables)] at hfinder

/-- Behind a dot a table is found just when it is the next word. -/
theorem tableHere_write (hr : r.WordNames) (h : Scanned r (some '.') ps) {found : Text × Text}
    (hfound : tableHere r.map.tableNames (write ps) = some found) :
    ∃ table rest, ps = .word table :: rest ∧ table.lower ∈ r.map.tableNames := by
  have hempty : lower [] ∉ r.map.tableNames := fun hin =>
    absurd (hr.tables _ hin).1 (by decide)
  have hplain := h.unbracketed_write
  cases h with
  | nil =>
    have hnone := tableHere_word hr.tables (w := []) (z := []) hplain rfl rfl
    rw [if_neg hempty] at hnone
    exact absurd (hnone.symm.trans hfound) nofun
  | @sign _ c ps ascii sign opening closing rest =>
    have hsign : Scanned r none (.sign c :: ps) := .sign ascii sign opening closing rest
    have hnone := tableHere_word hr.tables (w := []) (z := write (.sign c :: ps)) hplain rfl
      (hsign.atSign_write rfl)
    rw [if_neg hempty] at hnone
    exact absurd (hnone.symm.trans hfound) nofun
  | @word _ w ps isIdentifier _ next _ rest =>
    have hword := tableHere_word hr.tables (w := w) hplain (isIdentifier_iff.mp isIdentifier).2
      (rest.atSign_write next)
    refine ⟨w, ps, rfl, ?_⟩
    by_contra hno
    rw [if_neg hno] at hword
    exact absurd (hword.symm.trans hfound) nofun
  | reference start => cases start

theorem finder_other (hr : r.WordNames) (h : Scanned r prev (.word w :: ps)) :
    r.finder prev (w ++ write ps) = none := by
  by_cases hprev : prev.any isQualifier
  · exact finder_of_qualifier hprev _
  · rw [Bool.not_eq_true] at hprev
    have hplain : Unbracketed (w ++ write ps) := h.unbracketed_write
    cases h with
    | word isIdentifier start next other rest =>
      obtain ⟨htable, hqualifies⟩ := other hprev
      have hschema : w.lower ∈ r.schemas →
          (char? '.' (write ps)).bind (tableHere r.map.tableNames) = none := by
        intro hin
        cases rest with
        | nil => rfl
        | @sign _ c ps _ _ _ _ rest =>
          by_cases hdot : c = '.'
          · subst hdot
            cases hfound : tableHere r.map.tableNames (write ps) with
            | none => exact hfound
            | some found =>
              obtain ⟨table, rest', rfl, hmem⟩ := rest.tableHere_write hr hfound
              exact absurd ⟨hin, table, rest', rfl, hmem⟩ hqualifies
          · simp [Piece.text, char?, hdot]
        | word => cases next
        | reference => cases next
      rw [finder_word hr hprev hplain (isIdentifier_iff.mp isIdentifier).2 (rest.atSign_write next),
        if_neg htable, Option.or_none]
      split_ifs with hin
      · exact hschema hin
      · rfl

theorem finder_reference (hr : r.WordNames) (h : Scanned r prev (.reference schema table :: ps)) :
    r.finder prev ((Piece.reference schema table).text ++ write ps) = some (table, write ps) := by
  have hplain := h.unbracketed_write
  cases h with
  | reference start names next rest =>
    cases schema with
    | none =>
      have hplain : Unbracketed (table ++ write ps) := hplain
      change r.finder prev (table ++ write ps) = _
      rw [finder_word hr start hplain (isIdentifier_iff.mp names.isIdentifier).2
        (rest.atSign_write next), if_neg (hr.disjoint _ names.table), if_pos names.table]
      rfl
    | some s =>
      obtain ⟨hid, hin⟩ := names.schema s rfl
      have htext : (Piece.reference (some s) table).text ++ write ps =
          s ++ '.' :: (table ++ write ps) := by simp [Piece.text]
      rw [write_cons, htext] at hplain
      have htable := tableHere_word hr.tables (hplain.of_append (t := s) |>.of_append (t := ['.']))
        (isIdentifier_iff.mp names.isIdentifier).2 (rest.atSign_write next)
      rw [if_pos names.table] at htable
      rw [htext, finder_word hr start hplain (isIdentifier_iff.mp hid).2 rfl, if_pos hin]
      simp [char?, htable]

theorem getLast?_reference (h : r.Names schema table) :
    (Piece.reference schema table).text.getLast?.any isWord := by
  have hlast := getLast?_identifier h.isIdentifier
  cases schema with
  | none => exact hlast
  | some s =>
    rw [Piece.text, getLast?_append, getLast?_cons_or]
    cases hl : table.getLast? with
    | none => rw [hl] at hlast; cases hlast
    | some c => rwa [hl] at hlast

/-- **The references are found and nothing else.** -/
theorem segmentsFrom_finder (hr : r.WordNames) (h : Scanned r prev ps) :
    segmentsFrom r.finder prev 0 (write ps) = ps.flatMap Piece.segments := by
  induction h with
  | nil => rfl
  | @sign prev c ps ascii sign opening closing rest ih =>
    have hsign : Scanned r prev (.sign c :: ps) := .sign ascii sign opening closing rest
    have hnone := finder_sign hr hsign
    rw [flatMap_cons, ← ih]
    simp only [write_cons, Piece.text, cons_append, nil_append] at hnone ⊢
    rw [segmentsFrom, hnone]
    rfl
  | @word prev w ps isIdentifier start next other rest ih =>
    rw [flatMap_cons, ← ih]
    exact segmentsFrom_word (outsideWords_finder r) isIdentifier
      (finder_other hr (.word isIdentifier start next other rest))
  | @reference prev schema table ps start names next rest ih =>
    rw [flatMap_cons, ← ih]
    exact segmentsFrom_found (outsideWords_finder r) (getLast?_reference names)
      (finder_reference hr (.reference start names next rest))

end Scanned

/-! ### Similar lines -/

/-- The word is neither a schema nor a table nor a word of control flow. -/
def IsOther (r : Renaming) (w : Text) : Prop :=
  w.lower ∉ r.schemas ∧ w.lower ∉ r.map.tableNames ∧ w.lower ∉ boundaryWords.map lower

/-- **Similar pieces**: a reference may have other names, and a word that is no name may be another. -/
inductive Similar (r : Renaming) : Piece → Piece → Prop
  | sign (c : Char) : Similar r (.sign c) (.sign c)
  | same (w : Text) : Similar r (.word w) (.word w)
  | word {w w' : Text} (isIdentifier : isIdentifier w') (left : r.IsOther w)
      (right : r.IsOther w') : Similar r (.word w) (.word w')
  | reference {schema schema' : Option Text} {table table' : Text} (names : r.Names schema' table') :
      Similar r (.reference schema table) (.reference schema' table')

section

variable {prev : Option Char} {ps ps' : List Piece}

theorem apart_of_similar (h : List.Forall₂ (Similar r) ps ps') : apart ps' = apart ps := by
  cases h with
  | nil => rfl
  | cons hp _ => cases hp <;> rfl

theorem qualifies_of_similar (h : List.Forall₂ (Similar r) ps ps')
    (hqualifies : r.Qualifies w ps') : r.Qualifies w ps := by
  obtain ⟨hschema, table, rest, rfl, htable⟩ := hqualifies
  obtain ⟨p, qs, hp, hqs, rfl⟩ := forall₂_cons_right_iff.mp h
  obtain ⟨q, qs, hq, -, rfl⟩ := forall₂_cons_right_iff.mp hqs
  cases hp
  cases hq with
  | same => exact ⟨hschema, table, qs, rfl, htable⟩
  | word _ _ right => exact absurd htable right.2.1

/-- **Similar pieces are the pieces of a line too.** -/
theorem Scanned.similar (h : Scanned r prev ps) :
    ∀ {ps'}, List.Forall₂ (Similar r) ps ps' → Scanned r prev ps' := by
  induction h with
  | nil prev =>
    intro ps' hs
    rw [forall₂_nil_left_iff.mp hs]
    exact .nil prev
  | sign ascii sign opening closing _ ih =>
    intro ps' hs
    obtain ⟨p', qs, hp, hqs, rfl⟩ := forall₂_cons_left_iff.mp hs
    cases hp
    exact .sign ascii sign opening closing (ih hqs)
  | word isIdentifier start next other _ ih =>
    intro ps' hs
    obtain ⟨p', qs, hp, hqs, rfl⟩ := forall₂_cons_left_iff.mp hs
    rw [← apart_of_similar hqs] at next
    cases hp with
    | same =>
      refine .word isIdentifier start next (fun hprev => ?_) (ih hqs)
      exact (other hprev).imp_right fun hno hqualifies => hno (qualifies_of_similar hqs hqualifies)
    | word isIdentifier' _ right =>
      exact .word isIdentifier' start next (fun _ => ⟨right.2.1, fun hqualifies => right.1 hqualifies.1⟩)
        (ih hqs)
  | reference start _ next _ ih =>
    intro ps' hs
    obtain ⟨p', qs, hp, hqs, rfl⟩ := forall₂_cons_left_iff.mp hs
    rw [← apart_of_similar hqs] at next
    cases hp with
    | reference names => exact .reference start names next (ih hqs)

/-! ### Similar lines in blocks -/

/-- **Two lines belong to blocks in the same way.** -/
structure SameLine (mentions : Text → Bool) (a b : Text) : Prop where
  mentions : mentions b = mentions a
  isCommentOnly : Code.isCommentOnly b = Code.isCommentOnly a
  isInner : ∀ comments, isInner comments b = isInner comments a

theorem isSome_findFrom (find : Finder Text) : ∀ (t : Text) (prev : Option Char) (position : ℕ),
    (findFrom find prev position t).isSome = (segmentsFrom find prev 0 t).any Sum.isRight
  | [], _, _ => rfl
  | c :: cs, prev, position => by
    rw [findFrom, segmentsFrom]
    cases find prev (c :: cs) with
    | none => exact isSome_findFrom find cs (some c) (position + 1)
    | some found => rfl

/-- The piece is a table reference. -/
def Piece.isReference : Piece → Bool
  | reference _ _ => true
  | _ => false

theorem any_isRight_segments (p : Piece) : p.segments.any Sum.isRight = p.isReference := by
  cases p with
  | word w => simp [Piece.segments, Piece.isReference]
  | _ => rfl

theorem mentionsTable_write (hr : r.WordNames) (h : Scanned r none ps) :
    r.mentionsTable (write ps) = ps.any Piece.isReference := by
  rw [mentionsTable, find?, isSome_findFrom, h.segmentsFrom_finder hr, any_flatMap]
  simp only [any_isRight_segments]

theorem any_isReference_of_similar (h : List.Forall₂ (Similar r) ps ps') :
    ps'.any Piece.isReference = ps.any Piece.isReference := by
  induction h with
  | nil => rfl
  | cons hp _ ih =>
    rw [any_cons, any_cons, ih]
    cases hp <;> rfl

/-- The first word of a piece. -/
def Piece.first : Piece → Text
  | sign _ => []
  | word w => w
  | reference none table => table
  | reference (some schema) _ => schema

/-- A line starts with the first word of its first piece. -/
theorem Scanned.exists_first (h : Scanned r prev (p :: ps)) :
    p.first.all isAsciiWord ∧
      ∃ z, write (p :: ps) = p.first ++ z ∧ atSign z := by
  have hall : ∀ {w : Text}, isIdentifier w → w.all isAsciiWord :=
    fun hw => (isIdentifier_iff.mp hw).2
  have hsign := fun c (hp : p = .sign c) => h.atSign_write (by rw [hp]; rfl)
  cases h with
  | @sign _ c => exact ⟨rfl, _, rfl, hsign c rfl⟩
  | word isIdentifier _ next _ rest => exact ⟨hall isIdentifier, _, rfl, rest.atSign_write next⟩
  | @reference _ schema table _ _ names next rest =>
    cases schema with
    | none => exact ⟨hall names.isIdentifier, _, rfl, rest.atSign_write next⟩
    | some s =>
      exact ⟨hall (names.schema s rfl).1, '.' :: (table ++ write ps), by simp [Piece.text, Piece.first],
        rfl⟩

theorem startsControl_eq (h : Scanned r prev (p :: ps)) {line : Text}
    (htrim : line.trimStart = write (p :: ps)) :
    startsControl line = boundaryWords.any fun k => decide (k.lower = p.first.lower) := by
  obtain ⟨hall, z, hz, hsign⟩ := h.exists_first
  have hword : ∀ k ∈ boundaryWords, k.all isAsciiWord := by decide
  rw [startsControl, htrim, hz, Bool.eq_iff_iff, any_eq_true, any_eq_true]
  refine exists_congr fun k => and_congr_right fun hk => ?_
  rw [word?_word (hword k hk) hall hsign, decide_eq_true_eq]
  split_ifs with heq <;> simp [heq]

theorem control_of_not_mem (h : w.lower ∉ boundaryWords.map lower) :
    (boundaryWords.any fun k => decide (k.lower = w.lower)) = false := by
  rw [any_eq_false]
  intro k hk heq
  exact h (mem_map.mpr ⟨k, hk, of_decide_eq_true heq⟩)

theorem Names.control (hr : r.PlainNames) (h : r.Names schema table) :
    (boundaryWords.any fun k => decide (k.lower = (Piece.reference schema table).first.lower)) =
      false := by
  refine control_of_not_mem fun hin => ?_
  obtain ⟨k, hk, heq⟩ := mem_map.mp hin
  obtain ⟨hschema, htable⟩ := hr.control k hk
  rw [heq] at hschema htable
  cases schema with
  | none => exact htable h.table
  | some s => exact hschema (h.schema s rfl).2

/-- Similar pieces start with words of control flow together. -/
theorem control_of_similar (hr : r.PlainNames) {p' : Piece} (h : Scanned r prev (p :: ps))
    (hp : Similar r p p') :
    (boundaryWords.any fun k => decide (k.lower = p'.first.lower)) =
      boundaryWords.any fun k => decide (k.lower = p.first.lower) := by
  cases hp with
  | sign => rfl
  | same => rfl
  | word _ left right =>
    exact (control_of_not_mem right.2.2).trans (control_of_not_mem left.2.2).symm
  | reference names' =>
    cases h with
    | reference _ names => exact (names'.control hr).trans (names.control hr).symm

theorem isIdentifier_first (h : r.Names schema table) :
    isIdentifier (Piece.reference schema table).first := by
  cases schema with
  | none => exact h.isIdentifier
  | some s => exact (h.schema s rfl).1

theorem Scanned.head?_write (h : Scanned r prev ps) (hc : isWord c = false) :
    (write ps).head? = some c ↔ ps.head? = some (.sign c) := by
  have hword : ∀ {p : Piece} {ps : List Piece}, Scanned r prev (p :: ps) →
      isIdentifier p.first → (write (p :: ps)).head? ≠ some c := by
    intro p ps h hp heq
    obtain ⟨-, z, hz, -⟩ := h.exists_first
    obtain ⟨d, ds, hfirst, hd⟩ := exists_cons_of_identifier hp
    rw [hz, hfirst, cons_append, head?_cons, Option.some.injEq] at heq
    rw [heq, hc] at hd
    cases hd
  cases h with
  | nil => simp
  | sign => simp [Piece.text]
  | word isIdentifier start next other rest =>
    refine iff_of_false (hword (.word isIdentifier start next other rest) isIdentifier) (by simp)
  | reference start names next rest =>
    refine iff_of_false (hword (.reference start names next rest) (isIdentifier_first names)) (by simp)

theorem head?_of_similar (h : List.Forall₂ (Similar r) ps ps') (c : Char) :
    ps'.head? = some (.sign c) ↔ ps.head? = some (.sign c) := by
  cases h with
  | nil => rfl
  | cons hp _ => cases hp <;> simp

theorem startsWith_dashes_iff :
    t.startsWith ['-', '-'] ↔ t.head? = some '-' ∧ t.tail.head? = some '-' := by
  cases t with
  | nil => decide
  | cons c t => rw [Code.startsWith_dashes, head?_cons, tail_cons, Option.some.injEq]

theorem isCommentOnly_eq (t : Text) : Code.isCommentOnly t = t.trimStart.startsWith ['-', '-'] := by
  unfold Code.isCommentOnly trim
  generalize hu : t.trimStart = u
  rcases u with _ | ⟨c, u⟩
  · rfl
  · rw [trimEnd_cons (isBlank_of_trimStart hu)]
    rcases u with _ | ⟨d, v⟩
    · rfl
    · by_cases hd : SqlRoutine.isBlank d
      -- a blank is no dash, whether it is trimmed or not
      · have hne : d ≠ '-' := by rintro rfl; cases hd
        rw [Bool.eq_iff_iff, startsWith_dashes_iff, startsWith_dashes_iff]
        refine iff_of_false (fun hin => ?_) (fun hin => hne (Option.some.inj hin.2))
        obtain ⟨w, hw⟩ := trimEnd_isPrefix (d :: v)
        obtain ⟨v', hv'⟩ := head?_eq_some_iff.mp hin.2
        rw [tail_cons] at hv'
        rw [hv', cons_append, List.cons.injEq] at hw
        exact hne hw.1.symm
      · rw [Bool.not_eq_true] at hd
        rw [trimEnd_cons hd, Bool.eq_iff_iff, startsWith_dashes_iff, startsWith_dashes_iff]
        rfl

/-- The first two pieces are dashes if the line starts with them. -/
theorem Scanned.startsWith_dashes_write (h : Scanned r prev ps) :
    (write ps).startsWith ['-', '-'] ↔
      ps.head? = some (.sign '-') ∧ ps.tail.head? = some (.sign '-') := by
  rw [startsWith_dashes_iff, h.head?_write (by decide)]
  refine and_congr_right fun hhead => ?_
  obtain ⟨rest, rfl⟩ := head?_eq_some_iff.mp hhead
  cases h with
  | sign _ _ _ _ hrest => exact hrest.head?_write (by decide)

theorem Scanned.trimStart_write (h : Scanned r prev (p :: ps))
    (hp : isIdentifier p.first) : (write (p :: ps)).trimStart = write (p :: ps) := by
  obtain ⟨-, z, hz, -⟩ := h.exists_first
  obtain ⟨c, cs, hfirst, hc⟩ := exists_cons_of_identifier hp
  have hblank : SqlRoutine.isBlank c = false := by
    rw [← Bool.not_eq_true]
    intro hblank
    rw [isWord_blank hblank] at hc
    cases hc
  rw [hz, hfirst, cons_append, trimStart_of_head hblank]

/-- **Similar lines without their indentation** are similar. -/
theorem exists_trimStart (h : Scanned r prev ps) :
    ∀ {ps'}, List.Forall₂ (Similar r) ps ps' → ∃ prev' qs qs', Scanned r prev' qs ∧
      List.Forall₂ (Similar r) qs qs' ∧ (write ps).trimStart = write qs ∧
        (write ps').trimStart = write qs' := by
  induction h with
  | nil prev =>
    intro ps' hs
    rw [forall₂_nil_left_iff.mp hs]
    exact ⟨prev, [], [], .nil prev, .nil, rfl, rfl⟩
  | @sign prev c ps ascii sign opening closing rest ih =>
    intro ps' hs
    obtain ⟨p', qs, hp, hqs, rfl⟩ := forall₂_cons_left_iff.mp hs
    cases hp
    by_cases hblank : SqlRoutine.isBlank c
    · obtain ⟨prev', rs, rs', hscanned, hsimilar, htrim, htrim'⟩ := ih hqs
      have hskip : ∀ t : Text, trimStart (c :: t) = trimStart t :=
        fun t => dropWhile_cons_of_pos hblank
      exact ⟨prev', rs, rs', hscanned, hsimilar, (hskip _).trans htrim, (hskip _).trans htrim'⟩
    · rw [Bool.not_eq_true] at hblank
      exact ⟨prev, _, _, .sign ascii sign opening closing rest, hs, trimStart_of_head hblank,
        trimStart_of_head hblank⟩
  | @word prev w ps isIdentifier start next other rest =>
    intro ps' hs
    obtain ⟨p', qs, hp, hqs, rfl⟩ := forall₂_cons_left_iff.mp hs
    have h := Scanned.word isIdentifier start next other rest
    have hp' : Text.isIdentifier p'.first := by
      cases hp with
      | same => exact isIdentifier
      | word isIdentifier' => exact isIdentifier'
    exact ⟨prev, _, _, h, hs, h.trimStart_write isIdentifier, (h.similar hs).trimStart_write hp'⟩
  | @reference prev _ _ _ start names next rest =>
    intro ps' hs
    obtain ⟨p', qs, hp, hqs, rfl⟩ := forall₂_cons_left_iff.mp hs
    have h := Scanned.reference start names next rest
    cases hp with
    | reference names' =>
      exact ⟨prev, _, _, h, hs, h.trimStart_write (isIdentifier_first names),
        (h.similar hs).trimStart_write (isIdentifier_first names')⟩

theorem isEmpty_write (h : Scanned r prev ps) : (write ps).isEmpty = ps.isEmpty := by
  rcases ps with _ | ⟨p, ps⟩
  · rfl
  · obtain ⟨-, z, hz, -⟩ := h.exists_first
    cases h with
    | sign => rfl
    | word isIdentifier =>
      obtain ⟨c, cs, rfl, -⟩ := exists_cons_of_identifier isIdentifier
      rfl
    | reference _ names =>
      obtain ⟨c, cs, hfirst, -⟩ := exists_cons_of_identifier (isIdentifier_first names)
      rw [hz, hfirst]
      rfl

theorem isBlank_eq_isEmpty (t : Text) : t.isBlank = t.trimStart.isEmpty := by
  rw [Bool.eq_iff_iff, List.isEmpty_iff, trimStart, dropWhile_eq_nil_iff,
    isBlank_eq_true_iff]

/-- **Similar lines belong to blocks in the same way.** -/
theorem sameLine_of_similar (hr : r.PlainNames) (h : Scanned r none ps)
    (hs : List.Forall₂ (Similar r) ps ps') : SameLine r.mentionsTable (write ps) (write ps') := by
  obtain ⟨prev, qs, qs', hqs, hsimilar, htrim, htrim'⟩ := exists_trimStart h hs
  have hqs' := hqs.similar hsimilar
  have hblank : Text.isBlank (write ps') = Text.isBlank (write ps) := by
    rw [isBlank_eq_isEmpty, isBlank_eq_isEmpty, htrim, htrim', isEmpty_write hqs, isEmpty_write hqs']
    cases hsimilar <;> rfl
  have hcomment : Code.isCommentOnly (write ps') = Code.isCommentOnly (write ps) := by
    have htail : List.Forall₂ (Similar r) qs.tail qs'.tail := by
      cases hsimilar with
      | nil => exact .nil
      | cons _ hrest => exact hrest
    rw [isCommentOnly_eq, isCommentOnly_eq, htrim, htrim', Bool.eq_iff_iff,
      hqs.startsWith_dashes_write, hqs'.startsWith_dashes_write, head?_of_similar hsimilar,
      head?_of_similar htail]
  have hcontrol : startsControl (write ps') = startsControl (write ps) := by
    cases hsimilar with
    | nil => rw [startsControl, startsControl, htrim, htrim']
    | cons hp _ =>
      rw [startsControl_eq hqs htrim, startsControl_eq hqs' htrim', control_of_similar hr hqs hp]
  refine ⟨?_, hcomment, fun comments => ?_⟩
  · rw [mentionsTable_write hr.toWordNames h, mentionsTable_write hr.toWordNames (h.similar hs),
      any_isReference_of_similar hs]
  · rw [isInner, isInner, isBoundary, isBoundary, hblank, hcomment, hcontrol]

end

end SqlRoutine.Renaming

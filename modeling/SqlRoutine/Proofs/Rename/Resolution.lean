import SqlRoutine.Proofs.Rename.Tokens
import SqlRoutine.Proofs.Text.Word

/-! # Tables that are found and not resolved

Tables are found in a line letter by letter, and resolved by the lower case of the name that was found. The
two ways to disregard case are not the same, so a name can be found that the map does not know. **A
renaming fails just when this happens in some line of the body** (`renameBody_error_iff`), whether or not
the line belongs to a block with others. If the tables of the map have names in ASCII, the names that are
found and not resolved are those with a dotted capital i, a dotless i or a long s in them
(`table?_eq_none_iff`). -/

namespace SqlRoutine.Renaming

open Text
open List hiding find?

variable {r : Renaming} {line : Text}

/-! ### Failures -/

/-- The computation fails just when the condition holds, and then because a table is not resolved. -/
def FailsIff {α : Type} (x : Except Fault α) (p : Prop) : Prop :=
  ∀ fault, x = .error fault ↔ fault = .unresolvedTable ∧ p

theorem FailsIff.map {α β : Type} {x : Except Fault α} {p : Prop} (h : FailsIff x p) (f : α → β) :
    FailsIff (x.map f) p := by
  intro fault
  rw [← h fault]
  cases x with
  | error fault' => exact ⟨fun heq => by cases heq; rfl, fun heq => by cases heq; rfl⟩
  | ok a => exact ⟨nofun, nofun⟩

/-- **A list of computations fails if one of them does.** -/
theorem failsIff_mapM {α β : Type} {f : α → Except Fault β} {p : α → Prop} :
    ∀ {l : List α}, (∀ a ∈ l, FailsIff (f a) (p a)) → FailsIff (l.mapM f) (∃ a ∈ l, p a)
  | [], _, fault => by
    rw [mapM_nil]
    exact ⟨nofun, fun ⟨_, _, hin, _⟩ => absurd hin not_mem_nil⟩
  | a :: l, h, fault => by
    obtain ⟨ha, hl⟩ := forall_mem_cons.mp h
    rw [mapM_cons, exists_mem_cons_iff]
    cases hfirst : f a with
    | error fault' =>
      obtain ⟨rfl, hp⟩ := (ha fault').mp hfirst
      exact ⟨fun heq => ⟨(Except.error.inj heq).symm, .inl hp⟩, fun heq => by rw [heq.1]; rfl⟩
    | ok b =>
      have hnot : ¬p a := fun hp => by
        rw [(ha _).mpr ⟨rfl, hp⟩] at hfirst
        cases hfirst
      rw [or_iff_right hnot, ← failsIff_mapM hl fault]
      cases l.mapM f with
      | error fault' => exact Iff.rfl
      | ok bs => exact ⟨nofun, nofun⟩

/-- A table is found in the line that the map does not know. -/
def Unresolved (r : Renaming) (line : Text) : Prop :=
  ∃ name, .inr name ∈ line.segments r.finder ∧ r.map.table? name = none

theorem failsIff_resolve (name : Text) : FailsIff (r.resolve name) (r.map.table? name = none) := by
  intro fault
  rw [resolve]
  cases r.map.table? name with
  | none => simp [eq_comm]
  | some t => simp

theorem failsIff_resolveLine (r : Renaming) (line : Text) :
    FailsIff (r.resolveLine line) (r.Unresolved line) := by
  have hline : FailsIff (r.resolveLine line) (∃ s ∈ line.segments r.finder,
      ∃ name, s = .inr name ∧ r.map.table? name = none) := by
    refine failsIff_mapM fun s _ fault => ?_
    cases s with
    | inl c => exact ⟨nofun, fun ⟨_, _, heq, _⟩ => by cases heq⟩
    | inr name =>
      rw [((failsIff_resolve name).map Sum.inr) fault]
      exact and_congr_right fun _ => ⟨fun hnone => ⟨name, rfl, hnone⟩, fun ⟨_, heq, hnone⟩ =>
        Sum.inr.inj heq ▸ hnone⟩
  intro fault
  rw [hline fault, Unresolved]
  refine and_congr_right fun _ => ⟨?_, ?_⟩
  · rintro ⟨_, hin, name, rfl, hnone⟩
    exact ⟨name, hin, hnone⟩
  · rintro ⟨name, hin, hnone⟩
    exact ⟨_, hin, name, rfl, hnone⟩

theorem failsIff_renameBlock (r : Renaming) (cache : ColumnCache) (block : List Text) :
    FailsIff (r.renameBlock cache block).result (∃ line ∈ block, r.Unresolved line) := by
  have hresult : (r.renameBlock cache block).result = (block.mapM r.resolveLine).map fun resolved =>
      r.writeBlock (r.cachedColumnsOf cache (tablesIn resolved)).1 resolved := by
    rw [renameBlock]
    cases block.mapM r.resolveLine <;> rfl
  rw [hresult]
  exact (failsIff_mapM fun line _ => failsIff_resolveLine r line).map _

/-- The lines of a portion that are renamed. -/
def Portion.renamed : Portion → List Text
  | kept _ => []
  | block lines => lines

theorem failsIff_renamePortion (r : Renaming) (cache : ColumnCache) (p : Portion) :
    FailsIff (r.renamePortion cache p).result (∃ line ∈ p.renamed, r.Unresolved line) := by
  cases p with
  | kept lines => exact fun fault => ⟨nofun, fun ⟨_, _, hin, _⟩ => absurd hin not_mem_nil⟩
  | block lines => exact failsIff_renameBlock r cache lines

theorem failsIff_renamePortions (r : Renaming) : ∀ (ps : List Portion) (cache : ColumnCache),
    FailsIff (r.renamePortions cache ps).result (∃ line ∈ ps.flatMap Portion.renamed, r.Unresolved line)
  | [], _ => fun fault => by simp [renamePortions]
  | p :: ps, cache => by
    intro fault
    have hfirst := failsIff_renamePortion r cache p
    simp only [flatMap_cons, mem_append, or_and_right, exists_or]
    rw [renamePortions]
    cases hresult : (r.renamePortion cache p).result with
    | error fault' =>
      obtain ⟨rfl, hp⟩ := (hfirst fault').mp hresult
      exact ⟨fun heq => ⟨(Except.error.inj heq).symm, .inl hp⟩, fun heq => by rw [heq.1]⟩
    | ok lines =>
      have hnot : ¬∃ line ∈ p.renamed, r.Unresolved line := fun hp => by
        rw [(hfirst _).mpr ⟨rfl, hp⟩] at hresult
        cases hresult
      rw [or_iff_right hnot, ← failsIff_renamePortions r ps (r.renamePortion cache p).columns fault]
      dsimp only
      cases (r.renamePortions (r.renamePortion cache p).columns ps).result with
      | error fault' => exact Iff.rfl
      | ok others => simp [Except.map]

/-- A line in which a table is found belongs to a block. -/
theorem mem_renamed_of_mentions {mentions : Text → Bool} (body : List Text) (hline : line ∈ body)
    (h : mentions line) : line ∈ (portions mentions body).flatMap Portion.renamed := by
  revert hline
  refine portions_induction (P := fun body ps => line ∈ body → line ∈ ps.flatMap Portion.renamed)
    ?_ ?_ body
  · intro body hnone hline
    rw [hnone line hline] at h
    cases h
  · intro body kept start seed inner rest hcut ih hline
    rw [hcut.eq, append_assoc, mem_append, mem_append] at hline
    simp only [flatMap_cons, Portion.renamed, nil_append, mem_append]
    rcases hline with hkept | hblock | hrest
    · rw [hcut.before line (mem_append_left start hkept)] at h
      cases h
    · exact .inl (mem_append.mp hblock)
    · exact .inr (ih hrest)

theorem mentionsTable_of_found {name : Text} (h : .inr name ∈ line.segments r.finder) :
    r.mentionsTable line := by
  rw [mentionsTable, find?, isSome_findFrom, any_eq_true]
  exact ⟨_, h, rfl⟩

theorem failsIff_renameBody (r : Renaming) (cache : ColumnCache) (body : List Text) :
    FailsIff (r.renameBody cache body).result (∃ line ∈ body, r.Unresolved line) := by
  intro fault
  rw [renameBody, failsIff_renamePortions r _ cache fault]
  refine and_congr_right fun _ => exists_congr fun line => and_congr_left fun hunresolved =>
    ⟨fun hin => ?_, fun hin => ?_⟩
  · obtain ⟨p, hp, hin⟩ := mem_flatMap.mp hin
    rw [← flatMap_portions r.mentionsTable body]
    refine mem_flatMap.mpr ⟨p, hp, ?_⟩
    cases p with
    | kept lines => cases hin
    | block lines => exact hin
  · obtain ⟨name, hname, -⟩ := hunresolved
    exact mem_renamed_of_mentions body hin (mentionsTable_of_found hname)

/-! ### Names that are found -/

/-- **What is found spells the name of a table.** -/
theorem spells_of_tableFinder {schemas tables : List Text} {prev : Option Char} {t name rest : Text}
    (h : tableFinder schemas tables prev t = some (name, rest)) : ∃ k ∈ tables, Spells k name := by
  rw [tableFinder] at h
  split_ifs at h
  have hmem := mem_of_head? h
  simp only [references, mem_flatMap, mem_map, passAny, mem_filterMap] at hmem
  obtain ⟨_, -, u, -, left, ⟨k, hk, hread⟩, _, -, heq⟩ := hmem
  obtain ⟨m, hm, rfl⟩ := keyword?_eq_some_iff.mp hread
  rw [readBefore_append] at heq
  exact ⟨k, hk, (Prod.mk.inj heq).1 ▸ hm⟩

theorem spells_of_found {name : Text} (h : .inr name ∈ line.segments r.finder) :
    ∃ k ∈ r.map.tableNames, Spells k name := by
  obtain ⟨prev, s, rest, -, hfind⟩ := exists_of_mem_segmentsFrom h
  exact spells_of_tableFinder hfind

/-- **Which names are not resolved**, if the tables have names in ASCII. -/
theorem table?_eq_none_iff {entries : List NameEntry} (hmap : r.map = NameMap.ofEntries entries)
    (hascii : ∀ k ∈ r.map.tableNames, k.all isAscii) {name : Text}
    (h : .inr name ∈ line.segments r.finder) :
    r.map.table? name = none ↔ ∃ c ∈ name, c ∈ strangeForms := by
  obtain ⟨k, hk, hspells⟩ := spells_of_found h
  have hlower : k.lower = k := by
    obtain ⟨t, ht, rfl⟩ := mem_tableNames_iff.mp hk
    obtain ⟨source, hsource⟩ := NameMap.exists_source entries t (hmap ▸ ht)
    rw [hsource]
    exact lower_lower source
  have hplain := lower_eq_iff_of_spells (hascii k hk) hlower hspells
  rw [← Option.isNone_iff_eq_none, ← Option.isSome_eq_false_iff, ← isTable, ← Bool.not_eq_true, isTable_iff]
  constructor
  · intro hnot
    by_contra hno
    rw [← hplain.mpr fun c hc hstrange => hno ⟨c, hc, hstrange⟩] at hk
    exact hnot hk
  · intro hstrange hin
    obtain ⟨c, hc, hbeyond⟩ := exists_of_strangeForm [] hstrange
    rw [all_eq_true.mp (hascii _ hin) c hc] at hbeyond
    cases hbeyond

/-- **When a renaming fails.** Whatever bodies have been renamed before, the renaming of a body fails just
when in one of its lines a table is found that the map does not know. What is found spells the name of a
table, letter by letter. If all names of tables are in ASCII, the map does not know what is found just
when it has a letter that is a form of an ASCII letter and not lower-cased to one. -/
theorem renameBody_error_iff {entries : List NameEntry} (hmap : r.map = NameMap.ofEntries entries)
    (earlier : List (List Text)) (body : List Text) (fault : Fault) :
    ((r.renameBody (r.columnsAfter earlier) body).result = .error fault ↔ fault = .unresolvedTable ∧
      ∃ line ∈ body, ∃ name, .inr name ∈ line.segments r.finder ∧ r.map.table? name = none) ∧
    ∀ line name, .inr name ∈ Text.segments r.finder line →
      (∃ k ∈ r.map.tableNames, Text.Spells k name) ∧
        ((∀ k ∈ r.map.tableNames, k.all Text.isAscii = true) →
          (r.map.table? name = none ↔ ∃ c ∈ name, c ∈ Text.strangeForms)) :=
  ⟨failsIff_renameBody r _ body fault, fun _ _ hfound =>
    ⟨spells_of_found hfound, fun hascii => table?_eq_none_iff hmap hascii hfound⟩⟩

/-- A table is found although its last letter is a long s, and it is not resolved. -/
theorem renameBody_error_longS : (jobsRenaming.renameBody (jobsRenaming.columnsAfter [])
    ["FROM T_Jobs".toList, "FROM T_Jobſ".toList]).result = .error .unresolvedTable := by
  have hsegments : Text.segments jobsRenaming.finder "FROM T_Jobſ".toList =
      "FROM ".toList.map .inl ++ [.inr "T_Jobſ".toList] := by
    rw [finder_jobs]
    rfl
  have hfound : .inr "T_Jobſ".toList ∈ Text.segments jobsRenaming.finder "FROM T_Jobſ".toList := by
    rw [hsegments]
    exact List.mem_append_right _ List.mem_cons_self
  have htables : jobsRenaming.map.tableNames = ["t_job_steps".toList, "t_jobs".toList] := by cbv
  obtain ⟨hiff, hnames⟩ := renameBody_error_iff (r := jobsRenaming) rfl []
    ["FROM T_Jobs".toList, "FROM T_Jobſ".toList] .unresolvedTable
  refine hiff.mpr ⟨rfl, _, List.mem_cons_of_mem _ List.mem_cons_self, _, hfound, ?_⟩
  rw [(hnames _ _ hfound).2 (by rw [htables]; decide)]
  exact ⟨'ſ', by decide, by decide⟩

end SqlRoutine.Renaming

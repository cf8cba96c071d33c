import SqlRoutine.Proofs.Rename.Tokens
import SqlRoutine.Proofs.Text.Word

/-! # How a table reference is read

Where the names are identifiers, a reference is a table, perhaps with a schema and a dot before it, and
**each of the brackets may be missing** (`IsReference`, `finder_isReference`).

A **foreign** name is neither that of a schema nor that of a table. No reference starts at a foreign name
or reaches it from before, whether or not it is in brackets (`Foreign.not_reached`). -/

namespace SqlRoutine.Renaming

open List Option Text

variable {bracketed closing : Bool} {c : Char} {prev : Option Char} {w : Text} {α : Type}

variable {r : Renaming}

/-! ### The text of a reference -/

/-- A character that may be missing. -/
def optional (present : Bool) (c : Char) : Text := if present then [c] else []

/-- A name with the brackets that are present. -/
def framed (opening : Bool) (name : Text) (closing : Bool) : Text :=
  optional opening '[' ++ (name ++ optional closing ']')

/-- **The text of a reference**, and the name of the table in it. -/
inductive IsReference (r : Renaming) : (text name : Text) → Prop
  | table {name : Text} (opening closing : Bool) (isTable : isSpelled r.map.tableNames name) :
      IsReference r (framed opening name closing) name
  | qualified {schema name : Text} (opening closing opening' closing' : Bool)
      (isSchema : isSpelled r.schemas schema) (isTable : isSpelled r.map.tableNames name) :
      IsReference r (framed opening schema closing ++ '.' :: framed opening' name closing') name

section

variable {t rest name : Text}

theorem exists_behind (c : Char) (t : Text) : ∃ present, t = optional present c ++ behind c t := by
  unfold behind
  cases hchar : char? c t with
  | none => exact ⟨false, rfl⟩
  | some rest => exact ⟨true, char?_eq_some_iff.mp hchar⟩

theorem exists_behindTable (h : atWordEnd t) :
    ∃ closing, t = optional closing ']' ++ behindTable t ∧ atWordEnd (behindTable t) := by
  unfold behindTable
  cases hchar : char? ']' t with
  | none => exact ⟨false, rfl, h⟩
  | some rest =>
    rw [filter_some]
    split_ifs with hend
    · exact ⟨true, char?_eq_some_iff.mp hchar, hend⟩
    · exact ⟨false, rfl, h⟩

theorem exists_of_tableHere {tables : List Text} (h : tableHere tables t = some (name, rest)) :
    ∃ opening closing, t = framed opening name closing ++ rest ∧ isSpelled tables name ∧
      atWordEnd rest := by
  unfold tableHere at h
  dsimp only at h
  split_ifs at h with hspelled
  obtain ⟨rfl, rfl⟩ := Prod.mk.inj (Option.some.inj h)
  obtain ⟨opening, hopening⟩ := exists_behind '[' t
  obtain ⟨closing, hclosing, hend⟩ :=
    exists_behindTable (atWordEnd_dropWhile (behind '[' t))
  refine ⟨opening, closing, ?_, hspelled, hend⟩
  rw [framed, append_assoc, append_assoc, ← hclosing, takeWhile_append_dropWhile,
    ← hopening]

theorem exists_of_schemaHere {schemas : List Text} (h : schemaHere schemas t = some rest) :
    ∃ opening schema closing, t = framed opening schema closing ++ '.' :: rest ∧
      isSpelled schemas schema := by
  unfold schemaHere at h
  split_ifs at h with hspelled
  obtain ⟨opening, hopening⟩ := exists_behind '[' t
  obtain ⟨closing, hclosing⟩ := exists_behind ']' ((behind '[' t).dropWhile isWord)
  refine ⟨opening, _, closing, ?_, hspelled⟩
  rw [framed, append_assoc, append_assoc, ← char?_eq_some_iff.mp h, ← hclosing,
    takeWhile_append_dropWhile, ← hopening]

variable (hr : r.KeyNames)
include hr

/-- **What is found is a reference**, and no word goes on behind it. -/
theorem finder_isReference (h : r.finder prev t = some (name, rest)) :
    prev.any isQualifier = false ∧
      ∃ m, t = m ++ rest ∧ IsReference r m name ∧ atWordEnd rest := by
  have hprev : prev.any isQualifier = false := by
    refine Bool.eq_false_of_not_eq_true fun hprev => ?_
    rw [finder_of_qualifier hprev] at h
    cases h
  refine ⟨hprev, ?_⟩
  rw [finder_eq hr hprev, or_eq_some_iff, bind_eq_some_iff] at h
  rcases h with ⟨behindSchema, hschema, htable⟩ | ⟨-, htable⟩
  · obtain ⟨opening, schema, closing, rfl, hspelled⟩ := exists_of_schemaHere hschema
    obtain ⟨opening', closing', rfl, hspelled', hend⟩ := exists_of_tableHere htable
    exact ⟨_, by simp, .qualified opening closing opening' closing' hspelled hspelled', hend⟩
  · obtain ⟨opening, closing, rfl, hspelled, hend⟩ := exists_of_tableHere htable
    exact ⟨_, rfl, .table opening closing hspelled, hend⟩

end

/-! ### The tokens of a reference -/

section

variable {m name q u z : Text}

theorem tokens_optional (hc : isWord c = false) (present : Bool) (z : Text) :
    tokens (optional present c ++ z) = (optional present c).map ([·]) ++ tokens z := by
  cases present with
  | false => rfl
  | true => exact tokens_sign hc z

theorem atWordEnd_optional (hc : isWord c = false) {present : Bool}
    (hz : present = false → atWordEnd z) : atWordEnd (optional present c ++ z) := by
  cases present with
  | false => exact hz rfl
  | true => simp [optional, atWordEnd, hc]

theorem tokens_framed (hne : name ≠ []) (hname : name.all isWord) (opening : Bool)
    (hz : closing = false → atWordEnd z) :
    tokens (framed opening name closing ++ z) = (optional opening '[').map ([·]) ++
      name :: ((optional closing ']').map ([·]) ++ tokens z) := by
  rw [framed, append_assoc, append_assoc, tokens_optional (by decide),
    tokens_run hne hname (atWordEnd_optional (by decide) hz), tokens_optional (by decide)]

theorem getLast?_framed (hne : name ≠ []) (hname : name.all isWord) (opening closing : Bool) :
    (framed opening name closing).getLast?.any (fun c => isWord c || c == ']') := by
  cases closing with
  | false =>
    have hlast := List.all_eq_true.mp hname _ (getLast_mem hne)
    simp [framed, optional, getLast?_append, getLast?_eq_some_getLast hne, hlast]
  | true => simp [framed, optional]

theorem not_mem_optional (hw : w.all isWord) (hc : isWord c = false)
    (present : Bool) : w ∉ (optional present c).map ([·]) := by
  intro hin
  obtain ⟨d, hd, rfl⟩ := List.mem_map.mp hin
  obtain rfl : d = c := by
    cases present with
    | false => cases hd
    | true => exact mem_singleton.mp hd
  rw [all_cons, hc] at hw
  cases hw

theorem mem_tokens_framed (hne : name ≠ []) (hname : name.all isWord)
    {opening : Bool} (hz : closing = false → atWordEnd z)
    (hin : w ∈ tokens (framed opening name closing ++ z)) (hw : w.all isWord) :
    w = name ∨ w ∈ tokens z := by
  rw [tokens_framed hne hname opening hz, mem_append, mem_cons, mem_append] at hin
  rcases hin with hin | rfl | hin | hin
  · exact absurd hin (not_mem_optional hw (by decide) opening)
  · exact .inl rfl
  · exact absurd hin (not_mem_optional hw (by decide) closing)
  · exact .inr hin

variable (hr : r.KeyNames)
include hr

theorem KeyNames.schema_run (h : isSpelled r.schemas name) : name ≠ [] ∧ name.all isWord :=
  all_isWord_of_isSpelled (fun k hk => (hr.schemas k hk).1) h

theorem KeyNames.table_run (h : isSpelled r.map.tableNames name) :
    name ≠ [] ∧ name.all isWord :=
  all_isWord_of_isSpelled (fun k hk => (hr.tables k hk).1) h

/-- **The words of a reference are names of schemas and tables.** -/
theorem IsReference.isSpelled_of_mem (h : IsReference r m name) (hin : w ∈ tokens m)
    (hw : w.all isWord) :
    isSpelled r.schemas w ∨ isSpelled r.map.tableNames w := by
  have htable : ∀ {opening closing : Bool}, isSpelled r.map.tableNames name →
      w ∈ tokens (framed opening name closing) → isSpelled r.map.tableNames w := by
    intro opening closing hspelled hin
    obtain ⟨hne, hall⟩ := hr.table_run hspelled
    rw [← append_nil (framed opening name closing)] at hin
    rcases mem_tokens_framed hne hall (fun _ => rfl) hin hw with rfl | hnil
    · exact hspelled
    · cases hnil
  cases h with
  | table opening closing isTable => exact .inr (htable isTable hin)
  | qualified opening closing opening' closing' isSchema isTable =>
    obtain ⟨hne, hall⟩ := hr.schema_run isSchema
    rcases mem_tokens_framed hne hall (fun _ => by rfl) hin hw with rfl | hin
    · exact .inl isSchema
    · rw [tokens_sign (by decide), mem_cons] at hin
      rcases hin with rfl | hin
      · cases hw
      · exact .inr (htable isTable hin)

theorem IsReference.getLast?_any (h : IsReference r m name) :
    m.getLast?.any (fun c => isWord c || c == ']') := by
  cases h with
  | table opening closing isTable =>
    obtain ⟨hne, hall⟩ := hr.table_run isTable
    exact getLast?_framed hne hall opening closing
  | qualified opening closing opening' closing' isSchema isTable =>
    obtain ⟨hne, hall⟩ := hr.table_run isTable
    have hlast := getLast?_framed hne hall opening' closing'
    rw [getLast?_append, getLast?_cons]
    cases hframed : (framed opening' name closing').getLast? with
    | none => rw [hframed] at hlast; cases hlast
    | some c => rw [hframed] at hlast; exact hlast

theorem IsReference.head?_any (h : IsReference r m name) :
    m.head?.any (fun c => isWord c || c == '[') := by
  have hframed : ∀ {w : Text}, w ≠ [] → w.all isWord → ∀ (opening closing : Bool) (y : Text),
      (framed opening w closing ++ y).head?.any (fun c => isWord c || c == '[') := by
    intro w hne hw opening closing y
    obtain ⟨c, w, rfl⟩ := exists_cons_of_ne_nil hne
    rw [all_cons, Bool.and_eq_true] at hw
    cases opening with
    | true => rfl
    | false => simp [framed, optional, hw.1]
  cases h with
  | table opening closing isTable =>
    obtain ⟨hne, hall⟩ := hr.table_run isTable
    rw [← append_nil (framed opening name closing)]
    exact hframed hne hall opening closing []
  | qualified opening closing opening' closing' isSchema isTable =>
    obtain ⟨hne, hall⟩ := hr.schema_run isSchema
    exact hframed hne hall opening closing _

theorem IsReference.ne_nil (h : IsReference r m name) : m ≠ [] := by
  rintro rfl
  cases h.getLast?_any hr

end

/-! ### Foreign names -/

/-- **A foreign name**: a word that is neither the name of a schema nor that of a table. -/
structure Foreign (r : Renaming) (q : Text) : Prop where
  ne_nil : q ≠ []
  all_isWord : q.all isWord
  not_schema : isSpelled r.schemas q = false
  not_table : isSpelled r.map.tableNames q = false

section

variable {m name q u y z rest : Text}

/-- The tokens of a text that reaches beyond a cut between tokens. -/
theorem exists_tokens_of_reach (heq : u ++ y = m ++ rest)
    (hrest : atWordEnd rest) (hcut : tokens (u ++ y) = tokens u ++ tokens y)
    (hreach : rest.length < y.length) :
    ∃ w l, tokens m = tokens u ++ w :: l ∧ w :: l <+: tokens y := by
  have hsplit : tokens (m ++ rest) = tokens m ++ tokens rest := by
    refine splitBy_append fun a _ b hb => ?_
    cases rest with
    | nil => cases hb
    | cons c rest =>
      obtain rfl : c = b := Option.some.inj hb
      rw [atWordEnd, Bool.not_eq_true'] at hrest
      rw [hrest, Bool.and_false]
  rw [heq, hsplit] at hcut
  have hflatten : ∀ t : Text, (tokens t).flatten = t := flatten_splitBy _
  rcases append_eq_append_iff.mp hcut with ⟨l, hu, hl⟩ | ⟨l, hm, hl⟩
  · have hlength := congrArg (fun ts : List Text => ts.flatten.length) hl
    simp only [flatten_append, length_append, hflatten] at hlength
    omega
  · cases l with
    | nil =>
      have hlength := congrArg (fun ts : List Text => ts.flatten.length) hl
      simp only [nil_append, hflatten] at hlength
      omega
    | cons w l => exact ⟨w, l, hm, _, hl.symm⟩

variable (hr : r.KeyNames)
include hr

/-- **No reference reaches a foreign name**, in brackets or not. -/
theorem Foreign.not_reached (hq : r.Foreign q)
    (hu : bracketed = false → u.getLast?.any isWord = false)
    (hz : bracketed = false → atWordEnd z)
    (h : r.finder prev (u ++ (framed bracketed q bracketed ++ z)) = some (name, rest)) :
    (framed bracketed q bracketed ++ z).length ≤ rest.length := by
  by_contra hreach
  obtain ⟨-, m, heq, hm, hrest⟩ := finder_isReference hr h
  have hcut : tokens (u ++ (framed bracketed q bracketed ++ z)) =
      tokens u ++ tokens (framed bracketed q bracketed ++ z) := by
    refine splitBy_append fun a ha b hb => ?_
    cases bracketed with
    | true =>
      obtain rfl : '[' = b := Option.some.inj hb
      exact Bool.and_false _
    | false =>
      have hlast := hu rfl
      rw [mem_def.mp ha, any_some] at hlast
      rw [hlast, Bool.false_and]
  obtain ⟨w, l, htokens, hinitial⟩ := exists_tokens_of_reach heq hrest hcut (Nat.lt_of_not_le hreach)
  rw [tokens_framed hq.ne_nil hq.all_isWord bracketed hz] at hinitial
  have hin : q ∈ tokens m := by
    rw [htokens]
    cases bracketed with
    | false =>
      obtain ⟨rfl, -⟩ := cons_prefix_cons.mp hinitial
      simp
    | true =>
      obtain ⟨rfl, hl⟩ := cons_prefix_cons.mp hinitial
      cases l with
      | nil =>
        -- the reference would end with an opening bracket
        have hlast := hm.getLast?_any hr
        have htext : m = u ++ ['['] := by
          have hflatten := congrArg List.flatten htokens
          simpa [tokens] using hflatten
        rw [htext, getLast?_concat] at hlast
        cases hlast
      | cons v l =>
        obtain ⟨rfl, -⟩ := cons_prefix_cons.mp hl
        simp
  rcases hm.isSpelled_of_mem hr hin hq.all_isWord with hspelled | hspelled
  · rw [hq.not_schema] at hspelled
    cases hspelled
  · rw [hq.not_table] at hspelled
    cases hspelled

/-- **No reference starts at a foreign name.** -/
theorem Foreign.finder_eq_none (hq : r.Foreign q)
    (hz : bracketed = false → atWordEnd z) (prev : Option Char) :
    r.finder prev (framed bracketed q bracketed ++ z) = none := by
  cases hfind : r.finder prev (framed bracketed q bracketed ++ z) with
  | none => rfl
  | some found =>
    obtain ⟨name, rest⟩ := found
    obtain ⟨-, m, heq, hm, -⟩ := finder_isReference hr hfind
    have hlength := hq.not_reached (u := []) hr (fun _ => rfl) hz hfind
    have hpos := length_pos_iff.mpr (hm.ne_nil hr)
    rw [heq, length_append] at hlength
    omega

end

end SqlRoutine.Renaming

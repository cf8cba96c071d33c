import SqlRoutine.Proofs.Rename.Columns
import SqlRoutine.Proofs.Rename.Control
import SqlRoutine.Proofs.Rename.Reading

/-! # Brackets around renamed tables

The parts of a line are the characters that are kept and the references, each with all of its text
(`parts`). A reference does not start behind a dot, so a foreign name with a dot keeps a table from being
renamed. But the character behind an opening bracket is free again: **of a table in brackets the opening
bracket is kept, and the name is replaced together with the closing one** (`segmentsFrom_bracketed_table`).

So brackets do not stay balanced. Where they only enclose identifiers (`Enclosing`), a cut between two parts
leaves a bracket open just when it is beside it (`Enclosing.count_append`); summed up over the parts, the
brackets that are kept differ by the references that start right behind an opening bracket and those that
end right before a closing one (`count_keptText`). All this is the `BracketRule`. -/

namespace SqlRoutine.Renaming

open List Option Text

variable {bracketed closing : Bool} {c : Char} {prev : Option Char} {line rest t : Text}

variable {r : Renaming}

/-! ### The parts of a line -/

/-- A reference in a line: all of its text, and the name of the table in it. -/
structure Reference where
  text : Text
  name : Text

/-- The finder for tables, with the text of what is found. -/
def referenceFinder (r : Renaming) : Finder Reference := fun prev t =>
  (r.finder prev t).map fun found => (⟨readBefore found.2 t, found.1⟩, found.2)

/-- **The parts of a line**: characters that are kept, and references. -/
def parts (r : Renaming) (line : Text) : List (Char ⊕ Reference) := line.segments r.referenceFinder

/-- The text of parts. -/
def sourceText (ps : List (Char ⊕ Reference)) : Text :=
  ps.flatMap (Sum.elim (fun c => [c]) Reference.text)

/-- The characters that are kept. -/
def keptText (ps : List (Char ⊕ Reference)) : Text := ps.filterMap Sum.getLeft?

theorem segmentsFrom_finder_eq (r : Renaming) : ∀ (t : Text) (prev : Option Char) (skip : ℕ),
    segmentsFrom r.finder prev skip t =
      (segmentsFrom r.referenceFinder prev skip t).map (Sum.map id Reference.name)
  | [], _, _ => by simp [segmentsFrom]
  | c :: t, prev, skip + 1 => by
    rw [segmentsFrom, segmentsFrom, segmentsFrom_finder_eq r t (some c) skip]
  | c :: t, prev, 0 => by
    rw [segmentsFrom, segmentsFrom, referenceFinder]
    cases r.finder prev (c :: t) with
    | none =>
      dsimp only [map_none]
      rw [segmentsFrom_finder_eq r t (some c) 0]
      rfl
    | some found =>
      dsimp only [map_some]
      rw [segmentsFrom_finder_eq r t (some c) (t.length - found.2.length)]
      rfl

theorem referenceFinder_eq_none (h : r.finder prev t = none) : r.referenceFinder prev t = none := by
  rw [referenceFinder, h]
  rfl

theorem referenceFinder_of_found {m name : Text} (h : r.finder prev (m ++ rest) = some (name, rest)) :
    r.referenceFinder prev (m ++ rest) = some (⟨m, name⟩, rest) := by
  rw [referenceFinder, h, map_some, readBefore_append]

theorem outsideWords_referenceFinder (r : Renaming) : OutsideWords r.referenceFinder :=
  fun prev t hprev => referenceFinder_eq_none (outsideWords_finder r prev t hprev)

section

variable (hr : r.KeyNames)
include hr

/-- **What is found among the parts is a reference.** -/
theorem exists_of_referenceFinder {found : Reference}
    (h : r.referenceFinder prev t = some (found, rest)) :
    t = found.text ++ rest ∧ prev.any isQualifier = false ∧ IsReference r found.text found.name ∧
      atWordEnd rest := by
  obtain ⟨⟨name, rest⟩, hfind, heq⟩ := map_eq_some_iff.mp h
  obtain ⟨rfl, rfl⟩ := Prod.mk.inj heq
  obtain ⟨hprev, m, rfl, hm, hend⟩ := finder_isReference hr hfind
  dsimp only
  rw [readBefore_append]
  exact ⟨rfl, hprev, hm, hend⟩

theorem proper_referenceFinder : Proper r.referenceFinder := by
  intro prev t found rest h
  obtain ⟨heq, -, hm, -⟩ := exists_of_referenceFinder hr h
  exact ⟨found.text, hm.ne_nil hr, heq⟩

theorem sourceText_segmentsFrom (prev : Option Char) (t : Text) :
    sourceText (segmentsFrom r.referenceFinder prev 0 t) = t := by
  refine segmentsFrom_induction (proper_referenceFinder hr)
    (P := fun _ t ps => sourceText ps = t) ?_ ?_ ?_ prev t
  · exact fun _ => rfl
  · intro prev c t _ ih
    exact congrArg (c :: ·) ih
  · intro prev m found rest _ hfind ih
    obtain ⟨heq, -⟩ := exists_of_referenceFinder hr hfind
    obtain rfl : m = found.text := append_cancel_right heq
    exact congrArg (found.text ++ ·) ih

end

/-- A text is laid out part by part, if nothing is found across the cut. -/
theorem exists_segmentsFrom_append {α : Type} {finder : Finder α} (hproper : Proper finder)
    {z : Text} : ∀ (x : Text) (prev : Option Char),
      (∀ x', x' <:+ x → x' ≠ [] → ∀ prev a rest, finder prev (x' ++ z) = some (a, rest) →
        z.length ≤ rest.length) →
      ∃ segments, segmentsFrom finder prev 0 (x ++ z) =
        segments ++ segmentsFrom finder (x.getLast?.or prev) 0 z := by
  intro x
  induction hn : x.length using Nat.strong_induction_on generalizing x with
  | _ n ih =>
    subst hn
    intro prev hcut
    rcases x with _ | ⟨c, cs⟩
    · exact ⟨[], rfl⟩
    · cases hfind : finder prev (c :: cs ++ z) with
      | none =>
        obtain ⟨segments, hsegments⟩ := ih cs.length (by simp) cs rfl (some c) fun x' hx' =>
          hcut x' (hx'.trans (suffix_cons c cs))
        refine ⟨.inl c :: segments, ?_⟩
        rw [cons_append] at hfind ⊢
        rw [segmentsFrom_of_none hfind, hsegments, getLast?_cons_or, cons_append]
      | some found =>
        obtain ⟨a, rest⟩ := found
        have hlength := hcut _ suffix_rfl (cons_ne_nil c cs) _ _ _ hfind
        obtain ⟨m, hm, heq⟩ := hproper _ _ _ _ hfind
        obtain ⟨x', hx, rfl⟩ : ∃ x', c :: cs = m ++ x' ∧ rest = x' ++ z := by
          rcases append_eq_append_iff.mp heq with ⟨y, hm', hz⟩ | ⟨x', hx, hrest⟩
          · have hnil : y = [] := by
              have hy := congrArg List.length hz
              rw [length_append] at hy
              exact length_eq_zero_iff.mp (by omega)
            subst hnil
            exact ⟨[], by simpa using hm'.symm, hz.symm⟩
          · exact ⟨x', hx, hrest⟩
        have hpos := length_pos_iff.mpr hm
        obtain ⟨segments, hsegments⟩ := ih x'.length (by rw [hx, length_append]; omega) x' rfl
          m.getLast? fun y hy => hcut y (hy.trans ⟨m, hx.symm⟩)
        refine ⟨.inr a :: segments, ?_⟩
        rw [hx, append_assoc] at hfind ⊢
        have hlast : (m ++ x').getLast?.or prev = x'.getLast?.or m.getLast? := by
          rw [getLast?_append, Option.or_assoc, getLast?_eq_some_getLast hm, some_or]
        rw [segmentsFrom_of_found hm hfind, hsegments, hlast, cons_append]

/-! ### References behind foreign names -/

section

variable {names : List Text} {q s t v w z : Text}

theorem behind_framed (hne : w ≠ []) (hw : w.all isWord) (opening closing : Bool) (z : Text) :
    behind '[' (framed opening w closing ++ z) = w ++ (optional closing ']' ++ z) := by
  have hsign : ∀ y, char? '[' (w ++ y) = none := by
    obtain ⟨c, w, rfl⟩ := exists_cons_of_ne_nil hne
    rw [all_cons, Bool.and_eq_true] at hw
    exact fun y => char?_of_word (by decide) hw.1 (w ++ y)
  rw [framed, append_assoc, append_assoc, behind]
  cases opening with
  | false => rw [optional, if_neg (by decide), nil_append, hsign]; rfl
  | true => rfl

theorem behind_optional {present : Bool} (hz : present = false → z.head? ≠ some c) :
    behind c (optional present c ++ z) = z := by
  cases present with
  | true => rw [behind, optional, if_pos rfl, singleton_append, char?_cons_self]; rfl
  | false =>
    have hnone : char? c z = none := by
      cases hchar : char? c z with
      | none => rfl
      | some rest => exact absurd (by rw [char?_eq_some_iff.mp hchar]; rfl) (hz rfl)
    rw [optional, if_neg (by decide), nil_append, behind, hnone]
    rfl

theorem behindTable_optional (hv : atWordEnd v)
    (hclosing : closing = false → v.head? ≠ some ']') : behindTable (optional closing ']' ++ v) = v := by
  have hbehind := behind_optional hclosing
  unfold behindTable
  unfold behind at hbehind
  cases hchar : char? ']' (optional closing ']' ++ v) with
  | none => rwa [hchar] at hbehind
  | some rest =>
    rw [hchar, getD_some] at hbehind
    rw [hbehind, filter_some, if_pos hv]
    rfl

theorem tableHere_framed (hnames : ∀ k ∈ names, isIdentifier k)
    (ht : isSpelled names t) (opening : Bool) (hv : atWordEnd v)
    (hclosing : closing = false → v.head? ≠ some ']') :
    tableHere names (framed opening t closing ++ v) = some (t, v) := by
  obtain ⟨hne, hall⟩ := all_isWord_of_isSpelled hnames ht
  have hend : atWordEnd (optional closing ']' ++ v) :=
    atWordEnd_optional (by decide) fun _ => hv
  obtain ⟨htake, hdrop⟩ := run_of_atWordEnd hall hend
  rw [tableHere, behind_framed hne hall, htake, hdrop, behindTable_optional hv hclosing]
  exact if_pos ht

theorem schemaHere_framed (hnames : ∀ k ∈ names, isIdentifier k)
    (hs : isSpelled names s) (opening closing : Bool) (z : Text) :
    schemaHere names (framed opening s closing ++ '.' :: z) = some z := by
  obtain ⟨hne, hall⟩ := all_isWord_of_isSpelled hnames hs
  have hend : atWordEnd (optional closing ']' ++ '.' :: z) :=
    atWordEnd_optional (by decide) fun _ => rfl
  obtain ⟨htake, hdrop⟩ := run_of_atWordEnd hall hend
  rw [schemaHere, behind_framed hne hall, htake, hdrop, behind_optional (by simp), if_pos hs]
  rfl

/-- A table that no dot follows is not read as a schema. -/
theorem schemaHere_eq_none (hne : t ≠ []) (hall : t.all isWord) (opening : Bool)
    (hv : atWordEnd v) (hclosing : closing = false → v.head? ≠ some ']')
    (hdot : isSpelled names t → v.head? ≠ some '.') :
    schemaHere names (framed opening t closing ++ v) = none := by
  have hend : atWordEnd (optional closing ']' ++ v) :=
    atWordEnd_optional (by decide) fun _ => hv
  obtain ⟨htake, hdrop⟩ := run_of_atWordEnd hall hend
  rw [schemaHere, behind_framed hne hall, htake, hdrop, behind_optional hclosing]
  split_ifs with hspelled
  · cases hchar : char? '.' v with
    | none => rfl
    | some rest => exact absurd (by rw [char?_eq_some_iff.mp hchar]; rfl) (hdot hspelled)
  · rfl

theorem framed_false (w : Text) : framed false w false = w := by simp [framed, optional]

theorem framed_true (w : Text) : framed true w true = '[' :: (w ++ [']']) := rfl

theorem referenceFinder_of_qualifier (hc : isQualifier c) (t : Text) :
    r.referenceFinder (some c) t = none :=
  referenceFinder_eq_none (finder_of_qualifier (show (some c).any isQualifier from hc) t)

/-- Behind a dot a word is kept. -/
theorem segmentsFrom_behind_dot (hne : w ≠ []) (hw : w.all isWord) (z : Text) :
    segmentsFrom r.referenceFinder (some '.') 0 (w ++ z) =
      w.map .inl ++ segmentsFrom r.referenceFinder (some '_') 0 z :=
  segmentsFrom_run (outsideWords_referenceFinder r) hne hw
    (referenceFinder_of_qualifier (by decide) _)

variable (hr : r.KeyNames)
include hr

/-- **A foreign name and the dot behind it are kept.** -/
theorem segmentsFrom_foreign (hq : r.Foreign q) (bracketed : Bool) (prev : Option Char) (z : Text) :
    segmentsFrom r.referenceFinder prev 0 (framed bracketed q bracketed ++ '.' :: z) =
      (framed bracketed q bracketed ++ ['.']).map .inl ++
        segmentsFrom r.referenceFinder (some '.') 0 z := by
  have hout := outsideWords_referenceFinder r
  cases bracketed with
  | false =>
    have hname : r.referenceFinder prev (framed false q false ++ '.' :: z) = none :=
      referenceFinder_eq_none (hq.finder_eq_none hr (fun _ => rfl) prev)
    rw [framed_false] at hname ⊢
    rw [segmentsFrom_run hout hq.ne_nil hq.all_isWord hname,
      segmentsFrom_of_none (hout (some '_') _ (by decide))]
    simp
  | true =>
    have hopening : r.referenceFinder prev (framed true q true ++ '.' :: z) = none :=
      referenceFinder_eq_none (hq.finder_eq_none hr (fun _ => rfl) prev)
    have hname : r.referenceFinder (some '[') (framed false q false ++ ']' :: '.' :: z) = none :=
      referenceFinder_eq_none (hq.finder_eq_none hr (fun _ => rfl) _)
    have htext : framed true q true ++ '.' :: z = '[' :: (q ++ ']' :: '.' :: z) := by
      rw [framed_true]
      simp
    rw [framed_false] at hname
    rw [htext] at hopening ⊢
    rw [segmentsFrom_of_none hopening, segmentsFrom_run hout hq.ne_nil hq.all_isWord hname,
      segmentsFrom_of_none (hout (some '_') _ (by decide)),
      segmentsFrom_of_none (referenceFinder_of_qualifier (by decide) _), framed_true]
    simp

/-- Behind a foreign name, a table in brackets is found without the opening one. -/
theorem segmentsFrom_bracketed_table (ht : isSpelled r.map.tableNames t)
    (hv : atWordEnd v) (hdot : isSpelled r.schemas t → v.head? ≠ some '.') :
    segmentsFrom r.referenceFinder (some '.') 0 (framed true t true ++ v) =
      .inl '[' :: .inr ⟨t ++ [']'], t⟩ :: segmentsFrom r.referenceFinder (some ']') 0 v := by
  have htables := fun k hk => (hr.tables k hk).1
  obtain ⟨hne, hall⟩ := hr.table_run ht
  have hframed : framed false t true = t ++ [']'] := rfl
  have hfound : r.finder (some '[') ((t ++ [']']) ++ v) = some (t, v) := by
    rw [finder_eq hr (by decide), ← hframed, schemaHere_eq_none hne hall false hv (by simp) hdot,
      tableHere_framed htables ht false hv (by simp)]
    rfl
  rw [framed_true, cons_append,
    segmentsFrom_of_none (referenceFinder_of_qualifier (by decide) _),
    segmentsFrom_of_found (by simp) (referenceFinder_of_found hfound), getLast?_concat]

/-- **A table behind a dot**: without brackets it is kept. -/
theorem exists_parts_table (ht : isSpelled r.map.tableNames t) (hv : atWordEnd v)
    (hdot : bracketed → isSpelled r.schemas t → v.head? ≠ some '.') :
    ∃ ps, sourceText ps = v ∧
      segmentsFrom r.referenceFinder (some '.') 0 (framed bracketed t bracketed ++ v) =
        (if bracketed then [.inl '[', .inr ⟨t ++ [']'], t⟩] else t.map .inl) ++ ps := by
  cases bracketed with
  | true => exact ⟨_, sourceText_segmentsFrom hr _ v, segmentsFrom_bracketed_table hr ht hv (hdot rfl)⟩
  | false =>
    obtain ⟨hne, hall⟩ := hr.table_run ht
    refine ⟨_, sourceText_segmentsFrom hr (some '_') v, ?_⟩
    rw [framed_false, segmentsFrom_behind_dot hne hall]
    rfl

/-- Behind a foreign name, a schema in brackets is found with its table, without its opening bracket. -/
theorem segmentsFrom_bracketed_schema (hs : isSpelled r.schemas s)
    (ht : isSpelled r.map.tableNames t) (hv : atWordEnd v)
    (hclosing : bracketed = false → v.head? ≠ some ']') :
    ∃ prev, segmentsFrom r.referenceFinder (some '.') 0
        (framed true s true ++ '.' :: (framed bracketed t bracketed ++ v)) =
      .inl '[' :: .inr ⟨s ++ ']' :: '.' :: framed bracketed t bracketed, t⟩ ::
        segmentsFrom r.referenceFinder prev 0 v := by
  have htext : s ++ ']' :: '.' :: framed bracketed t bracketed ++ v =
      framed false s true ++ '.' :: (framed bracketed t bracketed ++ v) := by
    simp [framed, optional]
  have hfound : r.finder (some '[') (s ++ ']' :: '.' :: framed bracketed t bracketed ++ v) =
      some (t, v) := by
    rw [finder_eq hr (by decide), htext, schemaHere_framed (fun k hk => (hr.schemas k hk).1) hs,
      bind_some, tableHere_framed (fun k hk => (hr.tables k hk).1) ht bracketed hv hclosing]
    rfl
  have hline : framed true s true ++ '.' :: (framed bracketed t bracketed ++ v) =
      '[' :: (s ++ ']' :: '.' :: framed bracketed t bracketed ++ v) := by
    rw [framed_true]
    simp
  refine ⟨(s ++ ']' :: '.' :: framed bracketed t bracketed).getLast?, ?_⟩
  rw [hline, segmentsFrom_of_none (referenceFinder_of_qualifier (by decide) _),
    segmentsFrom_of_found (by simp) (referenceFinder_of_found hfound)]

/-- **A line in front of a foreign name is laid out on its own.** -/
theorem exists_parts_foreign (hq : r.Foreign q) {u : Text}
    (hu : bracketed = false → u.getLast?.any isWord = false) (z : Text) :
    ∃ ps, sourceText ps = u ∧ r.parts (u ++ (framed bracketed q bracketed ++ '.' :: z)) =
      ps ++ ((framed bracketed q bracketed ++ ['.']).map .inl ++
        segmentsFrom r.referenceFinder (some '.') 0 z) := by
  have hproper := proper_referenceFinder hr
  obtain ⟨ps, hps⟩ := exists_segmentsFrom_append hproper
    (z := framed bracketed q bracketed ++ '.' :: z) u none fun x' hx' hne prev found rest hfind => by
      obtain ⟨⟨name, rest'⟩, hfinder, heq⟩ := map_eq_some_iff.mp hfind
      obtain ⟨-, rfl⟩ := Prod.mk.inj heq
      refine hq.not_reached hr (fun h => ?_) (fun _ => rfl) hfinder
      have hlast : x'.getLast? = u.getLast? := by
        obtain ⟨y, rfl⟩ := hx'
        rw [getLast?_append, getLast?_eq_some_getLast hne, some_or]
      rw [hlast]
      exact hu h
  refine ⟨ps, ?_, ?_⟩
  · have hsource := congrArg sourceText hps
    rw [sourceText, sourceText, flatMap_append, ← sourceText, ← sourceText, ← sourceText,
      sourceText_segmentsFrom hr, sourceText_segmentsFrom hr] at hsource
    exact (append_cancel_right hsource).symm
  · rw [parts, segments, hps, segmentsFrom_foreign hr hq]

end

/-! ### Brackets that enclose identifiers -/

/-- **Square brackets only enclose identifiers.** -/
inductive Enclosing : Text → Prop
  | nil : Enclosing []
  | other {c : Char} {t : Text} (opening : c ≠ '[') (closing : c ≠ ']') (rest : Enclosing t) :
      Enclosing (c :: t)
  | brackets {w t : Text} (isIdentifier : isIdentifier w) (rest : Enclosing t) :
      Enclosing ('[' :: (w ++ ']' :: t))

theorem Enclosing.count_eq (h : Enclosing t) : t.count '[' = t.count ']' := by
  induction h with
  | nil => rfl
  | other opening closing _ ih =>
    rw [count_cons_of_ne opening, count_cons_of_ne closing, ih]
  | brackets isIdentifier _ ih =>
    have hw := all_isWord_of_identifier isIdentifier
    have hopening := count_of_all_isWord hw (show isWord '[' = false by decide)
    have hclosing := count_of_all_isWord hw (show isWord ']' = false by decide)
    simp [List.count_append, hopening, hclosing, ih]

/-- **The brackets before a cut.** If the cut is not within a word, one bracket is open just when it is the
last character before the cut, or closed by the first character behind it. -/
theorem Enclosing.count_append {x y : Text} (h : Enclosing (x ++ y))
    (hcut : x.getLast?.any isWord = false ∨ y.head?.any isWord = false) :
    x.count '[' = x.count ']' + if x.getLast? = some '[' ∨ y.head? = some ']' then 1 else 0 := by
  generalize ht : x ++ y = t at h
  induction h generalizing x with
  | nil =>
    obtain ⟨rfl, rfl⟩ := append_eq_nil_iff.mp ht
    rfl
  | @other c t opening closing rest ih =>
    rcases x with _ | ⟨d, x⟩
    · rw [nil_append] at ht
      simp [ht, closing]
    · obtain ⟨rfl, hxy⟩ := List.cons.inj ht
      have hlast : (d :: x).getLast? = some '[' ↔ x.getLast? = some '[' := by
        rw [getLast?_cons]
        cases x.getLast? <;> simp [opening]
      have hrest := ih ?_ hxy
      · rw [count_cons_of_ne opening, count_cons_of_ne closing, hrest]
        simp only [hlast]
      · refine hcut.imp_left fun hword => ?_
        rw [getLast?_cons] at hword
        cases hx : x.getLast? with
        | none => rfl
        | some e => rwa [hx] at hword
  | @brackets w t isIdentifier rest ih =>
    have hw := all_isWord_of_identifier isIdentifier
    rcases x with _ | ⟨d, x⟩
    · rw [nil_append] at ht
      simp [ht]
    · obtain ⟨rfl, hxy⟩ := List.cons.inj ht
      -- a part of the word before the cut has no brackets
      have hpart : ∀ {v : Text}, v ⊆ w → ('[' :: v).count '[' = 1 ∧ ('[' :: v).count ']' = 0 := by
        intro v hv
        have hall : v.all isWord :=
          List.all_eq_true.mpr fun c hc => List.all_eq_true.mp hw c (hv hc)
        rw [count_cons_self, count_cons_of_ne (by decide),
          count_of_all_isWord hall (by decide), count_of_all_isWord hall (by decide)]
        exact ⟨rfl, rfl⟩
      rcases append_eq_append_iff.mp hxy with ⟨v, rfl, rfl⟩ | ⟨x', rfl, hy⟩
      · obtain ⟨hopening, hclosing⟩ := hpart (subset_append_left x v)
        rw [hopening, hclosing]
        rcases v with _ | ⟨b, v⟩
        · simp
        · have hb : isWord b := List.all_eq_true.mp hw b (by simp)
          have hlast : ('[' :: x).getLast?.any isWord = false := by simpa [hb] using hcut
          obtain rfl : x = [] := by
            by_contra hne
            rw [getLast?_cons, getLast?_eq_some_getLast hne] at hlast
            have hword := List.all_eq_true.mp hw _ (mem_append_left _ (getLast_mem hne))
            simp [hword] at hlast
          simp
      · rcases x' with _ | ⟨e, x'⟩
        · obtain ⟨hopening, hclosing⟩ := hpart (List.Subset.refl w)
          rw [nil_append] at hy
          rw [append_nil, hopening, hclosing, ← hy]
          simp
        · obtain ⟨rfl, hxy'⟩ := List.cons.inj hy
          obtain ⟨hopening, hclosing⟩ := hpart (List.Subset.refl w)
          have hlast : ('[' :: (w ++ ']' :: x')).getLast? = x'.getLast?.or (some ']') := by
            rw [← cons_append, getLast?_append, getLast?_cons]
            cases x'.getLast? <;> rfl
          have hrest := ih (x := x') ?_ hxy'.symm
          · rw [← cons_append, List.count_append, List.count_append, hopening, hclosing,
              count_cons_of_ne (by decide), count_cons_self, hrest, cons_append, hlast]
            cases x'.getLast? <;> simp <;> omega
          · refine hcut.imp_left fun hword => ?_
            rw [hlast] at hword
            cases hx : x'.getLast? with
            | none => rfl
            | some e => rwa [hx] at hword

/-! ### Brackets that are left over -/

/-- The references that start right behind an opening bracket. -/
def opened : (prev : Option Char) → List (Char ⊕ Reference) → ℕ
  | _, [] => 0
  | _, .inl c :: ps => opened (some c) ps
  | prev, .inr found :: ps => (if prev = some '[' then 1 else 0) + opened found.text.getLast? ps

/-- The references that end right before a closing bracket. -/
def closed : List (Char ⊕ Reference) → ℕ
  | [] => 0
  | .inl _ :: ps => closed ps
  | .inr _ :: ps => (if (sourceText ps).head? = some ']' then 1 else 0) + closed ps

section

variable (hr : r.KeyNames)
include hr

/-- **The brackets that are kept.** `x` is the line up to the position. -/
theorem count_keptText (prev : Option Char) (t : Text) : ∀ x : Text, x.getLast? = prev → Enclosing (x ++ t) →
    let ps := segmentsFrom r.referenceFinder prev 0 t
    x.count '[' + (keptText ps).count '[' + closed ps =
      x.count ']' + (keptText ps).count ']' + opened prev ps := by
  refine segmentsFrom_induction (proper_referenceFinder hr) (P := fun prev t ps =>
    ∀ x : Text, x.getLast? = prev → Enclosing (x ++ t) →
      x.count '[' + (keptText ps).count '[' + closed ps =
        x.count ']' + (keptText ps).count ']' + opened prev ps) ?_ ?_ ?_ prev t
  · intro prev x _ h
    rw [append_nil] at h
    rw [h.count_eq]
    rfl
  · intro prev c t _ ih x _ h
    have hrest := ih (x ++ [c]) getLast?_concat (by rwa [append_assoc])
    rw [List.count_append, List.count_append] at hrest
    rw [keptText, filterMap_cons_some (by rfl), ← keptText, ← singleton_append,
      List.count_append, List.count_append, closed, opened]
    omega
  · intro prev m found rest hm hfind ih x hx h
    obtain ⟨heq, hprev, hreference, hend⟩ := exists_of_referenceFinder hr hfind
    obtain rfl : m = found.text := append_cancel_right heq
    have hlast : (x ++ found.text).getLast? = found.text.getLast? := by
      rw [getLast?_append, getLast?_eq_some_getLast hm, some_or]
    have hrest := ih (x ++ found.text) hlast (by rwa [append_assoc])
    -- before the reference a bracket is open if it starts right behind it
    have hfree : x.getLast?.any isWord = false := by
      have hstart := atWordStart_of_qualifier hprev
      rw [hx]
      cases prev with
      | none => rfl
      | some c => simpa [atWordStart] using hstart
    have hhead : (found.text ++ rest).head? ≠ some ']' := by
      have hany := hreference.head?_any hr
      rw [head?_append]
      cases htext : found.text.head? with
      | none => rw [htext] at hany; cases hany
      | some c =>
        rw [htext, any_some] at hany
        rintro heq
        obtain rfl := Option.some.inj heq
        cases hany
    have hstart := h.count_append (.inl hfree)
    simp only [hx, hhead, or_false] at hstart
    -- and behind it if it ends right before the closing one
    have hopening : found.text.getLast? ≠ some '[' := by
      have hany := hreference.getLast?_any hr
      intro heq
      rw [heq] at hany
      cases hany
    have hword : rest.head?.any isWord = false := by
      cases rest with
      | nil => rfl
      | cons c rest => simpa [atWordEnd] using hend
    have hstop := (append_assoc x found.text rest ▸ h).count_append (.inr hword)
    simp only [hlast, hopening, false_or] at hstop
    rw [keptText, filterMap_cons_none (by rfl), ← keptText, closed, opened,
      sourceText_segmentsFrom hr, hstart]
    rw [hstop] at hrest
    omega

end

/-! ### Lines of a renamed body -/

/-- **A line of a renamed body** is the line with its tables renamed, and then columns of the map. -/
theorem exists_columns_of_renameBody {earlier : List (List Text)} {body lines : List Text}
    (h : (r.renameBody (r.columnsAfter earlier) body).result = .ok lines) {i : ℕ} {after : Text}
    (hline : body[i]? = some line) (hafter : lines[i]? = some after) :
    ∃ resolved columns, r.resolveLine line = .ok resolved ∧ (∀ c ∈ columns, c ∈ r.map.allColumns) ∧
      after = renameColumns columns (r.writeLine resolved) := by
  obtain ⟨blocks, hpartition, hin⟩ :=
    renamePortions_partition body (coherent_columnsAfter r earlier) h
  by_cases hinside : ∃ b ∈ blocks, b.Contains i
  · obtain ⟨b, hb, hle, hstop⟩ := hinside
    obtain ⟨resolved, hresolved, hlines⟩ := hin.inside b hb
    have hgetAfter := b.getElem?_slice lines hle hstop
    rw [hlines, hafter, writeBlock, getElem?_map, map_eq_some_iff] at hgetAfter
    obtain ⟨res, hres, rfl⟩ := hgetAfter
    refine ⟨res, _, ?_, fun c hc => (areRenamed_flatMap _ c hc).1, rfl⟩
    have hget := b.getElem?_slice body hle hstop
    rw [hline] at hget
    obtain ⟨hlt, rfl⟩ := List.getElem?_eq_some_iff.mp hget
    obtain ⟨hlt', rfl⟩ := List.getElem?_eq_some_iff.mp hres
    exact (mapM_eq_ok_iff.mp hresolved).get hlt hlt'
  · have hkept := hin.outside i fun b hb hcontains => hinside ⟨b, hb, hcontains⟩
    rw [hafter, hline] at hkept
    obtain rfl := Option.some.inj hkept
    have hmentions : r.mentionsTable after = false := by
      refine Bool.eq_false_of_not_eq_true fun hmentions => hinside ?_
      obtain ⟨b, ⟨hb, hcontains⟩, -⟩ := hpartition.covers i after hline hmentions
      exact ⟨b, hb, hcontains⟩
    exact ⟨_, [], resolveLine_of_not_mentions hmentions, by simp, (writeLine_map_inl after).symm⟩

/-- All names are identifiers: those of schemas, tables and columns, old and new. -/
def AllIdentifiers (r : Renaming) : Prop :=
  ∀ w ∈ r.schemaWords ++ r.tableWords ++ r.columnWords, isIdentifier w

section

variable {w : Text}

theorem AllIdentifiers.columns (h : r.AllIdentifiers) : IdentifierColumns r.map.allColumns := by
  intro c hc
  obtain ⟨hsource, hname⟩ := mem_columnWords hc
  exact ⟨h _ (mem_append_right _ hsource), h _ (mem_append_right _ hname)⟩

theorem AllIdentifiers.table (h : r.AllIdentifiers) (hw : w ∈ r.tableWords) :
    isIdentifier w :=
  h w (mem_append_left _ (mem_append_right _ hw))

theorem AllIdentifiers.schema (h : r.AllIdentifiers) (hw : w ∈ r.schemaWords) :
    isIdentifier w :=
  h w (mem_append_left _ (mem_append_left _ hw))

theorem AllIdentifiers.keyNames (h : r.AllIdentifiers) {entries : List NameEntry}
    (hmap : r.map = NameMap.ofEntries entries) : r.KeyNames where
  schemas k hk := by
    obtain ⟨s, hs, rfl⟩ := mem_schemas_iff.mp hk
    exact isIdentifier_lower (h.schema hs)
  tables k hk := by
    obtain ⟨t, ht, rfl⟩ := mem_tableNames_iff.mp hk
    have hid := h.table (mem_tableWords ht).1
    obtain ⟨source, hsource⟩ := NameMap.exists_source entries t (hmap ▸ ht)
    refine ⟨hid, ?_⟩
    rw [hsource]
    exact lower_lower source

theorem KeyNames.isSpelled_schemas (hr : r.KeyNames) (hw : isIdentifier w) :
    isSpelled r.schemas w = r.isSchema w := by
  rw [Bool.eq_iff_iff, isSpelled_iff_lower_mem hr.schemas (isIdentifier_iff.mp hw).2, isSchema_iff]

theorem KeyNames.isSpelled_tables (hr : r.KeyNames) (hw : isIdentifier w) :
    isSpelled r.map.tableNames w = r.isTable w := by
  rw [Bool.eq_iff_iff, isSpelled_iff_lower_mem hr.tables (isIdentifier_iff.mp hw).2, isTable_iff]

theorem KeyNames.foreign (hr : r.KeyNames) (hw : isIdentifier w)
    (hschema : r.isSchema w = false) (htable : r.isTable w = false) : r.Foreign w where
  ne_nil := (isIdentifier_iff.mp hw).1
  all_isWord := all_isWord_of_identifier hw
  not_schema := (hr.isSpelled_schemas hw).trans hschema
  not_table := (hr.isSpelled_tables hw).trans htable

/-- The new name of a table has no brackets. -/
theorem AllIdentifiers.count_writtenTable (h : r.AllIdentifiers) {k : Text} {t : NewTable}
    (ht : (k, t) ∈ r.map.tables) (hc : isWord c = false) (hdot : c ≠ '.') :
    (r.writtenTable t).count c = 0 := by
  have hname := count_of_all_isWord (all_isWord_of_identifier (h.table (mem_tableWords ht).2)) hc
  unfold writtenTable
  split_ifs with hplain
  · exact hname
  · have hschema : t.schema ∈ r.schemaWords := by
      rw [schemaWords]
      refine mem_cons_of_mem _ (mem_cons_of_mem _ (List.mem_map.mpr ⟨(k, t), ?_, rfl⟩))
      simp only [Bool.or_eq_true, not_or] at hplain
      simp [ht, hplain.1]
    rw [List.count_append, count_cons_of_ne (Ne.symm hdot), hname,
      count_of_all_isWord (all_isWord_of_identifier (h.schema hschema)) hc]

/-- **The brackets of a line with new tables are those that are kept.** -/
theorem AllIdentifiers.count_writeLine (h : r.AllIdentifiers) (hc : isWord c = false)
    (hdot : c ≠ '.') {resolved : List (Char ⊕ NewTable)}
    (hresolved : r.resolveLine line = .ok resolved) :
    (r.writeLine resolved).count c = (keptText (r.parts line)).count c := by
  rw [resolveLine, segments, segmentsFrom_finder_eq, ← segments, ← parts, mapM_eq_ok_iff,
    forall₂_map_left_iff] at hresolved
  generalize r.parts line = ps at hresolved ⊢
  induction hresolved with
  | nil => rfl
  | @cons p t ps ts hfirst _ ih =>
    cases p with
    | inl d =>
      obtain rfl : .inl d = t := Except.ok.inj hfirst
      rw [keptText, filterMap_cons_some (by rfl), ← keptText, count_cons, ← ih, writeLine,
        flatMap_cons, List.count_append, count_singleton, Nat.add_comm]
      rfl
    | inr found =>
      obtain ⟨new, hnew, rfl⟩ : ∃ new, r.map.table? found.name = some new ∧ t = .inr new := by
        simp only [Sum.map_inr, resolve] at hfirst
        cases htable : r.map.table? found.name with
        | none => rw [htable] at hfirst; cases hfirst
        | some new => rw [htable] at hfirst; exact ⟨new, rfl, (Except.ok.inj hfirst).symm⟩
      obtain ⟨l₁, l₂, hl, -⟩ := lookup_eq_some_iff.mp hnew
      have hin : (found.name.lower, new) ∈ r.map.tables := by rw [hl]; simp
      rw [keptText, filterMap_cons_none (by rfl), ← keptText, ← ih, writeLine, flatMap_cons,
        List.count_append, h.count_writtenTable hin hc hdot, Nat.zero_add]
      rfl

end

/-! ### The rule -/

/-- **What becomes of brackets.** -/
structure BracketRule (r : Renaming) : Prop where
  /-- The parts of a line make up the line. -/
  sourceText_parts : ∀ line, sourceText (r.parts line) = line
  /-- The renaming replaces the references among the parts and nothing else. -/
  segments_eq : ∀ line, segments r.finder line = (r.parts line).map (Sum.map id Reference.name)
  /-- **A table behind a foreign name** is kept if it has no brackets. With brackets it is found, and
  replaced together with the closing bracket only. -/
  foreign_table : ∀ {q t : Text} (u v : Text) (b b' : Bool), isIdentifier q →
    r.isSchema q = false → r.isTable q = false → isIdentifier t → r.isTable t →
    (b = false → u.getLast?.any isWord = false) → atWordEnd v →
    (b' → r.isSchema t → v.head? ≠ some '.') →
    ∃ ps ps', sourceText ps = u ∧ sourceText ps' = v ∧
      r.parts (u ++ (framed b q b ++ '.' :: (framed b' t b' ++ v))) =
        ps ++ ((framed b q b ++ ['.']).map .inl ++
          ((if b' then [.inl '[', .inr ⟨t ++ [']'], t⟩] else t.map .inl) ++ ps'))
  /-- **A schema and a table behind a foreign name** are kept if neither has brackets. Otherwise the
  reference starts with the first of them that has brackets, behind the opening one. -/
  foreign_schema : ∀ {q s t : Text} (u v : Text) (b b' b'' : Bool), isIdentifier q →
    r.isSchema q = false → r.isTable q = false → isIdentifier s → r.isSchema s →
    isIdentifier t → r.isTable t →
    (b = false → u.getLast?.any isWord = false) → atWordEnd v →
    (b' → b'' = false → v.head? ≠ some ']') →
    (b' = false → b'' → r.isSchema t → v.head? ≠ some '.') →
    ∃ ps ps', sourceText ps = u ∧ sourceText ps' = v ∧
      r.parts (u ++ (framed b q b ++ '.' :: (framed b' s b' ++ '.' :: (framed b'' t b'' ++ v)))) =
        ps ++ ((framed b q b ++ ['.']).map .inl ++
          ((if b' then [.inl '[', .inr ⟨s ++ ']' :: '.' :: framed b'' t b'', t⟩]
            else (s ++ ['.']).map .inl ++
              if b'' then [.inl '[', .inr ⟨t ++ [']'], t⟩] else t.map .inl) ++ ps'))
  /-- **Brackets are left over** where references start or end within them. -/
  balance : ∀ (earlier : List (List Text)) (body lines : List Text),
    (r.renameBody (r.columnsAfter earlier) body).result = .ok lines →
    ∀ (i : ℕ) (line after : Text), body[i]? = some line → lines[i]? = some after → Enclosing line →
      after.count '[' + closed (r.parts line) = after.count ']' + opened none (r.parts line)

/-- **Brackets around tables.** In a renaming whose names are identifiers, a foreign name keeps the tables
behind it from being renamed as long as they have no brackets, but not those in brackets: the reference is
read from behind the opening bracket, which stays alone. In a line where brackets only enclose identifiers,
the renamed line has more opening than closing brackets by as many references as start right behind an
opening bracket, less those that end right before a closing one. -/
theorem bracketRule {entries : List NameEntry} (hmap : r.map = NameMap.ofEntries entries)
    (hnames : r.AllIdentifiers) : r.BracketRule := by
  have hr := hnames.keyNames hmap
  refine ⟨fun line => sourceText_segmentsFrom hr none line, fun line => segmentsFrom_finder_eq r line none 0,
    ?_, ?_, ?_⟩
  · intro q t u v b b' hq hqs hqt ht htt hu hv hdot
    have htable := (hr.isSpelled_tables ht).trans htt
    rw [← hr.isSpelled_schemas ht] at hdot
    obtain ⟨ps, hps, hparts⟩ := exists_parts_foreign hr (hr.foreign hq hqs hqt) hu (framed b' t b' ++ v)
    obtain ⟨ps', hps', hparts'⟩ := exists_parts_table hr htable hv hdot
    exact ⟨ps, ps', hps, hps', by rw [hparts, hparts']⟩
  · intro q s t u v b b' b'' hq hqs hqt hs hss ht htt hu hv hclosing hdot
    have hschema := (hr.isSpelled_schemas hs).trans hss
    have htable := (hr.isSpelled_tables ht).trans htt
    rw [← hr.isSpelled_schemas ht] at hdot
    obtain ⟨ps, hps, hparts⟩ := exists_parts_foreign hr (hr.foreign hq hqs hqt) hu
      (framed b' s b' ++ '.' :: (framed b'' t b'' ++ v))
    cases b' with
    | true =>
      obtain ⟨prev, hprev⟩ := segmentsFrom_bracketed_schema hr hschema htable hv (hclosing rfl)
      rw [hprev] at hparts
      exact ⟨ps, _, hps, sourceText_segmentsFrom hr _ v, hparts⟩
    | false =>
      obtain ⟨hne, hall⟩ := hr.schema_run hschema
      obtain ⟨ps', hps', hparts'⟩ := exists_parts_table hr htable hv (hdot rfl)
      refine ⟨ps, ps', hps, hps', ?_⟩
      rw [hparts, framed_false, segmentsFrom_behind_dot hne hall,
        Text.segmentsFrom_of_none (outsideWords_referenceFinder r _ _ (by decide)), hparts']
      simp
  · intro earlier body lines h i line after hline hafter henclosing
    obtain ⟨resolved, columns, hresolved, hcolumns, rfl⟩ := exists_columns_of_renameBody h hline hafter
    have hidentifiers : IdentifierColumns columns := fun c hc => hnames.columns c (hcolumns c hc)
    rw [count_renameColumns (by decide) hidentifiers, count_renameColumns (by decide) hidentifiers,
      hnames.count_writeLine (by decide) (by decide) hresolved,
      hnames.count_writeLine (by decide) (by decide) hresolved]
    have hcount := count_keptText hr none line [] rfl henclosing
    simp only [List.count_nil, Nat.zero_add] at hcount
    exact hcount

/-- A table in brackets behind a foreign name in brackets, with a word before it and a comma behind. -/
theorem bracketRule_jobs : jobsRenaming.AllIdentifiers ∧ jobsRenaming.BracketRule ∧
    ∃ ps ps', sourceText ps = "FROM ".toList ∧ sourceText ps' = ", x".toList ∧
      jobsRenaming.parts "FROM [other].[T_Jobs], x".toList =
        ps ++ ("[other].".toList.map .inl ++
          ([.inl '[', .inr ⟨"T_Jobs]".toList, "T_Jobs".toList⟩] ++ ps')) := by
  have hnames : jobsRenaming.AllIdentifiers := by
    unfold AllIdentifiers
    decide
  have hrule := bracketRule (r := jobsRenaming) rfl hnames
  have hline : "FROM ".toList ++ (framed true "other".toList true ++
      '.' :: (framed true "T_Jobs".toList true ++ ", x".toList)) = "FROM [other].[T_Jobs], x".toList := by
    decide
  have hkept : framed true "other".toList true ++ ['.'] = "[other].".toList := by decide
  have htext : "T_Jobs".toList ++ [']'] = "T_Jobs]".toList := by decide
  have hfound := hrule.foreign_table (q := "other".toList) (t := "T_Jobs".toList) "FROM ".toList
    ", x".toList true true (by decide) (by decide) (by decide) (by decide) (by decide) (by decide)
    (by decide) (by decide)
  rw [hline, hkept, htext] at hfound
  exact ⟨hnames, hrule, hfound⟩

end SqlRoutine.Renaming

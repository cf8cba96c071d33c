import SqlRoutine.Proofs.Body.Selection

/-! # Row counts among the assignments of a `SELECT`

A `SELECT` that assigns `@@rowcount` to some target is read as a row count before its list is looked at,
and one target is all that is left of it. So **the assignments of the line all survive just when each of
them that is kept assigns `@@rowcount` to this one target** (`rowCount_assigns_all_iff`); the target is
that of the last one, if nothing behind it mentions `@@rowcount`. -/

namespace SqlRoutine.Body

open List Text

variable {a : Assignment} {c : Char} {after before : List Assignment} {t target u : Text}

/-! ### The last target -/

theorem lastRowCountTarget?_append (ht : '\n' ∉ t)
    (h : lastRowCountTarget? u = some target) : lastRowCountTarget? (t ++ u) = some target := by
  induction t with
  | nil => exact h
  | cons c t ih =>
    obtain ⟨hc, ht⟩ := not_or.mp (mt mem_cons.mpr ht)
    rw [cons_append, lastRowCountTarget?, if_neg (Ne.symm hc), ih ht]

theorem lastRowCountTarget?_passed (ht : '\n' ∉ t) (hat : '@' ∉ t) :
    lastRowCountTarget? (t ++ u) = lastRowCountTarget? u := by
  induction t with
  | nil => rfl
  | cons c t ih =>
    obtain ⟨hc, ht⟩ := not_or.mp (mt mem_cons.mpr ht)
    obtain ⟨hc', hat⟩ := not_or.mp (mt mem_cons.mpr hat)
    have hnone : rowCountTarget? (c :: (t ++ u)) = none := by
      rw [rowCountTarget?, atName?, char?, if_neg (Ne.symm hc')]
      rfl
    rw [cons_append, lastRowCountTarget?, if_neg (Ne.symm hc), ih ht hat, hnone]
    cases lastRowCountTarget? u <;> rfl

theorem lastRowCountTarget?_of_none (hc : c ≠ '\n')
    (h : lastRowCountTarget? t = none) : lastRowCountTarget? (c :: t) = rowCountTarget? (c :: t) := by
  rw [lastRowCountTarget?, if_neg hc, h]

theorem exists_lastRowCountTarget? (hc : c ≠ '\n') (h : rowCountTarget? (c :: t) = some target) :
    ∃ last, lastRowCountTarget? (c :: t) = some last := by
  rw [lastRowCountTarget?, if_neg hc, h]
  cases lastRowCountTarget? t with
  | none => exact ⟨target, rfl⟩
  | some last => exact ⟨last, rfl⟩

/-! ### Assignments of the row count -/

/-- The value is `@@rowcount`, in any case. -/
def Assignment.isRowCount (a : Assignment) : Bool := decide (Spells rowCountName a.value.text)

theorem exists_rowCount {v : Text} (h : Spells rowCountName v) :
    ∃ w, v = '@' :: '@' :: w ∧ w ≠ [] ∧ w.all isWord := by
  have hkeys : rowCountName.map letterKey = '@' :: '@' :: "rowcount".toList := by decide
  rw [Spells, hkeys] at h
  obtain ⟨a, u, rfl, ha, hu⟩ := map_eq_cons_iff.mp h
  obtain ⟨b, w, rfl, hb, hw⟩ := map_eq_cons_iff.mp hu
  rw [eq_of_letterKey_eq (by decide) rfl ha, eq_of_letterKey_eq (by decide) rfl hb]
  refine ⟨w, rfl, ?_, ?_⟩
  · rintro rfl
    exact absurd hw (by decide)
  · refine all_eq_true.mpr fun c hc => ?_
    have hmem : letterKey c ∈ "rowcount".toList := by
      rw [← hw]
      exact mem_map_of_mem hc
    have hall : ("rowcount".toList.all fun k => isPlainLetter k && (isWord k && isWord k.toUpper)) =
        true := by decide
    obtain ⟨hplain, hforms⟩ := Bool.and_eq_true_iff.mp (all_eq_true.mp hall _ hmem)
    obtain ⟨hsmall, hcapital⟩ := Bool.and_eq_true_iff.mp hforms
    rcases eq_of_letterKey hplain rfl with heq | heq
    · rw [heq]
      exact hsmall
    · rw [heq]
      exact hcapital

namespace Assignment

variable {a : Assignment} (h : a.isRowCount) {post : Text} (hpost : atWordEnd post)
include h hpost

theorem rowCountTarget?_text : rowCountTarget? (a.text ++ post) = some a.target.text := by
  have hspells : Spells rowCountName a.value.text := of_decide_eq_true h
  obtain ⟨w, hvalue, -⟩ := exists_rowCount hspells
  have htext : a.text ++ post = '@' :: (a.target.text ++ (" = ".toList ++ a.value.text ++ post)) := by
    simp [text]
  have hname : atName? (a.text ++ post) =
      some (a.target.text, " = ".toList ++ a.value.text ++ post) := by
    rw [htext]
    exact name?_append a.target.notEmpty a.target.word rfl
  have hequals : char? '=' (trimStart (" = ".toList ++ a.value.text ++ post)) =
      some (' ' :: (a.value.text ++ post)) := rfl
  have hstart : trimStart (' ' :: (a.value.text ++ post)) = a.value.text ++ post := by
    rw [hvalue]
    rfl
  have hword : word? "@@rowcount".toList (a.value.text ++ post) = some post := by
    have hkeyword : keyword? "@@rowcount".toList (a.value.text ++ post) = some post :=
      keyword?_append hspells post
    rw [word?, hkeyword, Option.bind_some, hpost, if_pos rfl]
  unfold rowCountTarget?
  simp only [hname, hequals, hstart, hword, Option.bind_eq_bind, Option.bind_some]
  rfl

/-- **The target is that of the assignment**, if nothing behind it mentions the number of rows. -/
theorem lastRowCountTarget?_text (hequals : post.trimStart.head? ≠ some '=')
    (hnone : mentionsRowCount post = false) : lastRowCountTarget? (a.text ++ post) = some a.target.text := by
  obtain ⟨w, hvalue, hne, hword⟩ := exists_rowCount (of_decide_eq_true h)
  have hsigns : ∀ {t : Text}, t.all isWord → '\n' ∉ t ∧ '@' ∉ t := fun ht =>
    ⟨fun hmem => absurd (all_eq_true.mp ht _ hmem) (by decide),
      fun hmem => absurd (all_eq_true.mp ht _ hmem) (by decide)⟩
  -- the name of the variable is not read as a target of its own
  have hname : rowCountTarget? ('@' :: (w ++ post)) = none := by
    have hread : atName? ('@' :: (w ++ post)) = some (w, post) := by
      refine name?_append hne hword ?_
      cases post with
      | nil => rfl
      | cons c post => exact hpost
    have hchar : char? '=' post.trimStart = none := by
      refine Option.eq_none_iff_forall_ne_some.mpr fun rest hrest => hequals ?_
      rw [char?_eq_some_iff.mp hrest]
      rfl
    rw [rowCountTarget?, hread]
    simp only [Option.bind_eq_bind, Option.bind_some, hchar, Option.bind_none]
  have hwithin : lastRowCountTarget? (w ++ post) = none := by
    rw [lastRowCountTarget?_passed (hsigns hword).1 (hsigns hword).2, lastRowCountTarget?_none hnone]
  have hvariable : lastRowCountTarget? ('@' :: '@' :: (w ++ post)) = none := by
    have hsecond : lastRowCountTarget? ('@' :: (w ++ post)) = none := by
      rw [lastRowCountTarget?_of_none (by decide) hwithin, hname]
    rw [lastRowCountTarget?_of_none (by decide) hsecond]
    rfl
  have hrest :
      lastRowCountTarget? ((a.target.text ++ " = ".toList) ++ '@' :: '@' :: (w ++ post)) = none := by
    obtain ⟨hnewline, hat⟩ := hsigns a.target.word
    rw [lastRowCountTarget?_passed (by simp [hnewline]) (by simp [hat]), hvariable]
  have htext : a.text ++ post =
      '@' :: ((a.target.text ++ " = ".toList) ++ '@' :: '@' :: (w ++ post)) := by
    rw [text, hvalue]
    simp
  have hread := rowCountTarget?_text h hpost
  rw [htext] at hread ⊢
  rw [lastRowCountTarget?_of_none (by decide) hrest, hread]

end Assignment

/-! ### What mentions the row count -/

/-- A character that is not in `@@rowcount`. -/
def isOutside (c : Char) : Bool := rowCountName.all fun k => !sameLetter k c

theorem keyword?_outside {k : Text} (hk : (k.all fun a => !sameLetter a c))
    (t u : Text) : keyword? k (t ++ c :: u) = (keyword? k t).map (· ++ c :: u) := by
  induction k generalizing t with
  | nil => rfl
  | cons a k ih =>
    rw [all_cons, Bool.and_eq_true, Bool.not_eq_true'] at hk
    cases t with
    | nil => simp [keyword?, hk.1]
    | cons d t =>
      rw [cons_append, keyword?, keyword?]
      split_ifs
      · exact ih hk.2 t
      · rfl

/-- **A mention does not go beyond a character outside of it.** -/
theorem mentionsRowCount_append (hc : isOutside c) (t u : Text) :
    mentionsRowCount (t ++ c :: u) = (mentionsRowCount t || mentionsRowCount u) := by
  induction t with
  | nil =>
    have hnone : keyword? rowCountName (c :: u) = none := keyword?_outside hc [] u
    simp [mentionsRowCount, hnone]
  | cons d t ih =>
    have hread := keyword?_outside hc (d :: t) u
    rw [cons_append] at hread ⊢
    rw [mentionsRowCount, mentionsRowCount, hread, Option.isSome_map, ih, Bool.or_assoc]

theorem keyword?_sigil (hc : isWord c) (k t : Text) : keyword? ('@' :: k) (c :: t) = none := by
  have hother : ¬sameLetter '@' c := by
    intro hsame
    have hkey : letterKey c = '@' := (sameLetter_iff.mp hsame).symm.trans (by decide)
    rw [eq_of_letterKey_eq (by decide) rfl hkey] at hc
    exact absurd hc (by decide)
  rw [keyword?, if_neg hother]

/-- **A variable is no mention**: neither its sign nor its name. -/
theorem mentionsRowCount_variable {w : Text} (hw : w.all isWord) :
    mentionsRowCount ('@' :: w) = false := by
  have hname : rowCountName = '@' :: '@' :: "rowcount".toList := by decide
  have hword : mentionsRowCount w = false := by
    induction w with
    | nil => rfl
    | cons c w ih =>
      rw [all_cons, Bool.and_eq_true] at hw
      rw [mentionsRowCount, ih hw.2, hname, keyword?_sigil hw.1]
      rfl
  have hsign : keyword? rowCountName ('@' :: w) = none := by
    rw [hname, keyword?, if_pos (by decide)]
    cases w with
    | nil => rfl
    | cons c w =>
      rw [all_cons, Bool.and_eq_true] at hw
      exact keyword?_sigil hw.1 _ w
  rw [mentionsRowCount, hsign, hword]
  rfl

theorem Assignment.mentionsRowCount_text (a : Assignment) :
    mentionsRowCount a.text = mentionsRowCount a.value.text := by
  have hspace : isOutside ' ' := by decide
  have hequals : isOutside '=' := by decide
  have htext : a.text =
      ('@' :: a.target.text) ++ ' ' :: ([] ++ '=' :: ([] ++ ' ' :: a.value.text)) := by
    simp [text]
  rw [htext, mentionsRowCount_append hspace, mentionsRowCount_append hequals,
    mentionsRowCount_append hspace, mentionsRowCount_variable a.target.word]
  rfl

/-! ### The place of an assignment -/

/-- The assignments before another one. -/
def textBefore (items : List Assignment) : Text := items.flatMap fun a => a.text ++ ", ".toList

/-- The assignments after another one. -/
def textAfter (items : List Assignment) : Text := items.flatMap fun a => ", ".toList ++ a.text

theorem listText_split (before : List Assignment) (a : Assignment) (after : List Assignment) :
    listText (before ++ a :: after) = textBefore before ++ (a.text ++ textAfter after) := by
  induction before with
  | nil =>
    rw [nil_append]
    induction after generalizing a with
    | nil => simp [listText, join, textBefore, textAfter]
    | cons b after ih =>
      rw [listText_cons, ih b]
      simp [textBefore, textAfter]
  | cons b before ih =>
    obtain ⟨c, others, hcons⟩ : ∃ c others, before ++ a :: after = c :: others := by
      cases before with
      | nil => exact ⟨_, _, rfl⟩
      | cons c before => exact ⟨_, _, rfl⟩
    rw [cons_append, hcons, listText_cons, ← hcons, ih]
    simp [textBefore]

theorem mentionsRowCount_append_textAfter (t : Text) (after : List Assignment) :
    mentionsRowCount (t ++ textAfter after) =
      (mentionsRowCount t || mentionsRowCount (textAfter after)) := by
  have hcomma : isOutside ',' := by decide
  cases after with
  | nil => simp [textAfter, mentionsRowCount]
  | cons b after =>
    have htext : textAfter (b :: after) = [] ++ ',' :: (' ' :: (b.text ++ textAfter after)) := by
      simp [textAfter]
    rw [htext, mentionsRowCount_append hcomma [], nil_append, mentionsRowCount_append hcomma]
    rfl

theorem mentionsRowCount_textAfter (h : ∀ b ∈ after, mentionsRowCount b.value.text = false) :
    mentionsRowCount (textAfter after) = false := by
  have hcomma : isOutside ',' := by decide
  have hspace : isOutside ' ' := by decide
  induction after with
  | nil => rfl
  | cons b after ih =>
    have htext : textAfter (b :: after) = [] ++ ',' :: ([] ++ ' ' :: (b.text ++ textAfter after)) := by
      simp [textAfter]
    have hafter := ih fun c hc => h c (mem_cons_of_mem b hc)
    have hvalue := h b mem_cons_self
    rw [htext, mentionsRowCount_append hcomma, mentionsRowCount_append hspace,
      mentionsRowCount_append_textAfter, b.mentionsRowCount_text, hafter, hvalue]
    rfl

/-! ### The line -/

namespace Selection

variable (s : Selection)

/-- The list with the clause, around one of its assignments. -/
theorem code_split
    (h : s.items = before ++ a :: after) : ∃ tail, s.code = textBefore before ++ (a.text ++ (textAfter after ++ tail)) ∧
      atWordEnd (textAfter after ++ tail) ∧ (s.clause = none → tail = []) := by
  have hend : ∀ tail : Text, atWordEnd tail →
      atWordEnd (textAfter after ++ tail) := by
    intro tail htail
    cases after with
    | nil => exact htail
    | cons b after => rfl
  unfold code
  rw [h, listText_split]
  cases s.clause with
  | none => exact ⟨[], by simp, hend [] rfl, fun _ => rfl⟩
  | some clause => exact ⟨' ' :: clause.text, by simp, hend (' ' :: clause.text) rfl, nofun⟩

theorem oneLine_modifiers : '\n' ∉ s.modifiers.text := by
  have hlimit : ∀ top : Option RowLimit, '\n' ∉ limitText top := by
    intro top
    cases top with
    | none => exact nofun
    | some count =>
      have hdigits : '\n' ∉ count.text := fun hmem =>
        absurd (all_eq_true.mp count.digits _ hmem) (by decide)
      simp [limitText, hdigits]
  unfold Modifiers.text
  split_ifs
  · simpa using hlimit s.modifiers.top
  · exact hlimit s.modifiers.top

/-- The last target from an assignment on is that of the line. -/
theorem lastRowCountTarget?_code {tail : Text}
    (hcode : s.code = textBefore before ++ (a.text ++ (textAfter after ++ tail)))
    (h : lastRowCountTarget? (a.text ++ (textAfter after ++ tail)) = some target) :
    lastRowCountTarget? (' ' :: (s.modifiers.text ++ s.code)) = some target := by
  have hbefore : '\n' ∉ textBefore before := fun hmem => s.oneLine_code (by simp [hcode, hmem])
  have hfront : '\n' ∉ ' ' :: (s.modifiers.text ++ textBefore before) := by
    simp [s.oneLine_modifiers, hbefore]
  have hline : ' ' :: (s.modifiers.text ++ s.code) =
      (' ' :: (s.modifiers.text ++ textBefore before)) ++ (a.text ++ (textAfter after ++ tail)) := by
    simp [hcode]
  rw [hline]
  exact lastRowCountTarget?_append hfront h

/-- A row count is read off the line before its list is. -/
theorem ofLine?_rowCount
    (h : lastRowCountTarget? (' ' :: (s.modifiers.text ++ s.code)) = some target) :
    Statement.ofLine? s.source = some (.rowCount s.indent.text target) := by
  have hread : rowCount? s.source = some (.rowCount s.indent.text target) := by
    obtain ⟨hindent, htrim⟩ := indent_and_trimStart s.indent.blank "SELECT".toList rfl
      (' ' :: (s.modifiers.text ++ s.code))
    have hkeyword : ∀ t : Text, word? "SELECT".toList ("SELECT".toList ++ ' ' :: t) =
        some (' ' :: t) := by
      intro t
      rw [word?, keyword?_append rfl]
      rfl
    unfold rowCount? source
    simp only [hindent, htrim, hkeyword, h, Option.bind_eq_bind, Option.bind_some]
    rfl
  rw [s.ofLine?_source, hread, Option.some_or]

end Selection

/-! ### What is assigned -/

/-- **The line assigns the value to its target**, by one of the three statements that can. -/
inductive Assigns (p : Profile) (indent : Text) (a : Assignment) : Text → Prop
  /-- `GET DIAGNOSTICS _target = ROW_COUNT;`. -/
  | diagnostics (h : a.isRowCount) :
    Assigns p indent a (indent ++ "GET DIAGNOSTICS ".toList ++ a.localName ++ " = ROW_COUNT;".toList)
  /-- `_target := value;`. -/
  | direct : Assigns p indent a (indent ++ a.localName ++ " := ".toList ++ a.converted p ++ [';'])
  /-- `SELECT … value … INTO … _target …`. -/
  | into (modifiers rest : Text) (items : List (Text × Text))
    (h : (a.localName, a.converted p) ∈ items) :
    Assigns p indent a (selectInto indent modifiers items ++ rest)

theorem assigns_diagnostics_iff {p : Profile} {indent : Text} :
    Assigns p indent a (indent ++ "GET DIAGNOSTICS _".toList ++ target ++ " = ROW_COUNT;".toList) ↔
      a.target.text = target ∧ a.isRowCount := by
  have hname : ∀ x : Text, indent ++ "GET DIAGNOSTICS _".toList ++ x ++ " = ROW_COUNT;".toList =
      indent ++ "GET DIAGNOSTICS ".toList ++ ('_' :: x) ++ " = ROW_COUNT;".toList := by
    intro x
    simp
  generalize hline : indent ++ "GET DIAGNOSTICS _".toList ++ target ++ " = ROW_COUNT;".toList = line
  constructor
  · intro h
    cases h with
    | diagnostics hcount =>
      rw [hname, Assignment.localName] at hline
      refine ⟨?_, hcount⟩
      exact (List.cons.inj (append_cancel_left (append_cancel_right hline))).2.symm
    | direct =>
      simp only [append_assoc, append_cancel_left_eq] at hline
      cases hline
    | into modifiers rest items =>
      simp only [selectInto, append_assoc, append_cancel_left_eq] at hline
      cases hline
  · rintro ⟨rfl, hcount⟩
    rw [← hline, hname]
    exact .diagnostics hcount

/-- **All assignments of a line with a row count survive just when each that is kept assigns the row
count to the one target that is left.** If nothing behind the last row count mentions another one, its
target is the one. -/
theorem rowCount_assigns_all_iff (p : Profile) (s : Selection) (ahead : List Text)
    (hcount : ∃ a ∈ s.items, a.isRowCount = true) :
    ∃ target, Statement.ofLine? s.source = some (.rowCount s.indent.text target) ∧
      ((∀ a ∈ s.items, a.isKept = true → Assigns p s.indent.text a
          ((Statement.rowCount s.indent.text target).convert p ahead).value) ↔
        ∀ a ∈ s.items, a.isKept = true → a.target.text = target ∧ a.isRowCount = true) ∧
      ∀ before a after, s.items = before ++ a :: after → s.clause = none → a.isRowCount = true →
        (∀ b ∈ after, mentionsRowCount b.value.text = false) → target = a.target.text := by
  obtain ⟨a, ha, hrow⟩ := hcount
  obtain ⟨before, after, hitems⟩ := List.append_of_mem ha
  obtain ⟨tail, hcode, hend, -⟩ := s.code_split hitems
  obtain ⟨target, htarget⟩ :=
    exists_lastRowCountTarget? (by decide) (Assignment.rowCountTarget?_text hrow hend)
  have hlast := s.lastRowCountTarget?_code hcode htarget
  refine ⟨target, s.ofLine?_rowCount hlast, ?_, ?_⟩
  · refine forall₃_congr fun b _ _ => ?_
    exact assigns_diagnostics_iff
  · intro before a after hitems hclause hrow hnone
    obtain ⟨tail, hcode, hend, htail⟩ := s.code_split hitems
    rw [htail hclause, List.append_nil] at hend
    have hequals : (textAfter after).trimStart.head? ≠ some '=' := by
      cases after with
      | nil => exact nofun
      | cons b after => exact fun h => absurd (Option.some.inj h) (by decide)
    have hread :=
      Assignment.lastRowCountTarget?_text hrow hend hequals (mentionsRowCount_textAfter hnone)
    have hown : lastRowCountTarget? (a.text ++ (textAfter after ++ tail)) = some a.target.text := by
      rw [htail hclause, List.append_nil]
      exact hread
    rw [s.lastRowCountTarget?_code hcode hown] at hlast
    exact (Option.some.inj hlast).symm

/-- A row count after another assignment. -/
def countedSelection : Selection where
  indent := ⟨[], rfl⟩
  modifiers := {}
  first := ⟨⟨['a'], by decide, by decide⟩, by decide,
    ⟨"1".toList, by decide, by decide, by decide,
      ⟨by decide, by decide, by decide⟩, by decide⟩⟩
  others := [⟨⟨['n'], by decide, by decide⟩, by decide,
    ⟨"@@RowCount".toList, by decide, by decide, by decide,
      ⟨by decide, by decide, by decide⟩, by decide⟩⟩]
  clause := none

/-- The assignment before the row count is lost. -/
theorem rowCount_assigns_all_counted :
    (∃ a ∈ countedSelection.items, a.isRowCount = true) ∧
      Statement.ofLine? "SELECT @a = 1, @n = @@RowCount".toList = some (.rowCount [] "n".toList) ∧
      ¬∀ a ∈ countedSelection.items, a.isKept = true → Assigns .standard [] a
        ((Statement.rowCount [] "n".toList).convert .standard []).value := by
  have hcount : ∃ a ∈ countedSelection.items, a.isRowCount = true :=
    ⟨_, List.mem_cons_of_mem _ List.mem_cons_self, by decide⟩
  have hsource : countedSelection.source = "SELECT @a = 1, @n = @@RowCount".toList := by decide
  obtain ⟨target, hread, hiff, hlast⟩ := rowCount_assigns_all_iff .standard countedSelection [] hcount
  have htarget : target = "n".toList :=
    hlast [countedSelection.first] _ [] rfl rfl (by decide) nofun
  rw [hsource, htarget] at hread
  rw [htarget] at hiff
  refine ⟨hcount, hread, fun hall => ?_⟩
  have hfirst := hiff.mp hall countedSelection.first List.mem_cons_self (by decide)
  exact absurd hfirst.1 (by decide)

end SqlRoutine.Body

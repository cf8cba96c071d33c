import SqlRoutine.Code.Terminator
import SqlRoutine.Proofs.Code.Quoting

/-! # Statements without their terminators

`unterminated` leaves out the terminators after the code of a line and keeps the comment: two lines with
the same `unterminated` form are **the same up to statement terminators**. A terminator that is added
does not show in it (`unterminated_addTerminator`), and neither does it after the line has been tidied
up, because the form of the tidy line depends only on the form of the line
(`unterminated_collapseTerminators_expandTabs`). -/

namespace SqlRoutine.Code

open List Text

variable {quoted : Bool} {c : Char} {code comment m t u : Text}

/-! ### Texts with a comment -/

/-- The text ends inside a literal, if it starts inside one or not. -/
def endsQuoted (quoted : Bool) : Text → Bool
  | [] => quoted
  | c :: cs => endsQuoted (if c = quote then !quoted else quoted) cs

/-- **The comment of a text that goes on** is that of what comes after it, if it has none itself and no
dash at its end meets another one. -/
theorem splitAtDashes_append (h : commentFrom quoted m = [])
    (hjoin : m.getLast? = some '-' → u.head? ≠ some '-') :
    splitAtDashes quoted (m ++ u) = (m ++ (splitAtDashes (endsQuoted quoted m) u).1,
      (splitAtDashes (endsQuoted quoted m) u).2) := by
  induction m generalizing quoted with
  | nil => rfl
  | cons c m ih =>
    have hjoin' : m.getLast? = some '-' → u.head? ≠ some '-' := by
      intro hlast
      refine hjoin ?_
      cases m with
      | nil => cases hlast
      | cons d m => rwa [getLast?_cons_cons]
    rw [commentFrom_cons] at h
    rw [cons_append, splitAtDashes, endsQuoted]
    split_ifs at h ⊢ with hquote hdash hdash' hdash'
    · rw [ih h hjoin']
      rfl
    · -- the dash at the end of `m` would have to meet one at the start of `u`
      rw [Bool.and_eq_true, startsWith_dashes] at hdash hdash'
      obtain ⟨hopen, rfl, hhead⟩ := hdash
      cases m with
      | nil => exact absurd hhead (hjoin rfl)
      | cons d m => exact absurd ⟨hopen, rfl, hhead⟩ hdash'
    · rw [ih h hjoin']
      rfl

/-- A text is its code and its comment. The code has no comment, ends outside quotes and not with a
dash. -/
theorem splitAtDashes_spec (h : splitAtDashes quoted t = (code, comment)) (hcomment : comment ≠ []) :
    t = code ++ comment ∧ commentFrom quoted code = [] ∧ endsQuoted quoted code = false ∧
      code.getLast? ≠ some '-' ∧ ∃ rest, comment = '-' :: '-' :: rest := by
  induction t generalizing quoted code with
  | nil =>
    obtain ⟨-, rfl⟩ := Prod.mk.inj h
    exact absurd rfl hcomment
  | cons c cs ih =>
    rw [splitAtDashes] at h
    split_ifs at h with hquote hdash
    · obtain ⟨rfl, rfl⟩ := Prod.mk.inj h
      obtain ⟨hcs, hnone, hends, hlast, hrest⟩ := ih (Prod.mk.eta (p := splitAtDashes (!quoted) cs)).symm
      refine ⟨congrArg (c :: ·) hcs, ?_, ?_, ?_, hrest⟩
      · rw [commentFrom_cons, if_pos hquote, hnone]
      · rw [endsQuoted, if_pos hquote, hends]
      · cases hcode : (splitAtDashes (!quoted) cs).1 with
        | nil => rw [hquote]; decide
        | cons d ds => rw [getLast?_cons_cons, ← hcode]; exact hlast
    · obtain ⟨rfl, rfl⟩ := Prod.mk.inj h
      rw [Bool.and_eq_true, startsWith_dashes] at hdash
      obtain ⟨hopen, rfl, hhead⟩ := hdash
      obtain ⟨rest, rfl⟩ := head?_eq_some_iff.mp hhead
      refine ⟨rfl, rfl, ?_, by simp, rest, rfl⟩
      simpa [endsQuoted] using hopen
    · obtain ⟨rfl, rfl⟩ := Prod.mk.inj h
      obtain ⟨hcs, hnone, hends, hlast, hrest⟩ := ih (Prod.mk.eta (p := splitAtDashes quoted cs)).symm
      rw [Bool.and_eq_true, startsWith_dashes] at hdash
      refine ⟨congrArg (c :: ·) hcs, ?_, ?_, ?_, hrest⟩
      · rw [commentFrom_cons, if_neg hquote, if_neg, hnone]
        rw [Bool.and_eq_true, startsWith_dashes]
        rintro ⟨hopen, rfl, hhead⟩
        refine hdash ⟨hopen, rfl, ?_⟩
        rw [hcs, head?_append, hhead]
        rfl
      · rw [endsQuoted, if_neg hquote, hends]
      · cases hcode : (splitAtDashes quoted cs).1 with
        | nil =>
          -- a dash before the comment would belong to it
          rintro hlast
          obtain rfl := Option.some.inj hlast
          obtain ⟨rest, hcomment⟩ := hrest
          rw [hcode] at hcs hends
          refine hdash ⟨by simpa [endsQuoted] using hends, rfl, ?_⟩
          rw [hcs, hcomment]
          rfl
        | cons d ds => rw [getLast?_cons_cons, ← hcode]; exact hlast

theorem commentFrom_of_noDashes (h : ¬['-', '-'] <:+: t) (quoted : Bool) :
    commentFrom quoted t = [] := by
  by_contra hne
  rcases hs : splitAtDashes quoted t with ⟨code, comment⟩
  rw [commentFrom, hs] at hne
  obtain ⟨hsplit, -, -, -, rest, hdashes⟩ := splitAtDashes_spec hs hne
  exact h ⟨code, rest, by simp [hsplit, hdashes]⟩

theorem splitAtDashes_fst_append_snd (quoted : Bool) (t : Text) :
    (splitAtDashes quoted t).1 ++ (splitAtDashes quoted t).2 = t := by
  induction t generalizing quoted with
  | nil => rfl
  | cons c cs ih =>
    rw [splitAtDashes]
    split_ifs with hquote hdash
    · exact congrArg (c :: ·) (ih _)
    · rfl
    · exact congrArg (c :: ·) (ih _)

theorem codeOf_isPrefix (t : Text) : codeOf t <+: t := by
  have happend := splitAtDashes_fst_append_snd false t
  unfold codeOf splitComment
  split
  · exact prefix_rfl
  · rename_i code comment _ hcode
    rw [hcode] at happend
    exact (trimEnd_isPrefix code).trans ⟨comment, happend⟩

theorem splitAtDashes_of_none (h : commentFrom quoted t = []) : splitAtDashes quoted t = (t, []) := by
  have happend := splitAtDashes_fst_append_snd quoted t
  unfold commentFrom at h
  rw [h, append_nil] at happend
  exact Prod.ext happend h

theorem commentFrom_of_append (h : commentFrom quoted (m ++ u) = []) : commentFrom quoted m = [] := by
  induction m generalizing quoted with
  | nil => rfl
  | cons c m ih =>
    rw [cons_append, commentFrom_cons] at h
    rw [commentFrom_cons]
    split_ifs at h ⊢ with hquote hdash hdash' hdash'
    · exact ih h
    · rw [Bool.and_eq_true, startsWith_dashes] at hdash hdash'
      refine absurd ⟨hdash.1, hdash.2.1, ?_⟩ hdash'
      rw [head?_append, hdash.2.2]
      rfl
    · exact ih h

theorem endsQuoted_append_of_isBare (hu : isBare u) (m : Text) (quoted : Bool) :
    endsQuoted quoted (m ++ u) = endsQuoted quoted m := by
  induction m generalizing quoted with
  | nil =>
    induction u generalizing quoted with
    | nil => rfl
    | cons c u ih =>
      simp only [isBare, all_cons, Bool.and_eq_true, bne_iff_ne] at hu
      change endsQuoted (if c = quote then !quoted else quoted) u = quoted
      rw [if_neg hu.1.1]
      exact ih hu.2 quoted
  | cons c m ih => exact ih _

theorem commentFrom_append_of_isBare (hu : isBare u)
    (h : commentFrom quoted m = []) : commentFrom quoted (m ++ u) = [] := by
  have hhead : u.head? ≠ some '-' := by
    cases u with
    | nil => nofun
    | cons c u =>
      simp only [isBare, all_cons, Bool.and_eq_true, bne_iff_ne] at hu
      simpa using hu.1.2
  have hnone : ∀ q, commentFrom q u = [] := fun q => by
    rw [← append_nil u, commentFrom_append hu]
    rfl
  unfold commentFrom
  rw [splitAtDashes_append h fun _ => hhead]
  exact hnone _

/-! ### Codes without terminators -/

/-- The code without the terminators and blanks at its end. -/
def withoutTerminators (code : Text) : Text := code.dropEndWhile isTerminatorOrBlank

/-- **A line without the terminators of its code**: the code that is left, and the comment. -/
def unterminated (t : Text) : Text × Text := (withoutTerminators (codeOf t), (splitComment t).2)

theorem isBare_of_terminators (hu : u.all isTerminatorOrBlank) : isBare u := by
  rw [isBare, all_eq_true]
  intro c hc
  have hend := all_eq_true.mp hu c hc
  rw [Bool.and_eq_true, bne_iff_ne, bne_iff_ne]
  constructor
  · rintro rfl
    cases hend
  · rintro rfl
    cases hend

theorem withoutTerminators_append (hu : u.all isTerminatorOrBlank) (t : Text) :
    withoutTerminators (t ++ u) = withoutTerminators t := by
  unfold withoutTerminators dropEndWhile
  rw [reverse_append, dropWhile_append_of_pos]
  exact fun c hc => all_eq_true.mp hu c (mem_reverse.mp hc)

theorem withoutTerminators_append_run (t : Text) :
    ∃ run : Text, run.all isTerminatorOrBlank ∧ t = withoutTerminators t ++ run :=
  ⟨t.rtakeWhile isTerminatorOrBlank, all_eq_true.mpr fun _ => mem_rtakeWhile_imp,
    (rdropWhile_append_rtakeWhile ..).symm⟩

theorem withoutTerminators_trimEnd (t : Text) :
    withoutTerminators t.trimEnd = withoutTerminators t := by
  have hblanks : (t.rtakeWhile isBlank).all isTerminatorOrBlank :=
    all_eq_true.mpr fun c hc => by
      rw [isTerminatorOrBlank, mem_rtakeWhile_imp hc, Bool.or_true]
  have happend : t = t.trimEnd ++ t.rtakeWhile isBlank := (rdropWhile_append_rtakeWhile ..).symm
  rw [happend, withoutTerminators_append hblanks, ← happend]

theorem withoutTerminators_idem (t : Text) :
    withoutTerminators (withoutTerminators t) = withoutTerminators t :=
  rdropWhile_idempotent ..

theorem commentFrom_withoutTerminators (h : commentFrom quoted t = []) :
    commentFrom quoted (withoutTerminators t) = [] := by
  obtain ⟨run, -, hrun⟩ := withoutTerminators_append_run t
  rw [hrun] at h
  exact commentFrom_of_append h

theorem unterminated_eq (t : Text) :
    unterminated t = (withoutTerminators (splitAtDashes false t).1, commentFrom false t) := by
  rcases hs : splitAtDashes false t with ⟨code, comment⟩
  have happend := splitAtDashes_fst_append_snd false t
  unfold unterminated codeOf splitComment commentFrom
  rw [hs] at happend ⊢
  cases comment with
  | nil =>
    rw [append_nil] at happend
    rw [happend]
  | cons d comment => exact congrArg (·, d :: comment) (withoutTerminators_trimEnd code)

/-- **The form of a line that is put together** from code, terminators and a comment. -/
theorem unterminated_append {run : Text} (hcode : commentFrom false code = [])
    (hrun : run.all isTerminatorOrBlank)
    (hcomment : comment = [] ∨ (∃ rest, comment = '-' :: '-' :: rest) ∧
      endsQuoted false code = false ∧ (code ++ run).getLast? ≠ some '-') :
    unterminated (code ++ run ++ comment) = (withoutTerminators code, comment) := by
  have hnone : commentFrom false (code ++ run) = [] :=
    commentFrom_append_of_isBare (isBare_of_terminators hrun) hcode
  have hsplit : splitAtDashes false (code ++ run ++ comment) = (code ++ run, comment) := by
    rcases hcomment with rfl | ⟨⟨rest, rfl⟩, hends, hlast⟩
    · rw [append_nil]
      exact splitAtDashes_of_none hnone
    · rw [splitAtDashes_append hnone fun h => absurd h hlast,
        endsQuoted_append_of_isBare (isBare_of_terminators hrun), hends]
      simp [splitAtDashes, quote, startsWith]
  rw [unterminated_eq, commentFrom, hsplit, withoutTerminators_append hrun]

theorem addTerminator_of_none (h : commentFrom false t = []) :
    ∃ run : Text, run.all isTerminatorOrBlank ∧ addTerminator t = t ++ run := by
  unfold addTerminator
  rw [splitComment_of_none h]
  dsimp only [withComment]
  split_ifs with hblank hend
  · exact ⟨[], rfl, (append_nil t).symm⟩
  · exact ⟨[], rfl, (append_nil t).symm⟩
  · exact ⟨[';'], rfl, rfl⟩
  · contradiction
  · contradiction

/-- **An added terminator does not show.** -/
theorem unterminated_addTerminator (t : Text) : unterminated (addTerminator t) = unterminated t := by
  rcases hs : splitAtDashes false t with ⟨code, comment⟩
  have hform : unterminated t = (withoutTerminators code, comment) := by
    rw [unterminated_eq, commentFrom, hs]
  by_cases hnone : comment = []
  · subst hnone
    have hcomment : commentFrom false t = [] := by rw [commentFrom, hs]
    obtain ⟨run, hrun, hadd⟩ := addTerminator_of_none hcomment
    have hcode : code = t := (congrArg Prod.fst (splitAtDashes_of_none hcomment ▸ hs)).symm
    rw [hform, hadd, hcode, ← append_nil (t ++ run)]
    exact unterminated_append hcomment hrun (.inl rfl)
  obtain ⟨-, hcode, hends, -, hrest⟩ := splitAtDashes_spec hs hnone
  have hsplit : splitComment t = (code.trimEnd, comment) := by
    unfold splitComment
    rw [hs]
    cases comment with
    | nil => contradiction
    | cons d comment => rfl
  have happend : code = code.trimEnd ++ code.rtakeWhile isBlank :=
    (rdropWhile_append_rtakeWhile ..).symm
  have hbare : isBare (code.rtakeWhile isBlank) :=
    isBare_of_isBlank (all_eq_true.mpr fun _ => mem_rtakeWhile_imp)
  rw [happend] at hcode hends
  rw [endsQuoted_append_of_isBare hbare] at hends
  -- whatever terminator is added, a blank stands between it and the comment
  have hjoin : ∀ run : Text, run.all isTerminatorOrBlank →
      unterminated (withComment (code.trimEnd ++ run) comment) = unterminated t := by
    intro run hrun
    have hrun' : (run ++ [' ']).all isTerminatorOrBlank := by
      rw [all_append, hrun]
      rfl
    rw [withComment, if_neg (by simpa using hnone), append_cons, append_assoc code.trimEnd,
      unterminated_append (commentFrom_of_append hcode) hrun' (.inr ⟨hrest, hends, by simp⟩), hform,
      withoutTerminators_trimEnd]
  unfold addTerminator
  rw [hsplit]
  dsimp only
  split_ifs with hblank hend
  · rfl
  · rw [← hjoin [] rfl, append_nil]
  · exact hjoin [';'] rfl

/-! ### Tidy lines -/

/-- Each tab as four spaces. -/
def tabsAsSpaces (t : Text) : Text := t.flatMap fun c => if c = '\t' then [' ', ' ', ' ', ' '] else [c]

theorem tabsAsSpaces_nil : tabsAsSpaces [] = [] := rfl

theorem tabsAsSpaces_cons (hc : c ≠ '\t') (t : Text) :
    tabsAsSpaces (c :: t) = c :: tabsAsSpaces t := by
  simp [tabsAsSpaces, hc]

theorem tabsAsSpaces_append (t u : Text) :
    tabsAsSpaces (t ++ u) = tabsAsSpaces t ++ tabsAsSpaces u := flatMap_append

theorem head?_tabsAsSpaces (t : Text) : (tabsAsSpaces t).head? = some '-' ↔ t.head? = some '-' := by
  cases t with
  | nil => rfl
  | cons c t =>
    by_cases hc : c = '\t'
    · subst hc
      simp [tabsAsSpaces]
    · rw [tabsAsSpaces_cons hc]
      rfl

/-- **Spaces for tabs leave code and comment apart.** -/
theorem splitAtDashes_tabsAsSpaces (quoted : Bool) (t : Text) :
    splitAtDashes quoted (tabsAsSpaces t) =
      (tabsAsSpaces (splitAtDashes quoted t).1, tabsAsSpaces (splitAtDashes quoted t).2) := by
  induction t generalizing quoted with
  | nil => rfl
  | cons c cs ih =>
    by_cases hc : c = '\t'
    · subst hc
      have htab : tabsAsSpaces ('\t' :: cs) = [' ', ' ', ' ', ' '] ++ tabsAsSpaces cs := rfl
      have hstep : splitAtDashes quoted ('\t' :: cs) =
          ('\t' :: (splitAtDashes quoted cs).1, (splitAtDashes quoted cs).2) := by
        rw [splitAtDashes, if_neg (by decide), if_neg (by simp [startsWith])]
      have hspaces : endsQuoted quoted [' ', ' ', ' ', ' '] = quoted := by cases quoted <;> rfl
      rw [hstep, htab, splitAtDashes_append (by cases quoted <;> rfl) (by simp), hspaces, ih]
      rfl
    · have hdashes : startsWith (c :: tabsAsSpaces cs) ['-', '-'] =
          startsWith (c :: cs) ['-', '-'] := by
        rw [Bool.eq_iff_iff, startsWith_dashes, startsWith_dashes, head?_tabsAsSpaces]
      rw [tabsAsSpaces_cons hc, splitAtDashes, splitAtDashes, hdashes]
      split_ifs with hquote hdash
      · rw [ih]
        exact congrArg (·, _) (tabsAsSpaces_cons hc _).symm
      · rw [tabsAsSpaces_cons hc]
        rfl
      · rw [ih]
        exact congrArg (·, _) (tabsAsSpaces_cons hc _).symm

theorem withoutTerminators_tabsAsSpaces (t : Text) :
    withoutTerminators (tabsAsSpaces (withoutTerminators t)) = withoutTerminators (tabsAsSpaces t) := by
  obtain ⟨run, hrun, hsplit⟩ := withoutTerminators_append_run t
  have hspaces : (tabsAsSpaces run).all isTerminatorOrBlank := by
    rw [tabsAsSpaces, all_flatMap, all_eq_true]
    intro c hc
    split_ifs
    · rfl
    · simpa using all_eq_true.mp hrun c hc
  conv_rhs => rw [hsplit, tabsAsSpaces_append, withoutTerminators_append hspaces]

theorem trimEnd_append_cons (x : Text) (hc : isBlank c = false) (y : Text) :
    trimEnd (x ++ c :: y) = x ++ c :: trimEnd y := by
  have hlast : (c :: y).reverse.dropWhile isBlank = (c :: trimEnd y).reverse := by
    rw [← trimEnd_cons hc y, trimEnd, dropEndWhile, reverse_reverse]
  conv_lhs => rw [trimEnd, dropEndWhile, reverse_append, dropWhile_append, hlast]
  rw [if_neg (by simp), ← reverse_append, reverse_reverse]

/-- The run of terminators at the end of a text, from the first one on. -/
def terminatorRun (t : Text) : Text := (t.rtakeWhile isTerminatorOrBlank).dropWhile (· != ';')

theorem collapseTerminators_def (t : Text) :
    collapseTerminators t =
      if (terminatorRun t).count ';' ≥ 2 then
        t.take (t.length - (terminatorRun t).length) ++ ';' :: (terminatorRun t).rtakeWhile isBlank
      else t := rfl

/-- What stands before the run of terminators: the rest of the text, and blanks. -/
theorem take_terminatorRun (t : Text) : ∃ blanks : Text,
    blanks.all isTerminatorOrBlank ∧ ';' ∉ blanks ∧
      t.take (t.length - (terminatorRun t).length) = withoutTerminators t ++ blanks := by
  let start := (t.rtakeWhile isTerminatorOrBlank).takeWhile (· != ';')
  have hending : t = withoutTerminators t ++ t.rtakeWhile isTerminatorOrBlank :=
    (rdropWhile_append_rtakeWhile ..).symm
  have hstart : t.rtakeWhile isTerminatorOrBlank = start ++ terminatorRun t :=
    takeWhile_append_dropWhile.symm
  have hsplit : t = (withoutTerminators t ++ start) ++ terminatorRun t := by
    rw [append_assoc, ← hstart, ← hending]
  have hlength := congrArg List.length hsplit
  rw [length_append] at hlength
  refine ⟨start, all_eq_true.mpr fun c hc => ?_, fun hmem => ?_, ?_⟩
  · exact mem_rtakeWhile_imp (hstart ▸ mem_append_left _ hc)
  · simpa using mem_takeWhile_imp hmem
  · rw [hlength, Nat.add_sub_cancel]
    exact (prefix_iff_eq_take.mp ⟨_, hsplit.symm⟩).symm

theorem collapseTerminators_eq (t : Text) : ∃ run : Text, run.all isTerminatorOrBlank ∧
    collapseTerminators t = withoutTerminators t ++ run := by
  rw [collapseTerminators_def]
  split_ifs
  · obtain ⟨blanks, hblanks, -, htake⟩ := take_terminatorRun t
    refine ⟨blanks ++ ';' :: (terminatorRun t).rtakeWhile isBlank, ?_, by rw [htake, append_assoc]⟩
    rw [all_append, all_cons, Bool.and_eq_true, Bool.and_eq_true]
    refine ⟨hblanks, rfl, all_eq_true.mpr fun c hc => ?_⟩
    rw [isTerminatorOrBlank, mem_rtakeWhile_imp hc, Bool.or_true]
  · obtain ⟨run, hrun, hsplit⟩ := withoutTerminators_append_run t
    exact ⟨run, hrun, hsplit⟩

theorem terminatorRun_append_cons (x : Text) (hc : isTerminatorOrBlank c = false)
    (y : Text) : terminatorRun (x ++ c :: y) = terminatorRun y := by
  have hrun : (x ++ c :: y).rtakeWhile isTerminatorOrBlank = y.rtakeWhile isTerminatorOrBlank := by
    unfold List.rtakeWhile
    rw [reverse_append, reverse_cons, append_assoc, singleton_append,
      takeWhile_append]
    split_ifs with hall
    · rw [takeWhile_cons_of_neg (by simp [hc]), append_nil,
        (List.takeWhile_prefix _).eq_of_length hall]
    · rfl
  rw [terminatorRun, hrun, ← terminatorRun]

theorem length_terminatorRun_le (t : Text) : (terminatorRun t).length ≤ t.length :=
  (length_dropWhile_le ..).trans (rtakeWhile_suffix ..).length_le

theorem collapseTerminators_append_cons (x : Text) (hc : isTerminatorOrBlank c = false)
    (y : Text) : collapseTerminators (x ++ c :: y) = x ++ c :: collapseTerminators y := by
  have hle := length_terminatorRun_le y
  rw [collapseTerminators_def, collapseTerminators_def, terminatorRun_append_cons x hc]
  split_ifs
  · have hlength : (x ++ c :: y).length - (terminatorRun y).length =
        x.length + (y.length - (terminatorRun y).length + 1) := by
      rw [length_append, length_cons]
      omega
    rw [hlength, take_length_add_append, take_succ_cons, append_assoc, cons_append]
  · rfl

/-- **The form of a tidy line depends only on the form of the line.** -/
theorem unterminated_collapseTerminators_expandTabs (t : Text) :
    unterminated (collapseTerminators t.expandTabs) =
      (withoutTerminators (tabsAsSpaces (unterminated t).1),
        collapseTerminators (unterminated t).2.expandTabs) := by
  rcases hs : splitAtDashes false t with ⟨code, comment⟩
  have htabs := splitAtDashes_tabsAsSpaces false t
  rw [unterminated_eq t, commentFrom, hs, withoutTerminators_tabsAsSpaces]
  rw [hs] at htabs
  have happend := splitAtDashes_fst_append_snd false (tabsAsSpaces t)
  rw [htabs] at happend
  have hexpand : t.expandTabs = trimEnd (tabsAsSpaces code ++ tabsAsSpaces comment) :=
    congrArg trimEnd happend.symm
  by_cases hnone : comment = []
  · subst hnone
    have hcode : commentFrom false (tabsAsSpaces code) = [] := by
      rw [← append_nil (tabsAsSpaces code)]
      exact (congrArg (commentFrom false) happend).trans (congrArg Prod.snd htabs)
    obtain ⟨run, hrun, hcollapse⟩ := collapseTerminators_eq t.expandTabs
    rw [hcollapse, hexpand, withoutTerminators_trimEnd, tabsAsSpaces_nil, append_nil,
      ← append_nil (_ ++ run),
      unterminated_append (commentFrom_withoutTerminators hcode) hrun (.inl rfl),
      withoutTerminators_idem]
    rfl
  · obtain ⟨-, -, -, -, rest, rfl⟩ := splitAtDashes_spec hs hnone
    obtain ⟨-, hcode, hends, hlast, -⟩ := splitAtDashes_spec htabs (by simp [tabsAsSpaces])
    -- tidying up leaves the dashes of the comment and what stands before them as they are
    have htidy : ∀ x : Text,
        collapseTerminators (trimEnd (x ++ tabsAsSpaces ('-' :: '-' :: rest))) =
          x ++ '-' :: '-' :: collapseTerminators (trimEnd (tabsAsSpaces rest)) := fun x => by
      rw [tabsAsSpaces_cons (by decide), tabsAsSpaces_cons (by decide), append_cons,
        trimEnd_append_cons _ rfl, collapseTerminators_append_cons _ rfl, append_assoc,
        singleton_append]
    have hcomment : collapseTerminators (expandTabs ('-' :: '-' :: rest)) = _ := htidy []
    rw [hexpand, htidy, hcomment, nil_append]
    rw [← append_nil (tabsAsSpaces code)] at hlast ⊢
    rw [unterminated_append hcode rfl (.inr ⟨⟨_, rfl⟩, hends, hlast⟩), append_nil]

/-! ### Terminators at the end -/

/-- The terminators at the end of a text, where blanks between and behind them do not count. -/
def countTerminators (t : Text) : ℕ := (t.rtakeWhile isTerminatorOrBlank).count ';'

theorem rtakeWhile_append_of_all (hu : u.all isTerminatorOrBlank) (t : Text) :
    (t ++ u).rtakeWhile isTerminatorOrBlank = t.rtakeWhile isTerminatorOrBlank ++ u := by
  have hall : ∀ c ∈ u.reverse, isTerminatorOrBlank c :=
    fun c hc => all_eq_true.mp hu c (mem_reverse.mp hc)
  unfold List.rtakeWhile
  rw [reverse_append, takeWhile_append_of_pos hall, reverse_append,
    reverse_reverse]

theorem countTerminators_append (hu : u.all isTerminatorOrBlank) (t : Text) :
    countTerminators (t ++ u) = countTerminators t + u.count ';' := by
  rw [countTerminators, rtakeWhile_append_of_all hu, List.count_append]
  rfl

theorem countTerminators_withoutTerminators (t : Text) :
    countTerminators (withoutTerminators t) = 0 := by
  have hnil : (withoutTerminators t).rtakeWhile isTerminatorOrBlank = [] :=
    rtakeWhile_eq_nil_iff.mpr fun hne => rdropWhile_last_not _ t hne
  rw [countTerminators, hnil]
  rfl

theorem count_terminatorRun (t : Text) : (terminatorRun t).count ';' = countTerminators t := by
  have hsplit := takeWhile_append_dropWhile (p := (· != ';'))
    (l := t.rtakeWhile isTerminatorOrBlank)
  have hstart : ((t.rtakeWhile isTerminatorOrBlank).takeWhile (· != ';')).count ';' = 0 :=
    count_eq_zero.mpr fun hmem => by simpa using mem_takeWhile_imp hmem
  rw [countTerminators, ← hsplit, List.count_append, hstart, Nat.zero_add, terminatorRun]

/-- **At most one terminator is left at the end.** -/
theorem countTerminators_collapseTerminators (t : Text) :
    countTerminators (collapseTerminators t) ≤ 1 := by
  rw [collapseTerminators_def]
  split_ifs with hmany
  · obtain ⟨blanks, hblanks, hnone, htake⟩ := take_terminatorRun t
    have hafter : ∀ c ∈ (terminatorRun t).rtakeWhile isBlank, isBlank c :=
      fun _ => mem_rtakeWhile_imp
    have hlast : ((terminatorRun t).rtakeWhile isBlank).count ';' = 0 :=
      count_eq_zero.mpr fun hmem => absurd (hafter _ hmem) (by decide)
    have hrun : (blanks ++ ';' :: (terminatorRun t).rtakeWhile isBlank).all isTerminatorOrBlank =
        true := by
      rw [all_append, hblanks, Bool.true_and, all_cons, Bool.and_eq_true]
      refine ⟨rfl, all_eq_true.mpr fun c hc => ?_⟩
      rw [isTerminatorOrBlank, hafter c hc, Bool.or_true]
    rw [htake, append_assoc, countTerminators_append hrun, countTerminators_withoutTerminators,
      List.count_append, count_cons_self, hlast, count_eq_zero.mpr hnone]
  · rw [count_terminatorRun] at hmany
    omega

theorem mem_collapseTerminators (h : c ∈ collapseTerminators t) : c ∈ t ∨ c = ';' := by
  rw [collapseTerminators_def] at h
  split_ifs at h
  · rcases mem_append.mp h with h | h
    · exact .inl (mem_of_mem_take h)
    · rcases mem_cons.mp h with h | h
      · exact .inr h
      · have hrun := (dropWhile_suffix _).subset ((rtakeWhile_suffix ..).subset h)
        exact .inl ((rtakeWhile_suffix ..).subset hrun)
  · exact .inl h

/-- A text that ends in no blank does not get one at its end. -/
theorem getLast?_collapseTerminators (h : ∀ c, t.getLast? = some c → isBlank c = false)
    (c : Char) (hc : (collapseTerminators t).getLast? = some c) : isBlank c = false := by
  rw [collapseTerminators_def] at hc
  split_ifs at hc
  · have hblanks : (terminatorRun t).rtakeWhile isBlank = [] := by
      rw [rtakeWhile_eq_nil_iff]
      intro hne
      -- the run is at the end of the text, so both have the same last character
      have hsuffix : terminatorRun t <:+ t :=
        (dropWhile_suffix _).trans (rtakeWhile_suffix ..)
      obtain ⟨start, hstart⟩ := hsuffix
      have hlast : t.getLast? = some ((terminatorRun t).getLast hne) := by
        conv_lhs => rw [← hstart]
        rw [getLast?_append, getLast?_eq_some_getLast hne, Option.some_or]
      rw [h _ hlast]
      exact Bool.false_ne_true
    rw [hblanks, getLast?_concat] at hc
    rw [← Option.some.inj hc]
    rfl
  · exact h c hc

end SqlRoutine.Code

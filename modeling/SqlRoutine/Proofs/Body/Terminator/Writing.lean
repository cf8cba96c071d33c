import SqlRoutine.Proofs.Body.Discipline
import SqlRoutine.Proofs.Body.Share
import SqlRoutine.Proofs.Body.Terminator.Reading
import SqlRoutine.Proofs.Name.SnakeCase

/-! # Writing statements with a semicolon more

A semicolon that a statement has gained is absorbed if it ends up at the end of the line, where several
become one (`tidy_terminators`), and stays if something follows it (`tidy_inserted`). So whether a
statement absorbs it depends on its form (`Statement.Absorbs`, `Statement.Gains.tidy_eq_iff`). -/

namespace SqlRoutine.Code

open List

/-! ### Runs of terminators -/

/-- The text before its last run of terminators. -/
def beforeRun (t : Text) : Text := t.take (t.length - (terminatorRun t).length)

theorem terminatorRun_append {u : Text} (hu : u.all isTerminatorOrBlank) (t : Text) :
    terminatorRun (t ++ ';' :: u) = terminatorRun t ++ ';' :: u := by
  have hall : (';' :: u).all isTerminatorOrBlank := hu
  rw [terminatorRun, rtakeWhile_append_of_all hall, terminatorRun]
  by_cases hnil : (t.rtakeWhile isTerminatorOrBlank).dropWhile (· != ';') = []
  · rw [hnil, dropWhile_append_of_pos (dropWhile_eq_nil_iff.mp hnil),
      dropWhile_cons_of_neg (by decide), nil_append]
  · exact (Text.run_within hnil _).2

theorem beforeRun_append {u : Text} (hu : u.all isTerminatorOrBlank) (t : Text) :
    beforeRun (t ++ ';' :: u) = beforeRun t := by
  have hlength : (t ++ ';' :: u).length - (terminatorRun t ++ ';' :: u).length =
      t.length - (terminatorRun t).length := by
    rw [length_append, length_append]
    omega
  rw [beforeRun, terminatorRun_append hu, hlength, take_append_of_le_length (Nat.sub_le ..),
    beforeRun]

theorem beforeRun_of_not_mem {t : Text} (h : ';' ∉ t) : beforeRun t = t := by
  have hrun : terminatorRun t = [] := by
    rw [terminatorRun, dropWhile_eq_nil_iff]
    intro c hc
    exact bne_iff_ne.mpr fun heq => h (heq ▸ (rtakeWhile_suffix ..).subset hc)
  rw [beforeRun, hrun, length_nil, Nat.sub_zero, take_length]

theorem rtakeWhile_isBlank_concat (t : Text) : (t ++ [';']).rtakeWhile isBlank = [] := by
  rw [rtakeWhile_concat_neg]
  decide

/-- **Several semicolons at the end become one.** -/
theorem collapseTerminators_run {u : Text} (hu : u.all isTerminatorOrBlank) (t : Text) :
    collapseTerminators (t ++ ';' :: (u ++ [';'])) = beforeRun t ++ [';'] := by
  have hall : (u ++ [';']).all isTerminatorOrBlank := by
    rw [all_append, hu]
    rfl
  have hcount : (terminatorRun t ++ ';' :: (u ++ [';'])).count ';' ≥ 2 := by
    simp only [List.count_append, count_cons_self, count_nil]
    omega
  have hbefore := beforeRun_append hall t
  have hlast : terminatorRun t ++ ';' :: (u ++ [';']) = (terminatorRun t ++ ';' :: u) ++ [';'] := by simp
  rw [beforeRun, terminatorRun_append hall] at hbefore
  rw [collapseTerminators_def, terminatorRun_append hall, if_pos hcount, hbefore, hlast,
    rtakeWhile_isBlank_concat]

theorem collapseTerminators_concat (t : Text) : collapseTerminators (t ++ [';']) = beforeRun t ++ [';'] := by
  have hbefore := beforeRun_append (u := []) rfl t
  rw [beforeRun, terminatorRun_append rfl] at hbefore
  rw [collapseTerminators_def, terminatorRun_append rfl, hbefore, rtakeWhile_isBlank_concat]
  split_ifs with hcount
  · rfl
  · -- the run is the semicolon alone
    have hnil : terminatorRun t = [] := by
      have hhead := head?_dropWhile_not (· != ';') (t.rtakeWhile isTerminatorOrBlank)
      cases hrun : terminatorRun t with
      | nil => rfl
      | cons c run =>
        rw [terminatorRun] at hrun
        rw [hrun] at hhead
        have hc : c = ';' := by simpa using hhead
        exact absurd (by simp [terminatorRun, hrun, hc]) hcount
    rw [beforeRun, hnil, length_nil, Nat.sub_zero, take_length]

theorem tabsAsSpaces_all {P : Char → Bool} (hP : P ' ') {t : Text} (h : t.all P) :
    (tabsAsSpaces t).all P := by
  rw [tabsAsSpaces, all_flatMap, all_eq_true]
  intro c hc
  split_ifs
  · simp [hP]
  · simpa using all_eq_true.mp h c hc

theorem tabsAsSpaces_ne_nil {t : Text} (h : t ≠ []) : tabsAsSpaces t ≠ [] := by
  obtain ⟨c, t, rfl⟩ := exists_cons_of_ne_nil h
  rw [tabsAsSpaces, flatMap_cons]
  split_ifs <;> simp

theorem count_tabsAsSpaces (t : Text) : (tabsAsSpaces t).count ';' = t.count ';' := by
  induction t with
  | nil => rfl
  | cons c t ih =>
    by_cases hc : c = '\t'
    · subst hc
      exact ih
    · rw [tabsAsSpaces_cons hc, count_cons, count_cons, ih]

theorem trimEnd_append {b : Text} (hb : b.isBlank) (t : Text) :
    Text.trimEnd (t ++ b) = Text.trimEnd t := by
  have hall : ∀ c ∈ b.reverse, isBlank c :=
    fun c hc => Text.isBlank_eq_true_iff.mp hb c (mem_reverse.mp hc)
  rw [Text.trimEnd, Text.dropEndWhile, reverse_append, dropWhile_append_of_pos hall]
  rfl

end SqlRoutine.Code

namespace SqlRoutine.Body

open Code Expression List Text

variable {ahead : Bool} {c : Char} {items kept : List (Text × Text)}
  {b comment indent modifiers target u v value w w' y : Text}

/-! ### Tidy lines -/

theorem tidy_eq (t : Text) : tidy t = collapseTerminators (trimEnd (tabsAsSpaces t)) := rfl

/-- **A line is tidied up after its last visible character.** -/
theorem tidy_append_cons (x : Text) (hc : isTerminatorOrBlank c = false) (y : Text) :
    tidy (x ++ c :: y) = tabsAsSpaces x ++ c :: tidy y := by
  have htab : c ≠ '\t' := by
    rintro rfl
    cases hc
  have hblank : isBlank c = false := (Bool.or_eq_false_iff.mp hc).2
  rw [tidy_eq, tabsAsSpaces_append, tabsAsSpaces_cons htab, trimEnd_append_cons _ hblank,
    collapseTerminators_append_cons _ hc, tidy_eq]

theorem tidy_concat (t : Text) : tidy (t ++ [';']) = beforeRun (tabsAsSpaces t) ++ [';'] := by
  have hsemicolon : tabsAsSpaces [';'] = [';'] := rfl
  rw [tidy_eq, tabsAsSpaces_append, hsemicolon, trimEnd_append_cons _ rfl]
  exact collapseTerminators_concat _

/-- **Semicolons at the end of a line become one**, whatever blanks stand between them. -/
theorem tidy_terminators (hu : u.all isTerminatorOrBlank) (t : Text) :
    tidy (t ++ ';' :: (u ++ [';'])) = tidy (t ++ [';']) := by
  have htab : (';' : Char) ≠ '\t' := by decide
  have hsemicolon : tabsAsSpaces [';'] = [';'] := rfl
  have hlast : tabsAsSpaces t ++ ';' :: (tabsAsSpaces u ++ [';']) =
      tabsAsSpaces t ++ ';' :: tabsAsSpaces u ++ [';'] := by simp
  rw [tidy_concat, tidy_eq, tabsAsSpaces_append, tabsAsSpaces_cons htab, tabsAsSpaces_append,
    hsemicolon, hlast, trimEnd_append_cons _ rfl]
  exact (congrArg _ hlast.symm).trans (collapseTerminators_run (tabsAsSpaces_all rfl hu) _)

theorem tidy_append_isBlank (hb : b.isBlank) (t : Text) : tidy (t ++ b) = tidy t := by
  rw [tidy_eq, tabsAsSpaces_append, trimEnd_append (tabsAsSpaces_all rfl hb), tidy_eq]

/-- **What stands before something visible stays** as it is, but for its tabs. -/
theorem tidy_middle (hy : y.any (fun c => !isTerminatorOrBlank c)) {x : Text}
    (h : tidy (x ++ (u ++ y)) = tidy (x ++ (v ++ y))) : tabsAsSpaces u = tabsAsSpaces v := by
  obtain ⟨c, hmem, hc⟩ := List.any_eq_true.mp hy
  obtain ⟨y₁, y₂, rfl⟩ := append_of_mem hmem
  have hc : isTerminatorOrBlank c = false := by simpa using hc
  have hplace : ∀ w, x ++ (w ++ (y₁ ++ c :: y₂)) = (x ++ w ++ y₁) ++ c :: y₂ := by simp
  rw [hplace, hplace, tidy_append_cons _ hc, tidy_append_cons _ hc] at h
  have h := append_cancel_right h
  simp only [tabsAsSpaces_append, append_assoc] at h
  exact append_cancel_right (append_cancel_left h)

/-- **A semicolon before something visible stays.** -/
theorem tidy_inserted (hy : y.any (fun c => !isTerminatorOrBlank c)) (x : Text) :
    tidy (x ++ ';' :: y) ≠ tidy (x ++ y) :=
  fun h => nomatch tidy_middle (u := [';']) (v := []) hy h

theorem tidy_isBlank_concat (hb : b.isBlank) :
    tidy (b ++ [';']) = tabsAsSpaces b ++ [';'] := by
  have hblank : Text.isBlank (tabsAsSpaces b) := tabsAsSpaces_all rfl hb
  rw [tidy_concat, beforeRun_of_not_mem fun hin => ?_]
  cases isBlank_eq_true_iff.mp hblank _ hin

/-- **A semicolon at the end of a line is absorbed** if the line ends in one. -/
theorem tidy_concat_eq_iff (t : Text) : tidy (t ++ [';']) = tidy t ↔ t.trimEnd.getLast? = some ';' := by
  have hvisible : ∀ t : Text, Text.isBlank (t ++ [';']) = false := fun t =>
    isBlank_eq_false_iff.mpr ⟨';', by simp, rfl⟩
  have hsplit : t.trimEnd ++ t.rtakeWhile isBlank = t := rdropWhile_append_rtakeWhile ..
  have hb : Text.isBlank (t.rtakeWhile isBlank) :=
    isBlank_eq_true_iff.mpr fun _ => mem_rtakeWhile_imp
  generalize t.rtakeWhile isBlank = b at hsplit hb
  rcases eq_nil_or_concat t.trimEnd with hnil | ⟨y, c, hlast⟩
  · -- a blank line
    rw [hnil, nil_append] at hsplit
    subst hsplit
    rw [hnil]
    refine iff_of_false (fun heq => ?_) nofun
    have hblank := congrArg Text.isBlank heq
    rw [tidy_isBlank, tidy_isBlank, hvisible, hb] at hblank
    cases hblank
  · rw [concat_eq_append] at hlast
    have hc : isBlank c = false := getLast?_trimEnd t c (by rw [hlast, getLast?_concat])
    rw [hlast, getLast?_concat, Option.some.injEq]
    rw [hlast, append_assoc, singleton_append] at hsplit
    by_cases hsemicolon : c = ';'
    · subst hsemicolon
      refine iff_of_true ?_ rfl
      have hrun : b.all isTerminatorOrBlank := by
        refine List.all_eq_true.mpr fun d hd => ?_
        rw [isTerminatorOrBlank, isBlank_eq_true_iff.mp hb d hd, Bool.or_true]
      have hend : y ++ ';' :: b = y ++ [';'] ++ b := by simp
      rw [← hsplit, append_assoc, cons_append, tidy_terminators hrun, hend,
        tidy_append_isBlank hb]
    · refine iff_of_false (fun heq => ?_) hsemicolon
      have hcode : isTerminatorOrBlank c = false := by
        rw [isTerminatorOrBlank, hc, Bool.or_false, beq_eq_false_iff_ne]
        exact hsemicolon
      rw [← hsplit, append_assoc, cons_append, tidy_append_cons _ hcode,
        tidy_append_cons _ hcode] at heq
      have hblank := congrArg Text.isBlank (List.cons.inj (append_cancel_left heq)).2
      rw [tidy_isBlank, tidy_isBlank, hvisible, hb] at hblank
      cases hblank

/-! ### Comments -/

theorem withComment_append (x y comment : Text) :
    withComment (x ++ y) comment = x ++ withComment y comment := by
  unfold withComment
  split_ifs
  · rfl
  · exact append_assoc ..

theorem any_withComment (hy : y.any (fun c => !isTerminatorOrBlank c)) (comment : Text) :
    (withComment y comment).any (fun c => !isTerminatorOrBlank c) := by
  unfold withComment
  split_ifs
  · exact hy
  · rw [any_append, hy, Bool.true_or]

/-- **A semicolon before a comment stays**, and without a comment it is absorbed after another one. -/
theorem tidy_withComment_terminator
    (hcomment : comment = [] ∨ ∃ u, comment = '-' :: '-' :: u) (x : Text) :
    tidy (withComment (x ++ [';']) comment) = tidy (withComment x comment) ↔
      comment = [] ∧ x.trimEnd.getLast? = some ';' := by
  rcases hcomment with rfl | ⟨u, rfl⟩
  · rw [withComment_nil, withComment_nil, tidy_concat_eq_iff]
    simp
  · refine iff_of_false (fun heq => ?_) nofun
    have hwith : ∀ x : Text, withComment x ('-' :: '-' :: u) = x ++ ' ' :: '-' :: '-' :: u := fun _ => rfl
    rw [hwith, hwith, append_assoc] at heq
    exact tidy_inserted rfl x heq

theorem getLast?_trimEnd_append (hy : y.isBlank = false) (x : Text) :
    (trimEnd (x ++ y)).getLast? = (trimEnd y).getLast? := by
  obtain ⟨b, c, u, -, hc, rfl⟩ := exists_visible hy
  rw [← append_assoc, trimEnd_append_cons _ hc, trimEnd_append_cons _ hc,
    getLast?_append_of_ne_nil _ (by simp), getLast?_append_of_ne_nil _ (by simp)]

/-- **A second semicolon at the end of a statement is absorbed** if no comment follows. -/
theorem tidy_second_terminator (hcomment : comment = [] ∨ ∃ u, comment = '-' :: '-' :: u) (x : Text) :
    tidy (withComment (x ++ [';'] ++ [';']) comment) = tidy (withComment (x ++ [';']) comment) ↔
      comment = [] := by
  have hlast : (trimEnd (x ++ [';'])).getLast? = some ';' := getLast?_trimEnd_append rfl x
  rw [tidy_withComment_terminator hcomment, and_iff_left hlast]

/-! ### Names of routines -/

theorem lowerLetter_semicolon (c : Char) : (lowerLetter c == ';') = (c == ';') := by
  rw [Bool.eq_iff_iff, beq_iff_eq, beq_iff_eq]
  exact ⟨eq_of_lowerLetter_eq (by decide) rfl, fun h => by rw [h]; rfl⟩

theorem count_lowerFrom : ∀ (t before : Text), (lowerFrom before t).count ';' = t.count ';'
  | [], _ => rfl
  | c :: t, before => by
    have hrest := count_lowerFrom t (c :: before)
    rw [lowerFrom]
    split_ifs with hsigma hend hdot
    · subst hsigma
      simp [hrest]
    · subst hsigma
      simp [hrest]
    · subst hdot
      simp [hrest]
    · rw [count_cons, count_cons, hrest, lowerLetter_semicolon]

theorem count_marked {rule : Option Char → Char → Option Char → Bool} :
    ∀ (t : Text) (prev : Option Char), (Name.marked rule prev t).count ';' = t.count ';'
  | [], _ => rfl
  | c :: t, prev => by
    have hrest : (Name.marked rule (some c) t).count ';' = t.count ';' := count_marked t (some c)
    rw [Name.marked]
    split_ifs <;> simp [count_cons, hrest]

/-- **The name of a called routine keeps its semicolons.** -/
theorem count_callTarget (p : Profile) (target : Text) :
    (callTarget p target).count ';' = target.count ';' := by
  have hremove : (target.remove fun c => c == '[' || c == ']').count ';' = target.count ';' :=
    count_filter rfl
  have hsplit : ∀ t : Text, t.uptoLast '.' ++ t.afterLast '.' = t := by
    intro t
    rw [uptoLast, afterLast, ← reverse_append, takeWhile_append_dropWhile,
      reverse_reverse]
  unfold callTarget
  dsimp only
  generalize target.remove (fun c => c == '[' || c == ']') = t at hremove ⊢
  split_ifs
  · rw [List.count_append, Name.snakeCase_eq, lower, count_lowerFrom, count_marked,
      ← List.count_append, hsplit, hremove]
  · exact hremove

/-! ### Items -/

theorem exists_join_append (sep : Text) : ∀ ts : List Text, ∃ x : Text, ∀ t,
    join sep (ts ++ [t]) = x ++ t
  | [] => ⟨[], fun _ => rfl⟩
  | a :: ts => by
    obtain ⟨x, hx⟩ := exists_join_append sep ts
    refine ⟨a ++ sep ++ x, fun t => ?_⟩
    have hjoin : join sep (a :: (ts ++ [t])) = a ++ sep ++ join sep (ts ++ [t]) := by
      cases ts <;> rfl
    rw [cons_append, hjoin, hx, ← append_assoc]

/-- The last value stands before `INTO`. -/
theorem exists_selectInto_append (indent modifiers : Text) (kept : List (Text × Text)) (target : Text) :
    ∃ x y : Text, y.any (fun c => !isTerminatorOrBlank c) ∧
      ∀ value, selectInto indent modifiers (kept ++ [(target, value)]) = x ++ (value ++ y) := by
  obtain ⟨x, hx⟩ := exists_join_append ", ".toList (kept.map (·.2))
  refine ⟨indent ++ "SELECT ".toList ++ modifiers ++ x,
    " INTO ".toList ++ join ", ".toList (kept.map (·.1) ++ [target]), rfl, fun value => ?_⟩
  unfold selectInto
  rw [map_append, map_append]
  simp only [map_cons, map_nil, hx, append_assoc]

/-- What is kept of one item. -/
def keptItem (p : Profile) (item : Text × Text) : List (Text × Text) :=
  if isErrorVariable item.1 then [] else [('_' :: item.1, (convert p item.2).value)]

theorem convertItems_value (p : Profile) : ∀ items : List (Text × Text),
    (convertItems p items).value = items.flatMap (keptItem p)
  | [] => rfl
  | (target, value) :: items => by
    rw [convertItems, flatMap_cons, ← convertItems_value p items, keptItem]
    split_ifs <;> rfl

/-- The text of kept items, without a comment; the clause is converted already. -/
def selectText (indent modifiers : Text) (kept : List (Text × Text)) (clause : Option Text) (ahead : Bool) :
    Text :=
  match clause, ahead, kept, modifiers with
  | some clause, _, kept, modifiers => selectInto indent modifiers kept ++ ' ' :: clause
  | none, true, kept, modifiers => selectInto indent modifiers kept
  | none, false, [(target, value)], [] => indent ++ target ++ " := ".toList ++ value ++ [';']
  | none, false, kept, modifiers => selectInto indent modifiers kept ++ [';']

theorem convertSelect_value (p : Profile) (indent modifiers : Text) (items : List (Text × Text))
    (clause comment : Text) (ahead : List Text) :
    (convertSelect p indent modifiers items clause comment ahead).value =
      if (items.flatMap (keptItem p)).isEmpty then if comment.isEmpty then [] else indent ++ comment
      else withComment (selectText indent modifiers (items.flatMap (keptItem p))
        (if clause.isEmpty then none else some (convert p clause).value) (fromAhead ahead))
          comment := by
  simp only [convertSelect, Noted.value_bind, convertItems_value]
  rcases items.flatMap (keptItem p) with _ | ⟨⟨target, value⟩, others⟩
  · rfl
  · simp only [Noted.value_bind, isEmpty_cons, Bool.false_eq_true, if_false]
    cases hclause : clause.isEmpty with
    | false => rfl
    | true =>
      cases hahead : fromAhead ahead with
      | true => rfl
      | false => cases others <;> cases modifiers <;> rfl

theorem selectText_direct (indent target value : Text) :
    selectText indent [] [(target, value)] none false =
      indent ++ target ++ " := ".toList ++ value ++ [';'] := rfl

/-- In all other cases something visible follows the last value. -/
theorem exists_selectText (indent : Text)
    (h : ¬(ahead = false ∧ kept = [] ∧ modifiers = [])) (target : Text) :
    ∃ x y : Text, y.any (fun c => !isTerminatorOrBlank c) ∧
      ∀ value, selectText indent modifiers (kept ++ [(target, value)]) none ahead = x ++ (value ++ y) := by
  obtain ⟨x, y, hy, hinto⟩ := exists_selectInto_append indent modifiers kept target
  cases ahead with
  | true => exact ⟨x, y, hy, hinto⟩
  | false =>
    have hinto' : ∀ value, selectInto indent modifiers (kept ++ [(target, value)]) ++ [';'] =
        x ++ (value ++ (y ++ [';'])) := by
      intro value
      rw [hinto, append_assoc, append_assoc]
    refine ⟨x, y ++ [';'], by rw [any_append, hy, Bool.true_or], fun value => ?_⟩
    rw [← hinto']
    cases kept with
    | cons first kept => cases kept <;> rfl
    | nil =>
      cases modifiers with
      | cons c modifiers => rfl
      | nil => exact absurd ⟨rfl, rfl, rfl⟩ h

/-- There the last value stays as it is. -/
theorem tabsAsSpaces_of_selectText {value' : Text} (h : ¬(ahead = false ∧ kept = [] ∧ modifiers = []))
    (heq : tidy (withComment
          (selectText indent modifiers (kept ++ [(target, value')]) none ahead) comment) =
        tidy (withComment
          (selectText indent modifiers (kept ++ [(target, value)]) none ahead) comment)) :
    tabsAsSpaces value' = tabsAsSpaces value := by
  obtain ⟨x, y, hy, htext⟩ := exists_selectText indent h target
  rw [htext, htext, withComment_append x, withComment_append x, withComment_append value,
    withComment_append value'] at heq
  exact tidy_middle (any_withComment hy comment) heq

theorem tabsAsSpaces_concat_ne (t : Text) : tabsAsSpaces (t ++ [';']) ≠ tabsAsSpaces t := by
  intro h
  have hlength := congrArg List.length h
  rw [tabsAsSpaces_append, length_append] at hlength
  have hsemicolon : (tabsAsSpaces [';']).length = 1 := rfl
  omega

/-- **A semicolon after the last value is absorbed** by a direct assignment without a comment. -/
theorem tidy_selectText_value (hcomment : comment = [] ∨ ∃ u, comment = '-' :: '-' :: u)
    (indent modifiers : Text) (kept : List (Text × Text)) (target value : Text) (ahead : Bool) :
    tidy (withComment
          (selectText indent modifiers (kept ++ [(target, value ++ [';'])]) none ahead) comment) =
        tidy (withComment
          (selectText indent modifiers (kept ++ [(target, value)]) none ahead) comment) ↔
      (ahead = false ∧ kept = [] ∧ modifiers = []) ∧ comment = [] := by
  by_cases hdirect : ahead = false ∧ kept = [] ∧ modifiers = []
  · obtain ⟨rfl, rfl, rfl⟩ := hdirect
    rw [nil_append, nil_append, selectText_direct, selectText_direct, ← append_assoc _ value,
      tidy_second_terminator hcomment]
    simp
  · exact iff_of_false (fun heq => tabsAsSpaces_concat_ne _ (tabsAsSpaces_of_selectText hdirect heq))
      fun h => hdirect h.1

/-- A semicolon in place of a blank value is not absorbed. -/
theorem tidy_selectText_noValue (indent modifiers : Text) (kept : List (Text × Text)) (target : Text)
    (ahead : Bool) (hc : isBlank c) :
    tidy (selectText indent modifiers (kept ++ [(target, [';'])]) none ahead) ≠
      tidy (selectText indent modifiers (kept ++ [(target, [c])]) none ahead) := by
  intro heq
  have hblank : Text.isBlank (tabsAsSpaces [c]) :=
    tabsAsSpaces_all rfl (by simp [hc])
  by_cases hdirect : ahead = false ∧ kept = [] ∧ modifiers = []
  · obtain ⟨rfl, rfl, rfl⟩ := hdirect
    have hplace : ∀ v, indent ++ target ++ " := ".toList ++ v ++ [';'] =
        (indent ++ target ++ " :".toList) ++ '=' :: ([' '] ++ v ++ [';']) := by
      intro v
      simp
    have hsign := tidy_append_cons (indent ++ target ++ " :".toList) (c := '=') rfl
    rw [nil_append, nil_append, selectText_direct, selectText_direct, hplace, hplace, hsign,
      hsign] at heq
    have htidy := (List.cons.inj (append_cancel_left heq)).2
    have hone : tidy ([' '] ++ [';'] ++ [';']) = [' '] ++ [';'] :=
      (tidy_terminators (u := []) rfl [' ']).trans (tidy_isBlank_concat rfl)
    have hspace : Text.isBlank ([' '] ++ [c]) := by
      rw [isBlank_append, Text.isBlank, Text.isBlank, all_cons, all_cons, hc]
      rfl
    rw [hone, tidy_isBlank_concat hspace, tabsAsSpaces_append] at htidy
    have hlength := congrArg List.length (append_cancel_right htidy)
    rw [length_append] at hlength
    exact tabsAsSpaces_ne_nil (cons_ne_nil c [])
      (eq_nil_of_length_eq_zero (Nat.add_left_cancel hlength.symm))
  · have hsame := @tabsAsSpaces_of_selectText ahead kept [] indent modifiers target [c] [';'] hdirect heq
    rw [← hsame] at hblank
    cases hblank

/-! ### Statements -/

/-- **The statement absorbs a semicolon** after its code: it ends where several semicolons become one, or
the semicolon is not written at all. -/
def Statement.Absorbs (p : Profile) (ahead : List Text) (l : CodeLine) : Statement → Prop
  | .assign _ _ _ comment => comment = []
  | .print _ _ comment => comment = []
  | .rowCount _ _ => True
  | .select _ modifiers items clause comment =>
    (∀ item ∈ items, isErrorVariable item.1) ∨
      if clause = [] then
        ∃ before target value, items = before ++ [(target, value)] ∧
          (isErrorVariable target ∨
            (∀ item ∈ before, isErrorVariable item.1) ∧ value.isBlank = false ∧ modifiers = [] ∧
              fromAhead ahead = false ∧ comment = [])
      else comment = [] ∧ (Expression.convert p clause).value.trimEnd.getLast? = some ';'
  | .gotoDone _ => True
  | .breakLoop _ => True
  | .continueLoop _ => l.blanks = []
  | .call _ _ parameters _ => parameters ≠ []

section

variable {p : Profile} {ahead : List Text} {l : CodeLine}

theorem keptItems_eq_nil :
    items.flatMap (keptItem p) = [] ↔ ∀ item ∈ items, isErrorVariable item.1 := by
  rw [← convertItems_value, convertItems_eq_nil_iff]

theorem absorbs_select_append :
    (Statement.select indent modifiers (items ++ [(target, value)]) [] comment).Absorbs p ahead l ↔
      isErrorVariable target ∨
        (∀ item ∈ items, isErrorVariable item.1) ∧ value.isBlank = false ∧ modifiers = [] ∧
          fromAhead ahead = false ∧ comment = [] := by
  simp only [Statement.Absorbs, if_true]
  constructor
  · rintro (hall | ⟨before, target', value', heq, h⟩)
    · exact .inl (hall (target, value) (by simp))
    · obtain ⟨rfl, hlast⟩ := append_inj' heq rfl
      obtain ⟨rfl, rfl⟩ := Prod.mk.inj (List.cons.inj hlast).1
      exact h
  · exact fun h => .inr ⟨items, target, value, rfl, h⟩

/-- The value of the error variable is not written. -/
theorem convertSelect_error (h : isErrorVariable target)
    (indent modifiers comment : Text) (items : List (Text × Text)) (value value' : Text) :
    (convertSelect p indent modifiers (items ++ [(target, value)]) [] comment ahead).value =
      (convertSelect p indent modifiers (items ++ [(target, value')]) [] comment ahead).value := by
  simp only [convertSelect_value, flatMap_append, flatMap_singleton, keptItem, h, if_true]

theorem convertSelect_last (h : isErrorVariable target = false)
    (indent modifiers comment : Text) (items : List (Text × Text)) (value : Text) :
    (convertSelect p indent modifiers (items ++ [(target, value)]) [] comment ahead).value =
      withComment (selectText indent modifiers
        (items.flatMap (keptItem p) ++ [('_' :: target, (convert p value).value)]) none
          (fromAhead ahead)) comment := by
  have hkept : (items ++ [(target, value)]).flatMap (keptItem p) =
      items.flatMap (keptItem p) ++ [('_' :: target, (convert p value).value)] := by
    simp only [flatMap_append, flatMap_singleton, keptItem, h, Bool.false_eq_true, if_false]
  rw [convertSelect_value, hkept, if_neg (by simp)]
  rfl

theorem convert_nil (p : Profile) : (convert p []).value = [] :=
  convert_ignored p (b := []) (s := []) rfl rfl (by simp)

theorem convert_terminator (p : Profile) : (convert p [';']).value = [';'] := by
  have h := convert_append_terminator p []
  rwa [convert_nil, nil_append] at h

theorem tidy_select_value
    (hcomment : comment = [] ∨ ∃ u, comment = '-' :: '-' :: u) (hvalue : endsInCode value) :
    tidy (convertSelect p indent modifiers (items ++ [(target, value ++ [';'])]) [] comment ahead).value =
        tidy (convertSelect p indent modifiers (items ++ [(target, value)]) [] comment ahead).value ↔
      (Statement.select indent modifiers (items ++ [(target, value)]) [] comment).Absorbs p ahead l := by
  rw [absorbs_select_append]
  cases herror : isErrorVariable target with
  | true => exact iff_of_true (congrArg tidy (convertSelect_error herror ..)) (.inl rfl)
  | false =>
    rw [convertSelect_last herror, convertSelect_last herror, convert_append_terminator,
      tidy_selectText_value hcomment, keptItems_eq_nil]
    constructor
    · rintro ⟨⟨hahead, hkept, hmodifiers⟩, hnone⟩
      exact .inr ⟨hkept, endsInCode_isBlank hvalue, hmodifiers, hahead, hnone⟩
    · rintro (h | ⟨hkept, -, hmodifiers, hahead, hnone⟩)
      · cases h
      · exact ⟨⟨hahead, hkept, hmodifiers⟩, hnone⟩

theorem tidy_select_noValue (hc : isBlank c) :
    tidy (convertSelect p indent modifiers (items ++ [(target, [';'])]) [] [] ahead).value =
        tidy (convertSelect p indent modifiers (items ++ [(target, [c])]) [] [] ahead).value ↔
      (Statement.select indent modifiers (items ++ [(target, [c])]) [] []).Absorbs p ahead l := by
  have hblank : Text.isBlank [c] := by
    rw [Text.isBlank, all_cons, hc]
    rfl
  have hsame := convert_ignored p (b := [c]) (s := []) hblank rfl (by simp)
  rw [append_nil] at hsame
  rw [absorbs_select_append]
  cases herror : isErrorVariable target with
  | true => exact iff_of_true (congrArg tidy (convertSelect_error herror ..)) (.inl rfl)
  | false =>
    rw [convertSelect_last herror, convertSelect_last herror, hsame, convert_terminator]
    refine iff_of_false (tidy_selectText_noValue _ _ _ _ _ hc) ?_
    rintro (h | ⟨-, h, -⟩)
    · cases h
    · rw [hblank] at h
      cases h

theorem tidy_select_clause {clause : Text}
    (hcomment : comment = [] ∨ ∃ u, comment = '-' :: '-' :: u) (hclause : endsInCode clause) :
    tidy (convertSelect p indent modifiers items (clause ++ [';']) comment ahead).value =
        tidy (convertSelect p indent modifiers items clause comment ahead).value ↔
      (Statement.select indent modifiers items clause comment).Absorbs p ahead l := by
  have hempty : List.isEmpty clause = false :=
    isEmpty_eq_false_iff.mpr (ne_nil_of_endsInCode hclause)
  have hempty' : List.isEmpty (clause ++ [';']) = false := by simp
  rw [convertSelect_value, convertSelect_value, hempty, hempty', convert_append_terminator]
  simp only [Statement.Absorbs, if_neg (ne_nil_of_endsInCode hclause)]
  by_cases hkept : items.flatMap (keptItem p) = []
  · have hnone : (items.flatMap (keptItem p)).isEmpty := List.isEmpty_iff.mpr hkept
    rw [if_pos hnone, if_pos hnone]
    exact iff_of_true rfl (.inl (keptItems_eq_nil.mp hkept))
  · have hnot : ¬∀ item ∈ items, isErrorVariable item.1 := fun h => hkept (keptItems_eq_nil.mpr h)
    have hsome : ¬(items.flatMap (keptItem p)).isEmpty := fun h => hkept (List.isEmpty_iff.mp h)
    rw [if_neg hsome, if_neg hsome, or_iff_right hnot,
      ← getLast?_trimEnd_append (isBlank_convert p (endsInCode_isBlank hclause))
        (selectInto indent modifiers (items.flatMap (keptItem p)) ++ [' '])]
    have htext : ∀ clause : Text, selectText indent modifiers (items.flatMap (keptItem p)) (some clause)
        (fromAhead ahead) = selectInto indent modifiers (items.flatMap (keptItem p)) ++ [' '] ++ clause := by
      intro clause
      rw [append_assoc]
      rfl
    simp only [Bool.false_eq_true, if_false, htext]
    rw [← append_assoc]
    exact tidy_withComment_terminator hcomment _

/-- The value of an assignment or a message, without and with the semicolon. -/
theorem convert_trim_terminated (hv : v = [] ∨ endsInCode v)
    (hw : w.isBlank) (hw' : w'.isBlank) :
    (convert p (trim (v ++ ';' :: w'))).value = (convert p (trim (v ++ w))).value ++ [';'] := by
  rcases hv with rfl | hv
  · have hblank : trim ([] ++ w) = [] := by
      rw [nil_append, trim, trimStart_of_isBlank hw]
      rfl
    have hterminated : trim ([] ++ ';' :: w') = [';'] := by
      rw [trim, nil_append, trimStart_of_head rfl, ← nil_append (';' :: w'),
        trimEnd_append_cons _ rfl, trimEnd_of_isBlank hw']
      rfl
    rw [hblank, hterminated, convert_nil, convert_terminator]
    rfl
  · obtain ⟨htrim, htrim'⟩ := trim_of_endsInCode hv
    rw [htrim w hw, htrim' w' hw', convert_append_terminator]

theorem addTerminator_of_not_mem {t : Text} (h : '-' ∉ t) (hblank : t.isBlank = false) :
    addTerminator t = if t.getLast? = some ';' then t else t ++ [';'] := by
  have hends : t.endsWith [';'] ↔ t.getLast? = some ';' := by
    rw [endsWith, reverse_singleton, ← head?_reverse]
    cases t.reverse with
    | nil => exact iff_of_false nofun nofun
    | cons c u =>
      rw [List.isPrefixOf, List.isPrefixOf, Bool.and_true, beq_iff_eq, head?_cons, Option.some.injEq]
      exact eq_comm
  have hnone := commentFrom_of_noDashes (fun hin => h (hin.subset mem_cons_self)) false
  unfold addTerminator
  rw [splitComment_of_none hnone]
  simp only [hblank, Bool.false_eq_true, if_false, hends, withComment_nil]

/-- **A loop goes on** with the same line if no blanks follow the code. -/
theorem tidy_continueLoop (hnone : l.comment = []) (hdash : '-' ∉ l.code) :
    tidy (addTerminator l.terminated) = tidy (addTerminator l.source) ↔ l.blanks = [] := by
  obtain ⟨x, c, hcode, hc⟩ := endsInCode_iff.mp l.endsInCode
  have hdashes : ∀ z : Text, (∀ d ∈ z, isTerminatorOrBlank d) → '-' ∉ l.code ++ z := by
    intro z hz hin
    exact (mem_append.mp hin).elim hdash fun hin => nomatch hz _ hin
  have hblank : ∀ z, Text.isBlank (l.code ++ z) = false := by
    intro z
    rw [isBlank_append, endsInCode_isBlank l.endsInCode, Bool.false_and]
  have hrun : ∀ d ∈ l.blanks, isTerminatorOrBlank d := by
    intro d hd
    rw [isTerminatorOrBlank, isBlank_eq_true_iff.mp l.isBlank d hd, Bool.or_true]
  have hsource : l.source = l.code ++ l.blanks := by
    rw [CodeLine.source, CodeLine.tail, hnone, append_nil]
  have hterminated : l.terminated = l.code ++ ';' :: l.blanks := by
    rw [CodeLine.terminated, CodeLine.tail, hnone, append_nil]
  rw [hsource, hterminated, addTerminator_of_not_mem (hdashes _ hrun) (hblank _),
    addTerminator_of_not_mem (hdashes _ (forall_mem_cons.mpr ⟨rfl, hrun⟩)) (hblank _)]
  rcases eq_nil_or_concat l.blanks with hb | ⟨b, d, hb⟩
  · refine iff_of_true ?_ hb
    have hlast : c ≠ ';' := by
      rintro rfl
      cases hc
    rw [hb, append_nil, hcode, if_pos (by simp), if_neg (by simpa using hlast)]
  · have hd : isBlank d := isBlank_eq_true_iff.mp l.isBlank d (by rw [hb]; simp)
    have hlast : d ≠ ';' := by
      rintro rfl
      cases hd
    have hend : ∀ z : Text, (z ++ l.blanks).getLast? ≠ some ';' := by
      intro z
      rw [hb, concat_eq_append, ← append_assoc, getLast?_concat]
      simpa using hlast
    have hne : l.blanks ≠ [] := by simp [hb]
    refine iff_of_false (fun heq => ?_) hne
    have hplace : l.code ++ ';' :: l.blanks = l.code ++ [';'] ++ l.blanks := by simp
    rw [if_neg (hplace ▸ hend _), if_neg (hend _), append_assoc, cons_append,
      tidy_terminators (List.all_eq_true.mpr hrun), hcode, append_assoc, append_assoc,
      append_assoc, singleton_append, singleton_append, tidy_append_cons _ hc,
      tidy_append_cons _ hc, tidy_isBlank_concat l.isBlank, ← nil_append [';'],
      tidy_isBlank_concat rfl] at heq
    have hnil := append_cancel_right (List.cons.inj (append_cancel_left heq)).2
    exact tabsAsSpaces_ne_nil hne hnil.symm

/-- The final semicolon of parameters is not written. -/
theorem bareParameters_terminated (hv : endsInCode v)
    (hw : w.isBlank) (hw' : w'.isBlank) :
    bareParameters (v ++ ';' :: w') = bareParameters (v ++ w) := by
  obtain ⟨htrim, htrim'⟩ := trim_of_endsInCode hv
  have hdrop : dropEndWhile (· == ';') (v.trimStart ++ [';']) =
      dropEndWhile (· == ';') v.trimStart := by
    rw [dropEndWhile, reverse_append, reverse_singleton, singleton_append,
      dropWhile_cons_of_pos rfl, dropEndWhile]
  rw [bareParameters, bareParameters, htrim w hw, htrim' w' hw', hdrop]

/-- The semicolon after the name of a routine stays. -/
theorem tidy_call_target (indent target comment parameters : Text) :
    tidy (withComment (indent ++ "Call ".toList ++ callTarget p (target ++ [';']) ++ " (".toList ++
        parameters ++ ");".toList) comment) ≠
      tidy (withComment (indent ++ "Call ".toList ++ callTarget p target ++ " (".toList ++
        parameters ++ ");".toList) comment) := by
  intro heq
  have hplace : ∀ t : Text, withComment (indent ++ "Call ".toList ++ t ++ " (".toList ++ parameters ++
      ");".toList) comment = (indent ++ "Call ".toList) ++
        (t ++ withComment (" (".toList ++ parameters ++ ");".toList) comment) := by
    intro t
    rw [← withComment_append, ← withComment_append]
    simp
  rw [hplace, hplace] at heq
  have hsame := congrArg (List.count ';') (tidy_middle (any_withComment rfl comment) heq)
  rw [count_tabsAsSpaces, count_tabsAsSpaces, count_callTarget, count_callTarget,
    List.count_append] at hsame
  have hone : List.count ';' [';'] = 1 := rfl
  omega

/-- **Exactly the statements that absorb a semicolon are written the same with it.** -/
theorem Statement.Gains.tidy_eq_iff {st st' : Statement} (h : st.Gains l st')
    (hcomment : ∀ c ∈ st.comment?, c = l.comment)
    (hassign : ∀ indent target value comment, st = .assign indent target value comment →
      value.isBlank = false) :
    tidy (st'.convert p ahead).value = tidy (st.convert p ahead).value ↔ st.Absorbs p ahead l := by
  cases h with
  | @assign indent target comment v w w' hv hw hw' =>
    have hvisible : Text.isBlank (v ++ ';' :: w') = false :=
      isBlank_eq_false_iff.mpr ⟨';', by simp, rfl⟩
    have hvalue := hassign _ _ _ _ rfl
    simp only [Statement.convert, hvisible, hvalue, Bool.false_eq_true, if_false, Noted.value_bind,
      Noted.value_pure, convert_trim_terminated hv hw hw', Absorbs]
    rw [← cons_append, ← append_assoc]
    exact tidy_second_terminator ((hcomment _ rfl).symm ▸ l.isComment) _
  | @print indent comment v w w' hv hw hw' =>
    simp only [Statement.convert, Noted.value_bind, Noted.value_pure, convert_trim_terminated hv hw hw',
      Absorbs]
    rw [← append_assoc]
    exact tidy_second_terminator ((hcomment _ rfl).symm ▸ l.isComment) _
  | rowCount indent target => exact iff_of_true rfl trivial
  | value indent modifiers comment items target hvalue =>
    exact tidy_select_value ((hcomment _ rfl).symm ▸ l.isComment) hvalue
  | noValue indent modifiers items target hc => exact tidy_select_noValue hc
  | clause indent modifiers comment items hclause =>
    exact tidy_select_clause ((hcomment _ rfl).symm ▸ l.isComment) hclause
  | gotoDone indent => exact iff_of_true rfl trivial
  | breakLoop indent => exact iff_of_true rfl trivial
  | continueLoop hnone hdash => exact tidy_continueLoop hnone hdash
  | @parameters indent target comment v w w' hv hw hw' =>
    refine iff_of_true ?_ ?_
    · simp only [Statement.convert, convertParameters, bareParameters_terminated hv hw hw']
    · simpa [Absorbs] using fun hnil => absurd hnil (ne_nil_of_endsInCode hv)
  | target indent target comment =>
    simp only [Statement.convert, Noted.value_bind, Noted.value_pure]
    exact iff_of_false (tidy_call_target indent target comment _) fun h => h rfl

end

end SqlRoutine.Body

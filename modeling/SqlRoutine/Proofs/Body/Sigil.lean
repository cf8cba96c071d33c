import SqlRoutine.Proofs.Body.Share
import SqlRoutine.Proofs.Code.Terminator
import SqlRoutine.Proofs.Expression.Sigil

/-! # Where the sign of variables can stay

Names lose the sign `@` when they are read, and expressions when they are converted. What is written as
it stands are the comment of a line, the modifiers of an assignment by `SELECT`, and what follows an
`End`. So **no local variable has the sign, and a converted line has it in its code only if** (`Leak`)

* it comes from an assignment by `SELECT` with the sign in its modifiers, as in `TOP (@n)`;
* it comes from an `End` that is followed by code with the sign;
* its code has no sign but leaves a quote open, so that the comment that the source line has counts as
  code.

The lines of a warning (`Pending.warning`) are not meant: they name a table of the source. -/

namespace SqlRoutine.Code

open List

/-! ### Characters of the code of a line -/

variable {x : Char} {t : Text}

theorem mem_withoutTerminators (hx : isTerminatorOrBlank x = false) (t : Text) :
    x ∈ withoutTerminators t ↔ x ∈ t := by
  obtain ⟨run, hrun, hsplit⟩ := withoutTerminators_append_run t
  constructor
  · intro h
    rw [hsplit]
    exact mem_append_left run h
  · intro h
    rw [hsplit] at h
    refine (mem_append.mp h).resolve_right fun hin => ?_
    rw [List.all_eq_true.mp hrun x hin] at hx
    cases hx

theorem mem_codeOf_iff (hx : isTerminatorOrBlank x = false) (t : Text) :
    x ∈ codeOf t ↔ x ∈ (unterminated t).1 :=
  (mem_withoutTerminators hx (codeOf t)).symm

theorem mem_codeOf_tidy (hx : isTerminatorOrBlank x = false) (t : Text) :
    x ∈ codeOf (Body.tidy t) ↔ x ∈ codeOf t := by
  have hblank : isBlank x = false := by
    rw [isTerminatorOrBlank, Bool.or_eq_false_iff] at hx
    exact hx.2
  have htabs : ∀ u : Text, x ∈ tabsAsSpaces u ↔ x ∈ u := by
    intro u
    rw [tabsAsSpaces, mem_flatMap]
    constructor
    · rintro ⟨c, hc, hin⟩
      split_ifs at hin
      · have hspace : x = ' ' := by simpa using hin
        rw [hspace] at hblank
        cases hblank
      · rwa [mem_singleton.mp hin]
    · intro h
      refine ⟨x, h, ?_⟩
      rw [if_neg]
      · exact mem_singleton_self x
      · rintro rfl
        cases hblank
  rw [mem_codeOf_iff hx, Body.tidy, unterminated_collapseTerminators_expandTabs,
    mem_withoutTerminators hx, htabs, mem_codeOf_iff hx]

/-- A comment: nothing, or a text that starts with two dashes. -/
def IsComment (comment : Text) : Prop := comment = [] ∨ ∃ rest, comment = '-' :: '-' :: rest

theorem isComment_splitComment (t : Text) : IsComment (splitComment t).2 := by
  rw [splitComment_snd, commentFrom]
  rcases hs : splitAtDashes false t with ⟨code, comment⟩
  by_cases hnone : comment = []
  · exact .inl hnone
  · exact .inr (splitAtDashes_spec hs hnone).2.2.2.2

/-- **A comment counts as code only after code that leaves a quote open.** -/
theorem mem_codeOf_withComment (hx : isTerminatorOrBlank x = false) {code comment : Text}
    (hcode : x ∉ code) (hcomment : IsComment comment) (h : x ∈ codeOf (withComment code comment)) :
    endsQuoted false code ∧ x ∈ comment := by
  have hin : x ∈ withComment code comment := (codeOf_isPrefix _).subset h
  rcases hcomment with rfl | ⟨rest, rfl⟩
  · exact absurd hin hcode
  have hwith : withComment code ('-' :: '-' :: rest) = code ++ [' '] ++ '-' :: '-' :: rest := by
    rw [append_assoc]
    rfl
  have hspace : x ≠ ' ' := by
    rintro rfl
    cases hx
  rw [hwith] at h hin
  refine ⟨?_, by simpa [hcode, hspace] using hin⟩
  by_contra hends
  rw [Bool.not_eq_true] at hends
  rw [mem_codeOf_iff hx] at h
  -- the code ends before the comment, or at dashes of its own
  rcases hs : splitAtDashes false code with ⟨start, own⟩
  by_cases hown : own = []
  · have hnone : commentFrom false code = [] := by rw [commentFrom, hs, hown]
    rw [unterminated_append hnone rfl (.inr ⟨⟨rest, rfl⟩, hends, by simp⟩),
      mem_withoutTerminators hx] at h
    exact hcode h
  · obtain ⟨hsplit, hnone, hstart, hlast, rest', hdashes⟩ := splitAtDashes_spec hs hown
    have hparts : code ++ [' '] ++ '-' :: '-' :: rest =
        start ++ [] ++ '-' :: '-' :: (rest' ++ [' '] ++ '-' :: '-' :: rest) := by
      rw [hsplit, hdashes]
      simp
    rw [hparts, unterminated_append hnone rfl (.inr ⟨⟨_, rfl⟩, hstart, by simpa using hlast⟩),
      mem_withoutTerminators hx] at h
    exact hcode (hsplit ▸ mem_append_left own h)

/-- A text without quotes and dashes in front of a line adds nothing else to its code. -/
theorem mem_codeOf_append (hx : isTerminatorOrBlank x = false) {start : Text}
    (hstart : isBare start) (hnot : x ∉ start) (h : x ∈ codeOf (start ++ t)) : x ∈ codeOf t := by
  have hnone : commentFrom false start = [] := by
    rw [← append_nil start, commentFrom_append hstart]
    rfl
  have hends : endsQuoted false start = false := endsQuoted_append_of_isBare hstart [] false
  have hlast : start.getLast? ≠ some '-' := by
    intro hdash
    have hbare := List.all_eq_true.mp hstart '-' (mem_of_getLast? hdash)
    cases hbare
  rw [mem_codeOf_iff hx, unterminated_eq, mem_withoutTerminators hx] at h ⊢
  rw [splitAtDashes_append hnone fun hdash => absurd hdash hlast, hends] at h
  exact (mem_append.mp h).resolve_left hnot

end SqlRoutine.Code

namespace SqlRoutine.Name

/-! ### Names in snake case -/

theorem keeps_acronymEnd : Expression.Keeps acronymEnd := by
  intro prev t out rest h
  unfold acronymEnd at h
  split at h
  · next last c rest' hlast hrest =>
    split_ifs at h
    cases h
    have hsplit : t = (t.takeWhile isCapital).dropLast ++ [last, c] ++ rest := by
      conv_lhs => rw [← List.takeWhile_append_dropWhile (p := isCapital) (l := t), hrest,
        ← List.dropLast_append_getLast? last hlast]
      simp
    refine ⟨_, by simp, hsplit, ?_, fun hin => ?_⟩
    · rw [Text.isBlank_append, Bool.and_eq_false_iff]
      exact .inr rfl
    · simpa using hin
  · cases h

theorem keeps_wordStart : Expression.Keeps wordStart := by
  intro prev t out rest h
  unfold wordStart at h
  split at h
  · next a b rest' =>
    split_ifs at h
    cases h
    refine ⟨[a, b], by simp, rfl, ?_, fun hin => ?_⟩
    · rw [Text.isBlank_cons, Bool.and_eq_false_iff]
      exact .inr rfl
    · simpa using hin
  · cases h

theorem not_sigil_snakeCase {name : Text} (h : '@' ∉ name) : '@' ∉ snakeCase name :=
  fun hin => keeps_wordStart.not_sigil_replaceAll (keeps_acronymEnd.not_sigil_replaceAll h)
    (Text.sigil_mem_lower hin)

end SqlRoutine.Name

namespace SqlRoutine.Body

open Code Expression List Option Text

variable {declared : Declared} {items : List (Text × Text)} {role : Role} {statement : Statement}
  {comment indent source text word : Text}

variable {p : Profile} {line : Text} {ahead : List Text} {t : Text}

theorem sigil_visible : isTerminatorOrBlank '@' = false := rfl

theorem not_sigil_of_isBlank (h : t.isBlank) : '@' ∉ t := by
  intro hin
  have hblank := isBlank_eq_true_iff.mp h '@' hin
  cases hblank

theorem not_sigil_indent (line : Text) : '@' ∉ line.indent := not_sigil_of_isBlank (all_takeWhile ..)

theorem not_sigil_of_isWord (h : t.all isWord) : '@' ∉ t := by
  intro hin
  have hword := List.all_eq_true.mp h '@' hin
  exact absurd hword (by decide)

theorem not_sigil_of_atName? {name rest : Text} (h : atName? t = some (name, rest)) :
    '@' ∉ name := not_sigil_of_isWord (atName?_spec h).2.2.1

theorem not_sigil_of_spells {keyword m : Text} (hkeyword : '@' ∉ keyword.map letterKey)
    (h : Spells keyword m) : '@' ∉ m := by
  intro hin
  have hkey : letterKey '@' ∈ m.map letterKey := List.mem_map_of_mem hin
  rw [h] at hkey
  exact hkeyword hkey

/-! ### Lines that are put together -/

/-- **A comment that counts as code**: the code of the line has no sign but leaves a quote open, and the
comment after it has the sign. -/
def ShowsComment (comment t : Text) : Prop :=
  IsComment comment ∧ '@' ∈ comment ∧
    ∃ code, t = withComment code comment ∧ '@' ∉ code ∧ endsQuoted false code

/-- The sign shows in the code of the line only through an open quote before the comment. -/
def Tame (comment t : Text) : Prop := '@' ∈ codeOf t → ShowsComment comment t

theorem not_sigil_codeOf (h : '@' ∉ t) : '@' ∉ codeOf t := fun hin => h ((codeOf_isPrefix t).subset hin)

theorem tame_of_not_mem (h : '@' ∉ t) : Tame comment t := fun hin => absurd hin (not_sigil_codeOf h)

theorem Tame.of_nil (h : Tame [] t) : Tame comment t :=
  fun hin => absurd (h hin).2.1 not_mem_nil

theorem tame_withComment {code : Text} (hcode : '@' ∉ code)
    (hcomment : IsComment comment) : Tame comment (withComment code comment) := by
  intro h
  obtain ⟨hends, hin⟩ := mem_codeOf_withComment sigil_visible hcode hcomment h
  exact ⟨hcomment, hin, code, rfl, hcode, hends⟩

theorem mem_codeOf_addTerminator : '@' ∈ codeOf (addTerminator t) ↔ '@' ∈ codeOf t := by
  rw [mem_codeOf_iff sigil_visible, unterminated_addTerminator,
    mem_codeOf_iff sigil_visible]

theorem not_sigil_codeOf_comment (hindent : indent.isBlank)
    (hcomment : IsComment comment) : '@' ∉ codeOf (indent ++ comment) := by
  intro h
  have hin := mem_codeOf_append sigil_visible (isBare_of_isBlank hindent)
    (not_sigil_of_isBlank hindent) h
  rcases hcomment with rfl | ⟨rest, rfl⟩
  · cases hin
  · have hnone : codeOf ('-' :: '-' :: rest) = [] := rfl
    rw [hnone] at hin
    cases hin

/-! ### Statements -/

/-- The comment of a statement, if it has one. -/
def Statement.ownComment : Statement → Text
  | .assign _ _ _ comment | .print _ _ comment | .select _ _ _ _ comment | .call _ _ _ comment => comment
  | _ => []

/-- What is kept of a line as it stands has no sign: the indentation and the names. Comments and the
modifiers of a `SELECT` may have it. -/
def Statement.Unsigned : Statement → Prop
  | .assign indent target _ comment => indent.isBlank ∧ '@' ∉ target ∧ IsComment comment
  | .print indent _ comment => indent.isBlank ∧ IsComment comment
  | .rowCount indent target => indent.isBlank ∧ '@' ∉ target
  | .select indent _ items _ comment =>
    indent.isBlank ∧ (∀ item ∈ items, '@' ∉ item.1) ∧ IsComment comment
  | .gotoDone indent | .breakLoop indent => indent.isBlank
  | .continueLoop line => '@' ∉ line
  | .call indent target _ comment => indent.isBlank ∧ '@' ∉ target ∧ IsComment comment

theorem not_sigil_of_lastRowCountTarget? {target : Text} : ∀ {t : Text},
    lastRowCountTarget? t = some target → '@' ∉ target
  | [], h => by cases h
  | c :: cs, h => by
    rw [lastRowCountTarget?] at h
    split_ifs at h
    split at h
    · next hrest =>
      cases h
      exact not_sigil_of_lastRowCountTarget? hrest
    · simp only [rowCountTarget?, bind_eq_bind, bind_eq_some_iff, Option.pure_def] at h
      obtain ⟨⟨name, rest⟩, hname, _, _, _, _, ⟨⟩⟩ := h
      exact not_sigil_of_atName? hname

theorem exists_of_mem_mapM {α β : Type} {read : α → Option β} {b : β} : ∀ {l : List α} {out : List β},
    l.mapM read = some out → b ∈ out → ∃ a ∈ l, read a = some b
  | [], _, h, hb => by
    cases h
    cases hb
  | a :: l, _, h, hb => by
    rw [mapM_cons] at h
    simp only [bind_eq_bind, bind_eq_some_iff, Option.pure_def] at h
    obtain ⟨b', hb', rest, hrest, ⟨⟩⟩ := h
    rcases mem_cons.mp hb with rfl | hb
    · exact ⟨a, mem_cons_self, hb'⟩
    · obtain ⟨a', ha', hread⟩ := exists_of_mem_mapM hrest hb
      exact ⟨a', mem_cons_of_mem a ha', hread⟩

theorem not_sigil_of_item? {item : Text × Text} (h : item? text = some item) : '@' ∉ item.1 := by
  simp only [item?, bind_eq_bind, bind_eq_some_iff] at h
  obtain ⟨⟨name, rest⟩, hname, value, -, h⟩ := h
  have hfree := not_sigil_of_atName? hname
  split_ifs at h
  · obtain ⟨c, -, rfl⟩ := map_eq_some_iff.mp h
    exact hfree
  · cases h
    exact hfree

theorem not_sigil_of_atStatementEnd (h : atStatementEnd t) : '@' ∉ t := by
  intro hin
  have hstart : '@' ∈ t.trimStart := by
    rw [← indent_append_trimStart t] at hin
    exact (mem_append.mp hin).resolve_left (not_sigil_indent t)
  unfold atStatementEnd at h
  split at h
  · next rest heq =>
    rw [heq] at hstart
    exact not_sigil_of_isBlank h ((mem_cons.mp hstart).resolve_left (by decide))
  · rw [List.isEmpty_iff.mp h] at hstart
    cases hstart

/-- **A statement that is read keeps no sign**, apart from comments and modifiers. -/
theorem unsigned_of_ofLine? (h : Statement.ofLine? line = some statement) : statement.Unsigned := by
  have hindent : Text.isBlank line.indent := all_takeWhile ..
  cases readFrom_of_ofLine? h with
  | @assign _ _ _ _ value _ hname =>
    exact ⟨hindent, not_sigil_of_atName? hname, isComment_splitComment value⟩
  | @print _ value => exact ⟨hindent, isComment_splitComment value⟩
  | rowCount _ htarget => exact ⟨hindent, not_sigil_of_lastRowCountTarget? htarget⟩
  | @select _ list _ _ _ _ _ hitems =>
    refine ⟨hindent, fun item hitem => ?_, isComment_splitComment list⟩
    obtain ⟨text, -, hread⟩ := exists_of_mem_mapM hitems hitem
    exact not_sigil_of_item? hread
  | gotoDone => exact hindent
  | breakLoop => exact hindent
  | continueLoop hkeyword hend =>
    intro hin
    obtain ⟨m, hm, hsplit⟩ := keyword?_eq_some_iff.mp hkeyword
    rw [← indent_append_trimStart line, hsplit, mem_append, mem_append] at hin
    rcases hin with hin | hin | hin
    · exact not_sigil_indent line hin
    · exact not_sigil_of_spells (by decide) hm hin
    · exact not_sigil_of_atStatementEnd hend hin
  | @call _ _ parameters =>
    refine ⟨hindent, fun hin => ?_, isComment_splitComment parameters⟩
    have htarget := mem_takeWhile_imp hin
    cases htarget

/-! ### The conversion of statements -/

theorem not_sigil_callTarget (p : Profile) {target : Text} (h : '@' ∉ target) :
    '@' ∉ callTarget p target := by
  have hname : '@' ∉ target.remove fun c => c == '[' || c == ']' :=
    fun hin => h (mem_of_mem_filter hin)
  unfold callTarget
  dsimp only
  generalize remove _ target = name at hname
  split_ifs
  · have hstart : '@' ∉ name.uptoLast '.' := fun hin =>
      hname (mem_reverse.mp ((dropWhile_suffix _).subset (mem_reverse.mp hin)))
    have hlast : '@' ∉ name.afterLast '.' := fun hin =>
      hname (mem_reverse.mp ((List.takeWhile_prefix _).subset (mem_reverse.mp hin)))
    rw [mem_append, not_or]
    exact ⟨hstart, Name.not_sigil_snakeCase hlast⟩
  · exact hname

theorem not_sigil_convertItems (hp : p.types.Free) : ∀ {items : List (Text × Text)},
    (∀ item ∈ items, '@' ∉ item.1) → ∀ item ∈ (convertItems p items).value, '@' ∉ item.1 ∧ '@' ∉ item.2
  | [], _ => nofun
  | (target, value) :: items, h => by
    obtain ⟨htarget, hitems⟩ := forall_mem_cons.mp h
    have hrest := not_sigil_convertItems hp hitems
    rw [convertItems]
    split_ifs
    · exact hrest
    · simp only [Noted.value_bind, Noted.value_pure, forall_mem_cons]
      refine ⟨⟨?_, convert_free hp value⟩, hrest⟩
      simpa using htarget

/-- The modifiers are the only part of a `SELECT` that is kept as it stands. -/
theorem exists_selectInto (indent modifiers : Text)
    (hitems : ∀ item ∈ items, '@' ∉ item.1 ∧ '@' ∉ item.2) : ∃ rest, '@' ∉ rest ∧
      selectInto indent modifiers items = indent ++ "SELECT ".toList ++ modifiers ++ rest := by
  have hvalues : '@' ∉ join ", ".toList (items.map (·.2)) :=
    DataType.join_free (by decide) (List.forall_mem_map.mpr fun item h => (hitems item h).2)
  have htargets : '@' ∉ join ", ".toList (items.map (·.1)) :=
    DataType.join_free (by decide) (List.forall_mem_map.mpr fun item h => (hitems item h).1)
  refine ⟨join ", ".toList (items.map (·.2)) ++ " INTO ".toList ++
    join ", ".toList (items.map (·.1)), ?_, ?_⟩
  · simp only [mem_append, not_or]
    exact ⟨⟨hvalues, by decide⟩, htargets⟩
  · simp only [selectInto, append_assoc]

theorem convertSelect_parts (hp : p.types.Free) (ahead : List Text) {modifiers clause : Text}
    (hindent : indent.isBlank)
    (hitems : ∀ item ∈ items, '@' ∉ item.1) (hcomment : IsComment comment) :
    Tame comment (convertSelect p indent modifiers items clause comment ahead).value ∨
      ∃ rest, '@' ∉ rest ∧ (convertSelect p indent modifiers items clause comment ahead).value =
        withComment (indent ++ "SELECT ".toList ++ modifiers ++ rest) comment := by
  have hkept := not_sigil_convertItems hp hitems
  simp only [convertSelect, Noted.value_bind]
  rcases heq : (convertItems p items).value with _ | ⟨⟨target, value⟩, others⟩
  · left
    simp only [Noted.value_pure]
    split_ifs
    · exact tame_of_not_mem not_mem_nil
    · exact fun hin => absurd hin (not_sigil_codeOf_comment hindent hcomment)
  · rw [heq] at hkept
    obtain ⟨rest, hrest, hinto⟩ := exists_selectInto indent modifiers hkept
    obtain ⟨htarget, hvalue⟩ := hkept (target, value) mem_cons_self
    simp only [Noted.value_bind, hinto]
    split_ifs
    · refine .inr ⟨rest ++ ' ' :: (convert p clause).value, ?_, ?_⟩
      · simp only [mem_append, mem_cons, not_or]
        exact ⟨hrest, by decide, convert_free hp clause⟩
      · rw [Noted.value_bind, Noted.value_pure, append_assoc _ rest]
    · exact .inr ⟨rest, hrest, rfl⟩
    · refine .inl (tame_withComment ?_ hcomment)
      simp only [mem_append, not_or]
      exact ⟨⟨⟨⟨not_sigil_of_isBlank hindent, htarget⟩, by decide⟩, hvalue⟩, by decide⟩
    · refine .inr ⟨rest ++ [';'], ?_, ?_⟩
      · rw [mem_append, not_or]
        exact ⟨hrest, by decide⟩
      · rw [Noted.value_pure, append_assoc _ rest]

/-- **Modifiers that are kept as they stand**: the statement is an assignment by `SELECT` with the sign
in its modifiers, and nothing else in the code of its conversion has the sign. -/
def Statement.ShowsModifiers (statement : Statement) (t : Text) : Prop :=
  ∃ indent modifiers items clause comment rest,
    statement = .select indent modifiers items clause comment ∧ indent.isBlank ∧
      '@' ∈ modifiers ∧ '@' ∉ rest ∧
      t = withComment (indent ++ "SELECT ".toList ++ modifiers ++ rest) comment

/-- **The conversion of a statement is tame**, unless modifiers with the sign are kept. -/
theorem Statement.tame_or_showsModifiers (hp : p.types.Free) (ahead : List Text)
    (h : statement.Unsigned) : Tame statement.ownComment (statement.convert p ahead).value ∨
      statement.ShowsModifiers (statement.convert p ahead).value := by
  cases statement with
  | assign indent target value comment =>
    obtain ⟨hindent, htarget, hcomment⟩ := h
    have hstart : '@' ∉ indent ++ '_' :: target ++ " :=".toList := by
      simp only [mem_append, mem_cons, not_or]
      exact ⟨⟨not_sigil_of_isBlank hindent, by decide, htarget⟩, by decide⟩
    simp only [Statement.convert]
    left
    split_ifs
    · exact tame_of_not_mem hstart
    · refine tame_withComment ?_ hcomment
      rw [mem_append, mem_append, mem_cons, not_or, not_or, not_or]
      exact ⟨⟨hstart, by decide, convert_free hp value.trim⟩, by decide⟩
  | print indent value comment =>
    obtain ⟨hindent, hcomment⟩ := h
    refine .inl (tame_withComment ?_ hcomment)
    simp only [mem_append, not_or]
    exact ⟨⟨⟨not_sigil_of_isBlank hindent, by decide⟩, convert_free hp value.trim⟩, by decide⟩
  | rowCount indent target =>
    obtain ⟨hindent, htarget⟩ := h
    refine .inl (tame_of_not_mem ?_)
    simp only [Statement.convert, Noted.value_pure, mem_append, not_or]
    exact ⟨⟨⟨not_sigil_of_isBlank hindent, by decide⟩, htarget⟩, by decide⟩
  | select indent modifiers items clause comment =>
    obtain ⟨hindent, hitems, hcomment⟩ := h
    rcases convertSelect_parts hp ahead hindent hitems hcomment with htame | ⟨rest, hrest, hvalue⟩
    · exact .inl htame
    rw [Statement.convert, hvalue]
    by_cases hin : '@' ∈ modifiers
    · exact .inr ⟨indent, modifiers, items, clause, comment, rest, rfl, hindent, hin, hrest, rfl⟩
    · refine .inl (tame_withComment ?_ hcomment)
      simp only [mem_append, not_or]
      exact ⟨⟨⟨not_sigil_of_isBlank hindent, by decide⟩, hin⟩, hrest⟩
  | gotoDone indent =>
    refine .inl (tame_of_not_mem ?_)
    simp only [Statement.convert, Noted.value_pure, mem_append, not_or]
    exact ⟨not_sigil_of_isBlank h, by decide⟩
  | breakLoop indent =>
    refine .inl (tame_of_not_mem ?_)
    simp only [Statement.convert, Noted.value_pure, mem_append, not_or]
    exact ⟨not_sigil_of_isBlank h, by decide⟩
  | continueLoop line =>
    refine .inl fun hin => ?_
    exact absurd (mem_codeOf_addTerminator.mp hin) (not_sigil_codeOf h)
  | call indent target parameters comment =>
    obtain ⟨hindent, htarget, hcomment⟩ := h
    refine .inl (tame_withComment ?_ hcomment)
    simp only [mem_append, not_or]
    exact ⟨⟨⟨⟨⟨not_sigil_of_isBlank hindent, by decide⟩, not_sigil_callTarget p htarget⟩, by decide⟩,
      convert_free hp _⟩, by decide⟩

/-! ### Declarations -/

theorem not_sigil_of_readItems : ∀ {items : List Text} {list : List Variable},
    readItems items = .allVariables list → ∀ v ∈ list, '@' ∉ v.name
  | [], list, h => by
    cases h
    exact nofun
  | item :: items, list, h => by
    rw [readItems] at h
    split at h
    · cases h
    · next v hread =>
      simp only [declared?, bind_eq_bind, bind_eq_some_iff, Option.pure_def] at hread
      obtain ⟨⟨name, rest⟩, hname, ⟨type, value⟩, -, ⟨⟩⟩ := hread
      split_ifs at h
      split at h
      · next others hothers =>
        cases h
        exact forall_mem_cons.mpr ⟨not_sigil_of_atName? hname, not_sigil_of_readItems hothers⟩
      · next hother => exact (hother list h).elim

/-- **Local variables have no sign**, and the assignments of their values are tame. -/
theorem declareVariables_unsigned (hp : p.types.Free) {indent : Text} (hindent : indent.isBlank) :
    ∀ {list : List Variable} {comment : Text}, (∀ v ∈ list, '@' ∉ v.name) → IsComment comment →
      (∀ entry ∈ (declareVariables p indent comment list).value.locals, '@' ∉ entry) ∧
        ∀ t ∈ (declareVariables p indent comment list).value.lines, Tame comment t
  | [], _, _, _ => ⟨nofun, nofun⟩
  | v :: list, comment, h, hcomment => by
    obtain ⟨hname, hlist⟩ := forall_mem_cons.mp h
    have hentry : '@' ∉ '_' :: v.name ++ ' ' :: dataType p v.type.trim := by
      simp only [cons_append, mem_append, mem_cons, not_or]
      exact ⟨by decide, hname, by decide, dataType_free p v.type.trim⟩
    rw [declareVariables]
    split_ifs
    · exact declareVariables_unsigned hp hindent hlist hcomment
    · rcases v.value with _ | value
      · obtain ⟨hlocals, hlines⟩ := declareVariables_unsigned hp hindent hlist hcomment
        simp only [Noted.value_bind, Noted.value_pure, forall_mem_cons]
        exact ⟨⟨hentry, hlocals⟩, hlines⟩
      · obtain ⟨hlocals, hlines⟩ := declareVariables_unsigned hp hindent hlist (.inl rfl)
        simp only [Noted.value_bind, Noted.value_pure, forall_mem_cons]
        refine ⟨⟨hentry, hlocals⟩, tame_withComment ?_ hcomment, fun t ht => (hlines t ht).of_nil⟩
        simp only [mem_append, mem_cons, not_or]
        exact ⟨⟨⟨⟨not_sigil_of_isBlank hindent, by decide, hname⟩, by decide⟩,
          convert_free hp value.trim⟩, by decide, not_mem_nil⟩

theorem isBlank_isComment_of_declareLine? {d : DeclareLine} (h : declareLine? line = some d) :
    d.indent.isBlank ∧ IsComment d.comment := by
  simp only [declareLine?, bind_eq_bind, bind_eq_some_iff, Option.pure_def] at h
  obtain ⟨_, _, _, _, _, _, list, _, ⟨⟩⟩ := h
  exact ⟨all_takeWhile .., isComment_splitComment list⟩

theorem declare?_unsigned (hp : p.types.Free) (h : (declare? p line).value = some declared) :
    (∀ entry ∈ declared.locals, '@' ∉ entry) ∧
      ∃ d, declareLine? line = some d ∧ ∀ t ∈ declared.lines, Tame d.comment t := by
  unfold declare? at h
  split at h
  · cases h
  · next indent items comment hread =>
    obtain ⟨hindent, hcomment⟩ := isBlank_isComment_of_declareLine? hread
    split at h
    · cases h
    · cases h
    · next declaredList hlist =>
      obtain rfl := Option.some.inj h
      obtain ⟨hlocals, hlines⟩ :=
        declareVariables_unsigned hp hindent (not_sigil_of_readItems hlist) hcomment
      exact ⟨hlocals, _, hread, hlines⟩

/-! ### Leaks -/

/-- A line as it is written: it may get a terminator. -/
def IsWritten (t text : Text) : Prop := text = t ∨ text = addTerminator t

theorem IsWritten.sigil_mem_codeOf (h : IsWritten t text) : '@' ∈ codeOf text ↔ '@' ∈ codeOf t := by
  rcases h with rfl | rfl
  · rfl
  · exact mem_codeOf_addTerminator

/-- **The comment of a source line**, as it is cut off when the line is read. -/
inductive IsCommentOf (source comment : Text) : Prop
  | statement {statement : Statement} (hread : Statement.ofLine? source = some statement)
    (h : comment = statement.ownComment)
  | declaration {d : DeclareLine} (hread : declareLine? source = some d) (h : comment = d.comment)
  | line (h : comment = (splitComment source).2)

/-- **How the sign gets into the code of a converted line.** -/
inductive Leak (source text : Text) : Prop
  /-- The modifiers of an assignment by `SELECT` are written as they stand. -/
  | modifiers {statement : Statement} {t : Text} (hread : Statement.ofLine? source = some statement)
    (hshows : statement.ShowsModifiers t) (htext : IsWritten t text)
  /-- What follows an `End` is written as it stands. -/
  | afterEnd {extra word : Text} (hread : end? source = some extra) (hin : '@' ∈ codeOf extra)
    (hword : word ∈ ["End If;".toList, "End Loop;".toList]) (htext : text = source.indent ++ word ++ extra)
  /-- A quote is left open, so that the comment of the source line counts as code. -/
  | openQuote {comment t : Text} (hcomment : IsCommentOf source comment)
    (hshows : ShowsComment comment t) (htext : IsWritten t text)

/-- If the code of a converted line has the sign, it is by a leak. -/
def Converted.Explained (source : Text) (l : Converted) : Prop :=
  '@' ∈ codeOf (tidy l.text) → Leak source l.text

/-- **All lines but those of warnings** have the property. -/
inductive ApartFromWarnings (P : Converted → Prop) : List Converted → Prop
  | nil : ApartFromWarnings P []
  | line {l : Converted} {lines : List Converted} (hl : P l) (hlines : ApartFromWarnings P lines) :
    ApartFromWarnings P (l :: lines)
  | warning (pending : Pending) (indent : Text) {lines : List Converted}
    (hlines : ApartFromWarnings P lines) :
    ApartFromWarnings P ((pending.warning.map fun warning => { text := indent ++ warning }) ++ lines)

namespace ApartFromWarnings

variable {P Q : Converted → Prop} {a b : List Converted}

theorem of_forall : ∀ {lines : List Converted}, (∀ l ∈ lines, P l) → ApartFromWarnings P lines
  | [], _ => .nil
  | _ :: _, h => .line (forall_mem_cons.mp h).1 (of_forall (forall_mem_cons.mp h).2)

theorem append (ha : ApartFromWarnings P a) (hb : ApartFromWarnings P b) :
    ApartFromWarnings P (a ++ b) := by
  induction ha with
  | nil => exact hb
  | line hl _ ih => exact .line hl ih
  | warning pending indent _ ih =>
    rw [append_assoc]
    exact .warning pending indent ih

theorem flatMap : ∀ {told : List Share}, (∀ share ∈ told, ApartFromWarnings P share.lines) →
    ApartFromWarnings P (told.flatMap Share.lines)
  | [], _ => .nil
  | share :: told, h => by
    obtain ⟨hshare, htold⟩ := forall_mem_cons.mp h
    rw [flatMap_cons]
    exact hshare.append (flatMap htold)

theorem imp (ha : ApartFromWarnings P a) (h : ∀ l ∈ a, P l → Q l) : ApartFromWarnings Q a := by
  induction ha with
  | nil => exact .nil
  | line hl _ ih =>
    obtain ⟨hfirst, hrest⟩ := forall_mem_cons.mp h
    exact .line (hfirst hl) (ih hrest)
  | warning pending indent _ ih =>
    exact .warning pending indent (ih fun l hl => h l (mem_append_right _ hl))

end ApartFromWarnings

/-- **What becomes of a source line has the sign by leaks alone**: none of its variables has it, and
apart from warnings it is explained in every line. -/
structure Share.Explained (p : Profile) (share : Share) : Prop where
  locals : ∀ entry ∈ share.locals, '@' ∉ entry
  lines : ApartFromWarnings (Converted.Explained (Expression.literal p share.source)) share.lines

theorem explained_of_tame (hcomment : IsCommentOf source comment) (h : Tame comment t)
    (htext : IsWritten t text) : Converted.Explained source ⟨role, text⟩ := by
  intro hin
  rw [mem_codeOf_tidy sigil_visible, htext.sigil_mem_codeOf] at hin
  exact .openQuote hcomment (h hin) htext

theorem explained_of_not_mem (h : '@' ∉ codeOf t) (htext : IsWritten t text) :
    Converted.Explained source ⟨role, text⟩ := by
  intro hin
  rw [mem_codeOf_tidy sigil_visible, htext.sigil_mem_codeOf] at hin
  exact absurd hin h

/-- A share without variables and warnings. -/
theorem Share.explained_of_forall {part : Part} {lines : List Converted}
    (h : ∀ l ∈ lines, l.Explained (Expression.literal p source)) :
    Share.Explained p { source, part, lines } :=
  ⟨nofun, .of_forall h⟩

theorem explained_declaration (hp : p.types.Free)
    (h : (declare? p (Expression.literal p line)).value = some declared) : Share.Explained p
    { source := line, part := .declaration, lines := declared.lines.map ({ text := · }),
      locals := declared.locals } := by
  obtain ⟨hlocals, d, hread, hlines⟩ := declare?_unsigned hp h
  refine ⟨hlocals, .of_forall (List.forall_mem_map.mpr fun t ht => ?_)⟩
  exact explained_of_tame (.declaration hread rfl) (hlines t ht) (.inl rfl)

theorem explained_ifBegin : Share.Explained p
    { source := line, part := .ifBegin, lines := beginComment line } := by
  refine Share.explained_of_forall fun l hl => ?_
  unfold beginComment at hl
  split at hl
  · cases hl
  · rw [mem_singleton.mp hl]
    exact explained_of_not_mem
      (not_sigil_codeOf_comment (all_takeWhile ..) (isComment_splitComment line)) (.inl rfl)

/-- The line of a statement, which may be dropped. -/
theorem explained_statement (hp : p.types.Free) {write : Text → Text}
    (hwrite : ∀ t, IsWritten t (write t)) (hread : Statement.ofLine? source = some statement)
    (ahead : List Text) :
    ∀ l ∈ if (statement.convert p ahead).value.isEmpty then []
      else [({ text := write (statement.convert p ahead).value } : Converted)], l.Explained source := by
  intro l hl
  split_ifs at hl
  · cases hl
  · rw [mem_singleton.mp hl]
    rcases Statement.tame_or_showsModifiers hp ahead (unsigned_of_ofLine? hread) with htame | hshows
    · exact explained_of_tame (.statement hread rfl) htame (hwrite _)
    · exact fun _ => .modifiers hread hshows (hwrite _)

theorem explained_guardedStatement (hp : p.types.Free) : Share.Explained p
    { source := line, part := .statement, lines := (guardedStatement p line ahead).lines } := by
  refine Share.explained_of_forall ?_
  cases hread : Statement.ofLine? (Expression.literal p line) with
  | none =>
    intro l hl
    simp only [guardedStatement, hread, Noted.value_bind] at hl
    split_ifs at hl
    · cases hl
    · rw [mem_singleton.mp hl]
      exact explained_of_not_mem (not_sigil_codeOf (convert_free hp _)) (.inr rfl)
  | some statement =>
    simp only [guardedStatement, hread]
    exact explained_statement hp (fun t => .inr rfl) hread ahead

theorem explained_convert (hp : p.types.Free) (source t : Text) :
    Converted.Explained source { text := (convert p t).value } :=
  explained_of_not_mem (not_sigil_codeOf (convert_free hp t)) (.inl rfl)

theorem explained_plainLine (hp : p.types.Free) (s : State) : Share.Explained p
    { source := line, part := .statement,
      lines := (plainLine p s (Expression.literal p line) ahead).lines } := by
  refine ⟨nofun, ?_⟩
  dsimp only
  cases hread : Statement.ofLine? (Expression.literal p line) with
  | none =>
    have hline := explained_convert hp (Expression.literal p line) (Expression.literal p line)
    have hone := ApartFromWarnings.line hline .nil
    simp only [plainLine, hread]
    unfold otherLine
    dsimp only
    split
    · exact hone
    · split
      · exact hone
      · next pending _ =>
        split_ifs
        · have hwarning := ApartFromWarnings.warning
            (P := Converted.Explained (Expression.literal p line)) pending
            (Expression.literal p line).indent .nil
          rw [append_nil] at hwarning
          exact .line hline hwarning
        · exact hone
  | some statement =>
    simp only [plainLine, hread]
    exact .of_forall (explained_statement hp (fun t => .inl rfl) hread ahead)

theorem explained_condition (hp : p.types.Free) (hword : '@' ∉ word) : Share.Explained p
    { source, part := .control,
      lines := [⟨role, (condition p (Expression.literal p source) word).value⟩] } := by
  refine Share.explained_of_forall (forall_mem_singleton.mpr (explained_of_tame (.line rfl) ?_ (.inl rfl)))
  refine tame_withComment ?_ (isComment_splitComment _)
  simp only [mem_append, mem_cons, not_or]
  exact ⟨convert_free hp _, by decide, hword⟩

theorem explained_elseLine (hp : p.types.Free) : Share.Explained p
    { source := line, part := .control, lines := (elseLine p line).lines } :=
  Share.explained_of_forall (forall_mem_singleton.mpr (explained_convert hp _ _))

/-- What follows the end of a block is all that can have the sign. -/
theorem explained_end {extra : Text} (hread : end? (Expression.literal p source) = some extra)
    (hword : word ∈ ["End If;".toList, "End Loop;".toList]) : Share.Explained p
    { source, part := .control,
      lines := [⟨role, (Expression.literal p source).indent ++ word ++ extra⟩] } := by
  refine Share.explained_of_forall (forall_mem_singleton.mpr fun hin => ?_)
  have hindent : Text.isBlank (Expression.literal p source).indent := all_takeWhile ..
  have hwords : ∀ word ∈ ["End If;".toList, "End Loop;".toList], isBare word ∧ '@' ∉ word := by
    decide
  obtain ⟨hbare, hfree⟩ := hwords word hword
  have hstart : isBare ((Expression.literal p source).indent ++ word) := by
    unfold isBare at hbare ⊢
    rw [all_append, hbare, Bool.and_true]
    exact isBare_of_isBlank hindent
  rw [mem_codeOf_tidy sigil_visible] at hin
  refine .afterEnd hread (mem_codeOf_append sigil_visible hstart ?_ hin) hword rfl
  rw [mem_append, not_or]
  exact ⟨not_sigil_of_isBlank hindent, hfree⟩

/-- **Every share has the sign by leaks alone.** -/
theorem explained_everyKind (hp : p.types.Free) : EveryKind p (Share.Explained p) where
  declaration := explained_declaration hp
  head hword := by
    have hwords : ∀ word ∈ ["Then".toList, "Loop".toList], '@' ∉ word := by decide
    exact explained_condition hp (hwords _ hword)
  ifBegin _ := explained_ifBegin
  loopBegin _ := ⟨nofun, .nil⟩
  guardedLine := explained_guardedStatement hp
  elseHead := explained_elseLine hp
  blockEnd := explained_end
  endBeforeElse _ := ⟨nofun, .nil⟩
  plain := explained_plainLine hp _

/-! ### Calls -/

/-- The line comes from a source line that one of the calls takes, by a leak. -/
def LeaksFrom (p : Profile) (calls : List (Text × List Text)) (l : Converted) : Prop :=
  ∃ s, ∃ call ∈ calls, ∃ share ∈ shares p s call.1 call.2,
    l ∈ share.lines ∧ Leak (Expression.literal p share.source) l.text

/-- **One call**: it adds variables without the sign, and lines that have it by leaks alone. -/
theorem step_explained (hp : p.types.Free) (name : Text) (s : State) {calls : List (Text × List Text)}
    (hcall : (line, ahead) ∈ calls) :
    (∀ entry ∈ (step p name s line ahead).locals, '@' ∉ entry) ∧
      ApartFromWarnings (fun l => '@' ∈ codeOf (tidy l.text) → LeaksFrom p calls l)
        (step p name s line ahead).lines := by
  cases hline : line.isBlank with
  | true =>
    have hstep : step p name s line ahead =
        { state := { s with pending := none }, lines := [{ text := [] }] } := if_pos hline
    rw [hstep]
    exact ⟨nofun, .line (fun hin => absurd hin (by decide)) .nil⟩
  | false =>
    obtain ⟨-, ⟨inserted, hlines, hinserted⟩, hlocals⟩ := step_told (p := p) name s hline ahead
    have hshares := (explained_everyKind hp).shares s line ahead
    constructor
    · rw [hlocals]
      intro entry hentry
      obtain ⟨share, hshare, hin⟩ := mem_flatMap.mp hentry
      exact (hshares share hshare).locals entry hin
    · rw [hlines]
      refine .append (.flatMap fun share hshare => ?_) ?_
      · refine (hshares share hshare).lines.imp fun l hl hexplained hin => ?_
        exact ⟨s, (line, ahead), hcall, share, hshare, hl, hexplained hin⟩
      · rcases hinserted with rfl | ⟨indent, hindent, rfl⟩
        · exact .nil
        · refine .line (fun hin => ?_) .nil
          have hend : '@' ∉ indent ++ "End If;".toList := by
            rw [mem_append, not_or]
            exact ⟨not_sigil_of_isBlank hindent, by decide⟩
          rw [mem_codeOf_tidy sigil_visible] at hin
          exact absurd hin (not_sigil_codeOf hend)

/-- **No sign of a variable is left, but for leaks.** Whatever lines a conversion is given, with
whatever lines ahead, in whatever state it starts and with whatever profile, as long as its mapping of
types brings in no sign: no local variable has the sign, and the lines that the body gains, apart from
those of warnings, have it in their code only if they come from a line of the source by one of the three
leaks. -/
theorem run_sigils {p : Profile} (hp : p.types.Free) (name : Text) (s : State) (body : List Text)
    (calls : List (Text × List Text)) :
    let f := Feed.run p name { state := s, body, ahead := [] } calls
    (∀ entry ∈ f.locals, '@' ∉ entry) ∧ f.body = appendLines body (texts f.lines) ∧
      ApartFromWarnings (fun l => '@' ∈ Code.codeOf (tidy l.text) → LeaksFrom p calls l) f.lines := by
  refine Feed.run_induction (P := fun f => (∀ entry ∈ f.locals, '@' ∉ entry) ∧
    f.body = appendLines body (texts f.lines) ∧
      ApartFromWarnings (fun l => '@' ∈ Code.codeOf (tidy l.text) → LeaksFrom p calls l) f.lines)
    (fun f line ahead hcall hf => ?_) ⟨nofun, rfl, .nil⟩
  obtain ⟨hlocals, hbody, hlines⟩ := hf
  obtain ⟨hnewLocals, hnewLines⟩ := step_explained hp name f.state hcall
  refine ⟨?_, ?_, hlines.append hnewLines⟩
  · exact List.forall_mem_append.mpr ⟨hlocals, hnewLocals⟩
  · rw [Feed.after, texts_append, appendLines_append, ← hbody]

/-- The three leaks. -/
theorem run_sigils_leaks :
    let p := { Profile.standard with functionNames := [] }
    let calls := [("SELECT TOP (@n) @x = y FROM t".toList, []), ("End Set @b = 2".toList, []),
      ("Exec Job's -- of @c".toList, []), ("Declare @d int = 1".toList, [])]
    let f := Feed.run p [] { state := { blocks := [.whileLoop] }, body := [], ahead := [] } calls
    (p.types.Free ∧ f.locals = ["_d int".toList] ∧ f.body =
      ["SELECT TOP (@n) y INTO _x FROM t".toList, "End Loop; Set @b = 2".toList,
        "Call Job's (); -- of @c".toList, "_d := 1;".toList]) ∧
      (∀ entry ∈ f.locals, '@' ∉ entry) ∧
      ApartFromWarnings (fun l => '@' ∈ Code.codeOf (tidy l.text) → LeaksFrom p calls l) f.lines := by
  intro p calls f
  have hfree : p.types.Free := DataType.spelling?_free
  obtain ⟨hlocals, -, hlines⟩ := run_sigils hfree [] { blocks := [.whileLoop] } [] calls
  exact ⟨⟨hfree, by decide +kernel, by decide +kernel⟩, hlocals, hlines⟩

end SqlRoutine.Body

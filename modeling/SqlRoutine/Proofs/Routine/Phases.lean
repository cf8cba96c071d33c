import SqlRoutine.Proofs.Code.Terminator
import SqlRoutine.Proofs.Expression.Blank
import SqlRoutine.Routine.Header

/-! # The phases of a header

A header is read for the arguments, the comments on them, and the type that a function returns. For
each line of the usual layout, in the phase in which it stands, this says **what the header has found
after it, and in which phase it is then**. An argument line has a variable at its start, so its name is
the name of that variable (`addArgument_of_atName?`). A type that is written in a line is never lost
(`normalizedType_ne_nil`), so the next line with the keyword is not taken for it. -/

namespace SqlRoutine.Header

open Code Text
open List hiding find?

variable {dated : Bool} {c : Char} {t type : Text}

variable {p : Profile} {today : Date} {d : Definition} {line name rest : Text} {ahead : List Text}

/-! ### Argument lines -/

/-- **The argument of a line**: its code with functions and types renamed. -/
def normalizedArgument (p : Profile) (line : Text) : Text :=
  trim <| expandTabs <|
    markOutput (Expression.dataType p (Expression.literal p (codeOf line.trim)))

/-- **The comment on an argument**, under the new name of the argument. -/
def remark? (line : Text) : Option (Text × Text) :=
  (atName? line.trimStart).bind fun (name, _) =>
    let remark := trim ((splitComment line.trim).2.drop 2)
    if remark.isEmpty then none else some ('_' :: name, remark)

/-- **The code of an argument line starts with its variable.** -/
theorem codeOf_of_atName? (h : atName? line.trimStart = some (name, rest)) :
    ∃ z, codeOf line.trim = '@' :: (name ++ z) ∧ z <+: rest := by
  obtain ⟨hline, hne, hword, -⟩ := atName?_spec h
  have htrimEnd : ∀ u, trimEnd ('@' :: (name ++ u)) = '@' :: (name ++ trimEnd u) := by
    intro u
    obtain ⟨init, w, rfl⟩ := eq_nil_or_concat name |>.resolve_left hne
    have hw : isBlank w = false := by
      rw [← Bool.not_eq_true]
      intro hblank
      have hlast := all_eq_true.mp hword w (by simp)
      rw [isWord_blank hblank] at hlast
      cases hlast
    have happend := trimEnd_append_cons ('@' :: init) hw u
    simpa using happend
  have hbare : isBare ('@' :: name) := by
    rw [isBare, all_cons, ← isBare, isBare_of_isWord hword]
    rfl
  have hnone : commentFrom false ('@' :: name) = [] := by
    have hcomment := commentFrom_append hbare false []
    rwa [append_nil] at hcomment
  have hlast : ('@' :: name).getLast? ≠ some '-' := fun hlast => by
    have hin := all_eq_true.mp hbare '-' (mem_of_getLast? hlast)
    cases hin
  have hsplit : ∃ z, (splitAtDashes false ('@' :: (name ++ rest.trimEnd))).1 = '@' :: (name ++ z) ∧
      z <+: rest.trimEnd := by
    have happend := splitAtDashes_append (u := rest.trimEnd) hnone fun h => absurd h hlast
    refine ⟨(splitAtDashes (endsQuoted false ('@' :: name)) rest.trimEnd).1, ?_, ?_⟩
    · rw [← cons_append, happend]
      rfl
    · exact ⟨_, splitAtDashes_fst_append_snd _ rest.trimEnd⟩
  unfold codeOf splitComment trim
  rw [hline, htrimEnd]
  obtain ⟨z, hz, hpart⟩ := hsplit
  split
  · exact ⟨rest.trimEnd, rfl, trimEnd_isPrefix rest⟩
  · rename_i code comment _ hcode
    rw [hcode] at hz
    dsimp only at hz ⊢
    rw [hz, htrimEnd]
    exact ⟨trimEnd z, rfl,
      (trimEnd_isPrefix z).trans (hpart.trans (trimEnd_isPrefix rest))⟩

theorem variableName?_cons {z : Text} (hne : name ≠ []) (hword : name.all isWord)
    (hz : z.head?.all (fun c => !isWord c)) :
    variableName? ('@' :: (name ++ z)) = some name := by
  have hat : atName? ('@' :: (name ++ z)) = some (name, z) := name?_append hne hword hz
  unfold variableName? find? findFrom
  rw [hat]
  rfl

/-- **An argument line adds its argument, and its comment if it has one.** -/
theorem addArgument_of_atName? (h : atName? line.trimStart = some (name, rest)) :
    addArgument p d line = ⟨{ d with
      arguments := d.arguments ++ [normalizedArgument p line]
      argumentComments := d.argumentComments ++ (remark? line).toList }, []⟩ := by
  obtain ⟨-, hne, hword, hrest⟩ := atName?_spec h
  obtain ⟨z, hcode, hz⟩ := codeOf_of_atName? h
  have hhead : z.head?.all (fun c => !isWord c) := by
    obtain ⟨w, rfl⟩ := hz
    cases z with
    | nil => rfl
    | cons c z => exact hrest
  have hvariable : variableName? (codeOf line.trim) = some name := by
    rw [hcode]
    exact variableName?_cons hne hword hhead
  have hempty : (codeOf line.trim).isEmpty = false := by rw [hcode]; rfl
  unfold codeOf at hvariable hempty
  unfold addArgument remark? normalizedArgument codeOf
  rw [h]
  dsimp only [Option.bind_some]
  rw [hempty, if_neg Bool.false_ne_true, hvariable]
  dsimp only
  split_ifs
  · rw [Option.toList_none, append_nil]
  · rfl

theorem addArgument_of_isBlank (h : line.isBlank) : addArgument p d line = pure d := by
  unfold addArgument
  rw [trim_of_isBlank h]
  rfl

/-! ### The type that a function returns -/

/-- **The type that is written after the keyword**, without an inline comment. -/
def writtenType? (line : Text) : Option Text :=
  (returns? line).bind fun clause =>
    let type := codeOf clause.trim
    if type.isEmpty then none else some type

/-- **The spelling of a type** that a function returns. -/
def normalizedType (p : Profile) (type : Text) : Text :=
  trim (Expression.dataType p (Expression.literal p (withoutAs type)))

theorem setReturnType?_of_writtenType? (hkind : d.kind = .function)
    (hnew : d.returnType = []) (h : writtenType? line = some type) :
    setReturnType? p d line ahead =
      some ({ d with returnType := normalizedType p type }, 0, []) := by
  obtain ⟨clause, hclause, htype⟩ := Option.bind_eq_some_iff.mp h
  dsimp only at htype
  split_ifs at htype with hempty
  cases htype
  unfold setReturnType?
  rw [hkind, hnew, hclause]
  simp only [isEmpty_nil, Bool.not_true, Bool.or_false, Option.map_some, if_neg hempty]
  rfl

theorem setReturnType?_of_done (h : d.kind = .procedure ∨ d.returnType ≠ []) :
    setReturnType? p d line ahead = none := by
  unfold setReturnType?
  rw [if_pos]
  rcases h with h | h
  · simp [h]
  · simp [h]

theorem setReturnType?_of_head (h : line.trimStart = c :: t)
    (hc : sameLetter 'R' c = false) : setReturnType? p d line ahead = none := by
  have hkeyword : keyword? "RETURNS".toList (c :: t) = none := if_neg (Bool.eq_false_iff.mp hc)
  unfold setReturnType? returns? word?
  rw [h, hkeyword]
  split_ifs <;> rfl

theorem setReturnType?_of_isBlank (h : line.isBlank) :
    setReturnType? p d line ahead = none := by
  unfold setReturnType? returns?
  rw [trimStart_of_isBlank h]
  split_ifs <;> rfl

theorem isBlank_withoutAs (hc : isBlank c = false) (t : Text) :
    Text.isBlank (withoutAs (c :: t)) = false := by
  have hfind : blanks? (c :: t) = none := if_neg (by simp [hc])
  unfold withoutAs
  rw [replaceAll_eq, replaceFrom_of_none (by rw [hfind]; rfl), isBlank_cons, hc,
    Bool.false_and]

/-- **A type that is written is not lost.** -/
theorem normalizedType_ne_nil (hp : p.KeepsText) (h : writtenType? line = some type) :
    normalizedType p type ≠ [] := by
  obtain ⟨clause, -, htype⟩ := Option.bind_eq_some_iff.mp h
  dsimp only at htype
  split_ifs at htype with hempty
  cases htype
  have hpart : codeOf clause.trim <+: clause.trimStart :=
    (codeOf_isPrefix clause.trim).trans (trimEnd_isPrefix clause.trimStart)
  obtain ⟨c, t, hct⟩ : ∃ c t, codeOf clause.trim = c :: t :=
    exists_cons_of_ne_nil fun hnil => hempty (by rw [hnil]; rfl)
  have hc : isBlank c = false := by
    obtain ⟨u, hu⟩ := hpart
    rw [hct] at hu
    exact isBlank_of_trimStart hu.symm
  intro hnil
  have hblank : Text.isBlank (normalizedType p (codeOf clause.trim)) = false := by
    rw [normalizedType, trim, isBlank_trimEnd, isBlank_trimStart, hct]
    exact Expression.isBlank_dataType p (Expression.isBlank_literal hp (isBlank_withoutAs hc t))
  rw [hnil] at hblank
  cases hblank

/-! ### Lines in their phases -/

/-- What a header is read for. -/
structure Found where
  arguments : List Text := []
  argumentComments : List (Text × Text) := []
  returnType : Text := []

/-- What the header of a routine has given so far. -/
def found (d : Definition) : Found := ⟨d.arguments, d.argumentComments, d.returnType⟩

/-- **The line belongs to the header**, together with `taken` more; the header has then found `f` and
is in the state `s`. -/
structure Outcome.Finds (o : Outcome) (taken : ℕ) (s : State) (f : Found) : Prop where
  state : o.state = s
  found : Header.found o.definition = f
  consumed : o.consumed
  taken : o.taken = taken

theorem found_closeDate (d : Definition) (today : Date) (dated : Bool) :
    found (closeDate today dated d) = found d := by
  cases dated <;> rfl

theorem step_opens_comment (h : line.startsWith "/*****".toList) :
    (step p today {} d line ahead).Finds 0 ⟨.inside false, .awaited, false⟩ (found d) := by
  have hstep : step p today {} d line ahead =
      ⟨⟨.inside false, .awaited, false⟩, addComment d line.expandTabs, true, 0, []⟩ := by
    unfold step
    dsimp only
    rw [if_neg Bool.false_ne_true, h, Bool.and_true, if_pos (decide_eq_true rfl)]
  rw [hstep]
  exact ⟨rfl, rfl, rfl, rfl⟩

/-- Inside a comment block at most one line is taken, and only one of two stars. -/
theorem step_inside_comment (h : line.trimEnd.endsWith "*****/".toList = false) :
    ∃ dated', (step p today ⟨.inside dated, .awaited, false⟩ d line ahead).Finds
      (if isBoilerplate line && starsAhead ahead then 1 else 0) ⟨.inside dated', .awaited, false⟩
      (found d) := by
  have hstep : step p today ⟨.inside dated, .awaited, false⟩ d line ahead =
      commentLine today ⟨.inside dated, .awaited, false⟩ dated d line ahead := by
    unfold step
    dsimp only
    rw [if_neg Bool.false_ne_true, h, if_neg Bool.false_ne_true]
  rw [hstep]
  unfold commentLine
  dsimp only
  generalize (if isParametersHeading line then Note.lookAhead 1 ahead else []) = notes
  cases isBoilerplate line with
  | true =>
    rw [if_pos rfl, Bool.true_and]
    exact ⟨dated, rfl, rfl, rfl, rfl⟩
  | false =>
    rw [if_neg Bool.false_ne_true, Bool.false_and, if_neg Bool.false_ne_true]
    split_ifs
    · exact ⟨dated, rfl, rfl, rfl, rfl⟩
    · exact ⟨false, rfl, found_closeDate d today dated, rfl, rfl⟩
    · split
      · exact ⟨dated, rfl, rfl, rfl, rfl⟩
      · exact ⟨_, rfl, rfl, rfl, rfl⟩

theorem step_closes_comment (h : line.trimEnd.endsWith "*****/".toList) :
    (step p today ⟨.inside dated, .awaited, false⟩ d line ahead).Finds 0
      ⟨.finished, .awaited, false⟩ (found d) := by
  have hstep : step p today ⟨.inside dated, .awaited, false⟩ d line ahead =
      ⟨⟨.finished, .awaited, false⟩, addComment (closeDate today dated d) line.expandTabs, true, 0,
        []⟩ := by
    unfold step
    dsimp only
    rw [if_neg Bool.false_ne_true, h, if_pos rfl]
  rw [hstep]
  exact ⟨rfl, found_closeDate d today dated, rfl, rfl⟩

theorem startsWith_of_head (h : line.trimStart = c :: t) (hc : c ≠ '/') :
    line.startsWith "/*****".toList = false := by
  rw [← Bool.not_eq_true]
  intro hstart
  obtain ⟨u, rfl⟩ := isPrefixOf_iff_prefix.mp hstart
  have htrim : trimStart ("/*****".toList ++ u) = '/' :: _ :=
    trimStart_of_head (by decide)
  rw [htrim] at h
  exact hc (List.cons.inj h).1.symm

/-- **Outside the comment block** a line is read by the phase of the argument list. -/
theorem step_outside {comment : CommentPhase} (arguments : ArgumentPhase)
    (hcomment : ∀ dated, comment ≠ .inside dated)
    (hline : arguments ≠ .awaited ∨ line.startsWith "/*****".toList = false) :
    step p today ⟨comment, arguments, false⟩ d line ahead =
      outsideComment p ⟨comment, arguments, false⟩ d line ahead := by
  unfold step
  dsimp only
  rw [if_neg Bool.false_ne_true]
  cases comment with
  | awaited =>
    dsimp only
    rw [if_neg]
    rw [Bool.and_eq_true, decide_eq_true_eq]
    rintro ⟨hawaited, hstart⟩
    rcases hline with hline | hline
    · exact hline hawaited
    · rw [hline] at hstart
      cases hstart
  | inside dated => exact absurd rfl (hcomment dated)
  | finished => rfl

variable {comment : CommentPhase} (hcomment : ∀ dated, comment ≠ .inside dated)
include hcomment

theorem step_opens_arguments (h : line.trim = ['(']) :
    (step p today ⟨comment, .awaited, false⟩ d line ahead).Finds 0
      ⟨comment, .inside false, false⟩ (found d) := by
  obtain ⟨u, hu⟩ := head_of_trim h
  rw [step_outside .awaited hcomment (.inr (startsWith_of_head hu (by decide)))]
  dsimp only [outsideComment, beforeArguments]
  rw [h]
  exact ⟨rfl, rfl, rfl, rfl⟩

theorem step_closes_arguments (h : line.trim = [')']) :
    (step p today ⟨comment, .inside false, false⟩ d line ahead).Finds 0
      ⟨comment, .finished false, false⟩ (found d) := by
  rw [step_outside (.inside false) hcomment (.inl nofun)]
  dsimp only [outsideComment, argumentLine]
  rw [h]
  exact ⟨rfl, rfl, rfl, rfl⟩

/-- A line among the arguments is a closing parenthesis, a type, or an argument. -/
theorem step_among_arguments (hclose : ∀ t, line.trim ≠ ')' :: t)
    (htype : setReturnType? p d line ahead = none) :
    step p today ⟨comment, .inside false, false⟩ d line ahead =
      ⟨⟨comment, .inside false, false⟩, (addArgument p d line).value, true, 0,
        (addArgument p d line).notes⟩ := by
  rw [step_outside (.inside false) hcomment (.inl nofun)]
  dsimp only [outsideComment, argumentLine]
  rw [Bool.false_and, Bool.false_and, if_neg Bool.false_ne_true, htype]
  split
  · rename_i t ht
    exact absurd ht (hclose t)
  · rfl

theorem step_blank_among_arguments (h : line.isBlank) :
    (step p today ⟨comment, .inside false, false⟩ d line ahead).Finds 0
      ⟨comment, .inside false, false⟩ (found d) := by
  rw [step_among_arguments hcomment (by rw [trim_of_isBlank h]; nofun)
    (setReturnType?_of_isBlank h), addArgument_of_isBlank h]
  exact ⟨rfl, rfl, rfl, rfl⟩

theorem step_argument (h : atName? line.trimStart = some (name, rest)) :
    (step p today ⟨comment, .inside false, false⟩ d line ahead).Finds 0
      ⟨comment, .inside false, false⟩ { found d with
        arguments := d.arguments ++ [normalizedArgument p line]
        argumentComments := d.argumentComments ++ (remark? line).toList } := by
  obtain ⟨hline, -⟩ := atName?_spec h
  have hclose : ∀ t, line.trim ≠ ')' :: t := by
    intro t ht
    obtain ⟨u, hu⟩ := head_of_trim ht
    rw [hline] at hu
    exact absurd (List.cons.inj hu).1 (by decide)
  rw [step_among_arguments hcomment hclose (setReturnType?_of_head hline (by decide)),
    addArgument_of_atName? h]
  exact ⟨rfl, rfl, rfl, rfl⟩

theorem step_returns (hkind : d.kind = .function) (hnew : d.returnType = [])
    (h : writtenType? line = some type) :
    (step p today ⟨comment, .finished false, false⟩ d line ahead).Finds 0
      ⟨comment, .finished false, false⟩ { found d with returnType := normalizedType p type } := by
  rw [step_outside (.finished false) hcomment (.inl nofun)]
  dsimp only [outsideComment, afterArguments]
  rw [setReturnType?_of_writtenType? hkind hnew h]
  exact ⟨rfl, rfl, rfl, rfl⟩

/-- **The header is over** at a line that is not blank, when the type has been found. -/
theorem step_over (hdone : d.kind = .procedure ∨ d.returnType ≠ []) (h : line.isBlank = false) :
    step p today ⟨comment, .finished false, false⟩ d line ahead =
      ⟨⟨comment, .finished false, true⟩, d, false, 0, []⟩ := by
  rw [step_outside (.finished false) hcomment (.inl nofun)]
  dsimp only [outsideComment, afterArguments]
  rw [setReturnType?_of_done hdone]
  exact if_neg (Bool.eq_false_iff.mp h)

end SqlRoutine.Header

import SqlRoutine.Proofs.Routine.Phases

/-! # Argument lists with and without parentheses

The arguments of a routine stand between two lines with parentheses, or on lines of their own. Both
are read line by line (`parse`), and both pass over blank lines. They end differently: the first list at
its parenthesis, the second at the first line that is neither blank nor starts with a variable. A line
that is only a comment is such a line too. So **the two lists mean the same just when no line of the list
is only a comment** (`bare_list_iff`); otherwise the bare list ends at that line, and the rest of it is
taken for the body. -/

namespace SqlRoutine.Header

open Code List

variable {c : Char} {body list : List Text} {first t : Text}

/-! ### Reading lines -/

/-- What comes of the lines of a routine: its definition after the header, and the lines that belong to
the body. -/
structure Parsed where
  definition : Definition
  body : List Text

/-- Both have the same arguments with the same comments, and leave the same lines to the body. -/
structure Parsed.Agree (a b : Parsed) : Prop where
  arguments : a.definition.arguments = b.definition.arguments
  argumentComments : a.definition.argumentComments = b.definition.argumentComments
  body : a.body = b.body

/-- **Reads lines one after the other**; `skip` of them have been taken already. -/
def parse (p : Profile) (today : Date) (s : State) (d : Definition) :
    (skip : ℕ) → List Text → Parsed
  | _, [] => ⟨d, []⟩
  | skip + 1, _ :: lines => parse p today s d skip lines
  | 0, line :: lines =>
    let o := step p today s d line lines
    let rest := parse p today o.state o.definition o.taken lines
    if o.consumed then rest else { rest with body := line :: rest.body }

variable {p : Profile} {today : Date} {s : State} {d : Definition} {line : Text} {lines : List Text}

theorem parse_of_consumed {s' : State} {d' : Definition} {notes : List Note}
    (h : step p today s d line lines = ⟨s', d', true, 0, notes⟩) :
    parse p today s d 0 (line :: lines) = parse p today s' d' 0 lines := by
  rw [parse, h]
  rfl

/-- **Once the header is over**, all lines belong to the body. -/
theorem parse_inBody (hbody : s.inBody) (d : Definition) :
    ∀ lines, parse p today s d 0 lines = ⟨d, lines⟩
  | [] => rfl
  | line :: lines => by
    have hstep : step p today s d line lines = ⟨s, d, false, 0, []⟩ := by
      rw [step, if_pos hbody]
    rw [parse, hstep]
    dsimp only
    rw [parse_inBody hbody d lines, if_neg Bool.false_ne_true]

theorem length_body_le : ∀ (lines : List Text) (s : State) (d : Definition) (skip : ℕ),
    (parse p today s d skip lines).body.length ≤ lines.length
  | [], s, d, skip => by simp [parse]
  | line :: lines, s, d, skip + 1 => by
    have hrest := length_body_le lines s d skip
    rw [parse, length_cons]
    omega
  | line :: lines, s, d, 0 => by
    have hrest := length_body_le lines (step p today s d line lines).state
      (step p today s d line lines).definition (step p today s d line lines).taken
    rw [parse, length_cons]
    split_ifs
    · omega
    · simp only [length_cons]
      omega

/-! ### Lines of an argument list -/

/-- The line starts with the sign of a variable, behind blanks. -/
def IsArgumentLine (line : Text) : Prop := ∃ t, line.trim = '@' :: t

/-- The line may stand in an argument list. -/
def IsListed (line : Text) : Prop :=
  IsArgumentLine line ∨ line.isBlank ∨ isCommentOnly line

/-- **The line starts the body** behind an argument list. -/
def StartsBody (line : Text) : Prop :=
  ∃ c t, line.trim = c :: t ∧ c ≠ '@' ∧ c ≠ '(' ∧ c ≠ ')'

theorem trim_of_isCommentOnly (h : isCommentOnly line) : ∃ t, line.trim = '-' :: '-' :: t := by
  obtain ⟨t, ht⟩ := isPrefixOf_iff_prefix.mp h
  exact ⟨t, ht.symm⟩

theorem setReturnType?_of_trim {ahead : List Text} (h : line.trim = c :: t)
    (hc : sameLetter 'R' c = false) : setReturnType? p d line ahead = none := by
  obtain ⟨u, hu⟩ := Text.head_of_trim h
  exact setReturnType?_of_head hu hc

/-- The definition with the argument of a line added. -/
def withArgument (p : Profile) (d : Definition) (line : Text) : Definition :=
  (addArgument p d line).value

section

variable {comment : CommentPhase} (hcomment : ∀ dated, comment ≠ .inside dated)
include hcomment

/-- **A line of a list is read alike with and without parentheses**, unless it is only a comment. -/
theorem step_listed {bare : Bool} (hline : IsListed line)
    (hremark : bare → isCommentOnly line = false) (d : Definition) (ahead : List Text) :
    step p today ⟨comment, .inside bare, false⟩ d line ahead =
      ⟨⟨comment, .inside bare, false⟩, withArgument p d line, true, 0, (addArgument p d line).notes⟩ := by
  -- The line does not end a bare list, has no closing parenthesis and no type.
  have hread : (bare && !line.trim.isEmpty && !line.trim.startsWith ['@']) = false ∧
      (∀ t, line.trim ≠ ')' :: t) ∧ setReturnType? p d line ahead = none := by
    rcases hline with ⟨t, ht⟩ | hblank | honly
    · refine ⟨by rw [ht]; simp [Text.startsWith], fun u hu => ?_, setReturnType?_of_trim ht rfl⟩
      rw [ht] at hu
      cases hu
    · rw [Text.trim_of_isBlank hblank]
      exact ⟨by simp, by simp, setReturnType?_of_isBlank hblank⟩
    · obtain ⟨t, ht⟩ := trim_of_isCommentOnly honly
      have hbare : bare = false := by
        by_contra hbare
        rw [hremark (Bool.eq_true_of_not_eq_false hbare)] at honly
        cases honly
      refine ⟨by rw [hbare]; rfl, fun u hu => ?_, setReturnType?_of_trim ht rfl⟩
      rw [ht] at hu
      cases hu
  obtain ⟨hstays, hclose, htype⟩ := hread
  rw [step_outside (.inside bare) hcomment (.inl (by simp))]
  dsimp only [outsideComment, argumentLine]
  rw [hstays, if_neg Bool.false_ne_true, htype]
  split
  · rename_i t ht
    exact absurd ht (hclose t)
  · rfl

/-- **The lines of a list are read** up to its end. -/
theorem parse_listed (bare : Bool) (rest : List Text) : ∀ {list : List Text} (d : Definition),
    (∀ line ∈ list, IsListed line) → (bare → ∀ line ∈ list, isCommentOnly line = false) →
    parse p today ⟨comment, .inside bare, false⟩ d 0 (list ++ rest) =
      parse p today ⟨comment, .inside bare, false⟩ (list.foldl (withArgument p) d) 0 rest
  | [], d, _, _ => rfl
  | line :: list, d, hlist, hremark => by
    have hstep : step p today ⟨comment, .inside bare, false⟩ d line (list ++ rest) = _ :=
      step_listed hcomment (hlist line mem_cons_self)
        (fun hbare => hremark hbare line mem_cons_self) d (list ++ rest)
    rw [cons_append, parse_of_consumed hstep, foldl_cons]
    exact parse_listed bare rest (withArgument p d line)
      (fun l hl => hlist l (mem_cons_of_mem _ hl))
      fun hbare l hl => hremark hbare l (mem_cons_of_mem _ hl)

/-- A line behind the list belongs to the header or starts the body, however the list was written. -/
theorem step_finished (d : Definition) (line : Text) (ahead : List Text) :
    (∃ d' taken notes, ∀ bare, step p today ⟨comment, .finished bare, false⟩ d line ahead =
        ⟨⟨comment, .finished bare, false⟩, d', true, taken, notes⟩) ∨
      ∀ bare, step p today ⟨comment, .finished bare, false⟩ d line ahead =
        ⟨⟨comment, .finished bare, true⟩, d, false, 0, []⟩ := by
  have hstep (bare : Bool) : step p today ⟨comment, .finished bare, false⟩ d line ahead =
      afterArguments p ⟨comment, .finished bare, false⟩ d line ahead :=
    step_outside (.finished bare) hcomment (.inl nofun)
  unfold afterArguments at hstep
  cases htype : setReturnType? p d line ahead with
  | some found =>
    obtain ⟨d', taken, notes⟩ := found
    exact .inl ⟨d', taken, notes, fun bare => by rw [hstep, htype]⟩
  | none =>
    by_cases hblank : line.isBlank
    · exact .inl ⟨d, 0, [], fun bare => by simp only [hstep, htype, if_pos hblank]⟩
    · exact .inr fun bare => by simp only [hstep, htype, if_neg hblank]

/-- **Behind the list** it does not matter how the list was written. -/
theorem parse_finished (bare bare' : Bool) : ∀ (lines : List Text) (d : Definition) (skip : ℕ),
    parse p today ⟨comment, .finished bare, false⟩ d skip lines =
      parse p today ⟨comment, .finished bare', false⟩ d skip lines
  | [], d, skip => by cases skip <;> rfl
  | line :: lines, d, skip + 1 => parse_finished bare bare' lines d skip
  | line :: lines, d, 0 => by
    rcases step_finished hcomment d line lines with ⟨d', taken, notes, hstep⟩ | hstep
    · rw [parse, parse, hstep bare, hstep bare']
      exact parse_finished bare bare' lines d' taken
    · rw [parse, parse, hstep bare, hstep bare']
      dsimp only
      rw [parse_inBody rfl, parse_inBody rfl]

/-- A bare list ends at the first line of the body. -/
theorem step_ends_bare (h : line.trim = c :: t) (hc : c ≠ '@') (d : Definition) (ahead : List Text) :
    step p today ⟨comment, .inside true, false⟩ d line ahead =
      step p today ⟨comment, .finished true, false⟩ d line ahead := by
  have hends : (true && !line.trim.isEmpty && !line.trim.startsWith ['@']) := by
    have hne : '@' ≠ c := hc.symm
    rw [h]
    simp [Text.startsWith, List.isPrefixOf, hne]
  rw [step_outside (.inside true) hcomment (.inl (by simp)),
    step_outside (.finished true) hcomment (.inl (by simp))]
  dsimp only [outsideComment, argumentLine]
  rw [hends, if_pos rfl]

/-- **A bare list is closed** by the end of the lines or by a line of the body. -/
theorem parse_ends_bare (hbody : ∀ line ∈ body.head?, StartsBody line)
    (d : Definition) : parse p today ⟨comment, .inside true, false⟩ d 0 body =
      parse p today ⟨comment, .finished false, false⟩ d 0 body := by
  rw [parse_finished hcomment false true]
  cases body with
  | nil => rfl
  | cons line lines =>
    obtain ⟨c, t, hline, hc, -⟩ := hbody line rfl
    rw [parse, parse, step_ends_bare hcomment hline hc]

/-- **A comment ends a bare list**: it is the first line of the body. -/
theorem parse_remark (h : isCommentOnly line) (d : Definition) (lines : List Text) :
    parse p today ⟨comment, .inside true, false⟩ d 0 (line :: lines) = ⟨d, line :: lines⟩ := by
  obtain ⟨t, ht⟩ := trim_of_isCommentOnly h
  have hblank : line.isBlank = false := by
    obtain ⟨u, hu⟩ := Text.head_of_trim ht
    rw [← Text.isBlank_trimStart, hu]
    rfl
  have hstep : step p today ⟨comment, .inside true, false⟩ d line lines =
      ⟨⟨comment, .finished true, true⟩, d, false, 0, []⟩ := by
    rw [step_ends_bare hcomment ht (by decide), step_outside (.finished true) hcomment (.inl nofun)]
    dsimp only [outsideComment, afterArguments]
    rw [setReturnType?_of_trim ht rfl]
    exact if_neg (Bool.eq_false_iff.mp hblank)
  rw [parse, hstep]
  dsimp only
  rw [parse_inBody rfl, if_neg Bool.false_ne_true]

/-! ### The two lists -/

/-- The list between two lines with parentheses. -/
theorem parse_parenthesized {opening closing : Text} (hopening : opening.trim = ['('])
    (hclosing : closing.trim = [')']) (hlist : ∀ line ∈ list, IsListed line)
    (d : Definition) (body : List Text) :
    parse p today ⟨comment, .awaited, false⟩ d 0 (opening :: (list ++ closing :: body)) =
      parse p today ⟨comment, .finished false, false⟩ (list.foldl (withArgument p) d) 0 body := by
  obtain ⟨u, hu⟩ := Text.head_of_trim hopening
  have hopen : step p today ⟨comment, .awaited, false⟩ d opening (list ++ closing :: body) =
      ⟨⟨comment, .inside false, false⟩, d, true, 0, []⟩ := by
    rw [step_outside .awaited hcomment (.inr (startsWith_of_head hu (by decide)))]
    dsimp only [outsideComment, beforeArguments]
    rw [hopening]
    rfl
  have hclose : step p today ⟨comment, .inside false, false⟩ (list.foldl (withArgument p) d) closing body =
      ⟨⟨comment, .finished false, false⟩, list.foldl (withArgument p) d, true, 0, []⟩ := by
    rw [step_outside (.inside false) hcomment (.inl nofun)]
    dsimp only [outsideComment, argumentLine]
    rw [hclosing]
    rfl
  rw [parse_of_consumed hopen, parse_listed hcomment false _ _ hlist nofun, parse_of_consumed hclose]

/-- The first line of a bare list. -/
theorem parse_opens_bare (hfirst : IsArgumentLine first) (d : Definition)
    (lines : List Text) : parse p today ⟨comment, .awaited, false⟩ d 0 (first :: lines) =
      parse p today ⟨comment, .inside true, false⟩ (withArgument p d first) 0 lines := by
  obtain ⟨t, ht⟩ := hfirst
  obtain ⟨u, hu⟩ := Text.head_of_trim ht
  have hopen : step p today ⟨comment, .awaited, false⟩ d first lines =
      ⟨⟨comment, .inside true, false⟩, withArgument p d first, true, 0,
        (addArgument p d first).notes⟩ := by
    rw [step_outside .awaited hcomment (.inr (startsWith_of_head hu (by decide)))]
    dsimp only [outsideComment, beforeArguments]
    rw [ht]
    rfl
  exact parse_of_consumed hopen

/-- **A bare list without a comment line** is read like one in parentheses. -/
theorem parse_bare (hfirst : IsArgumentLine first)
    (hlist : ∀ line ∈ list, IsListed line) (hremark : ∀ line ∈ list, isCommentOnly line = false)
    (hbody : ∀ line ∈ body.head?, StartsBody line) (d : Definition) :
    parse p today ⟨comment, .awaited, false⟩ d 0 (first :: (list ++ body)) =
      parse p today ⟨comment, .finished false, false⟩ ((first :: list).foldl (withArgument p) d) 0
        body := by
  rw [parse_opens_bare hcomment hfirst, parse_listed hcomment true _ _ hlist fun _ => hremark,
    parse_ends_bare hcomment hbody, foldl_cons]

/-- **A bare list ends at its first comment line.** -/
theorem parse_bare_remark (hfirst : IsArgumentLine first)
    (hlist : ∀ line ∈ list, IsListed line) (hremark : ∀ line ∈ list, isCommentOnly line = false)
    (honly : isCommentOnly line) (d : Definition) (rest : List Text) :
    parse p today ⟨comment, .awaited, false⟩ d 0 (first :: (list ++ line :: rest)) =
      ⟨(first :: list).foldl (withArgument p) d, line :: rest⟩ := by
  rw [parse_opens_bare hcomment hfirst, parse_listed hcomment true _ _ hlist fun _ => hremark,
    parse_remark hcomment honly, foldl_cons]

end

/-- **A list in parentheses and a bare list mean the same** just when no line of the list is only a comment;
a bare list ends at the first line that is. -/
theorem bare_list_iff (p : Profile) (today : Date) {s : State} (hbody : s.inBody = false)
    (hawaited : s.arguments = .awaited) (hcomment : ∀ dated, s.comment ≠ .inside dated)
    {opening closing first : Text} {list body : List Text} (hopening : opening.trim = ['('])
    (hclosing : closing.trim = [')']) (hfirst : IsArgumentLine first)
    (hlist : ∀ line ∈ list, IsListed line) (hstart : ∀ line ∈ body.head?, StartsBody line)
    (d : Definition) :
    let inParentheses := parse p today s d 0 (opening :: first :: (list ++ closing :: body))
    let bare := parse p today s d 0 (first :: (list ++ body))
    (inParentheses.Agree bare ↔ ∀ line ∈ list, Code.isCommentOnly line = false) ∧
      ∀ before line rest, list = before ++ line :: rest →
        (∀ line ∈ before, Code.isCommentOnly line = false) → Code.isCommentOnly line = true →
        bare = ⟨(first :: before).foldl (withArgument p) d, line :: (rest ++ body)⟩ := by
  obtain ⟨comment, arguments, inBody⟩ := s
  dsimp only at hbody hawaited hcomment
  subst hbody hawaited
  intro inParentheses bare
  have hends (before : List Text) (line : Text) (rest : List Text)
      (hsplit : list = before ++ line :: rest)
      (hbefore : ∀ line ∈ before, Code.isCommentOnly line = false)
      (honly : Code.isCommentOnly line = true) :
      bare = ⟨(first :: before).foldl (withArgument p) d, line :: (rest ++ body)⟩ := by
    have hlisted : ∀ line ∈ before, IsListed line := fun l hl => hlist l (by simp [hsplit, hl])
    have hread : parse p today ⟨comment, .awaited, false⟩ d 0
        (first :: (before ++ line :: (rest ++ body))) = _ :=
      parse_bare_remark hcomment hfirst hlisted hbefore honly d (rest ++ body)
    rw [← hread]
    simp [bare, hsplit]
  have hparentheses : inParentheses = parse p today ⟨comment, .finished false, false⟩
      ((first :: list).foldl (withArgument p) d) 0 body := by
    have hlisted : ∀ line ∈ first :: list, IsListed line := by simpa using ⟨.inl hfirst, hlist⟩
    exact parse_parenthesized hcomment hopening hclosing hlisted d body
  refine ⟨⟨fun hagree => ?_, fun hremark => ?_⟩, hends⟩
  · cases hfind : list.find? Code.isCommentOnly with
    | none => exact fun line hline => by simpa using List.find?_eq_none.mp hfind line hline
    | some line =>
      -- A comment line would make the body longer than it is.
      obtain ⟨honly, before, rest, hsplit, hbefore⟩ := List.find?_eq_some_iff_append.mp hfind
      have hlength : inParentheses.body.length ≤ body.length := by
        rw [hparentheses]
        exact length_body_le ..
      rw [hagree.body, hends before line rest hsplit (by simpa using hbefore) honly] at hlength
      simp only [List.length_cons, List.length_append] at hlength
      omega
  · have hbare : bare = inParentheses :=
      (parse_bare hcomment hfirst hlist hremark hstart d).trans hparentheses.symm
    rw [hbare]
    exact ⟨rfl, rfl, rfl⟩

/-- A blank line is passed over in both lists. -/
theorem bare_list_blank :
    let d : Definition := { name := "public.Test".toList, sourceName := "Test".toList }
    let list := ["".toList, "  @b varchar(5) output".toList]
    let body := ["BEGIN".toList, "-- start".toList]
    let read := parse Profile.standard ⟨2025, 3, 9⟩ {} d 0
    let inParentheses := read ("(".toList :: "  @a int,".toList :: (list ++ ")".toList :: body))
    let bare := read ("  @a int,".toList :: (list ++ body))
    inParentheses.Agree bare := by
  intro d list body read inParentheses bare
  have hlist : ∀ line ∈ list, IsListed line := by
    simp only [list, List.mem_cons, List.not_mem_nil, or_false, forall_eq_or_imp, forall_eq]
    exact ⟨.inr (.inl rfl), .inl ⟨_, rfl⟩⟩
  have hstart : ∀ line ∈ body.head?, StartsBody line := by
    intro line hline
    cases hline
    exact ⟨'B', _, rfl, by decide⟩
  have hfirst : IsArgumentLine "  @a int,".toList := ⟨"a int,".toList, rfl⟩
  have hopening : Text.trim "(".toList = ['('] := rfl
  have hclosing : Text.trim ")".toList = [')'] := rfl
  have hremark : ∀ line ∈ list, Code.isCommentOnly line = false := by decide
  exact (bare_list_iff Profile.standard ⟨2025, 3, 9⟩ (s := {}) rfl rfl (fun _ => nofun) hopening hclosing
    hfirst hlist hstart d).1.mpr hremark

/-- **A comment line ends a bare list**: the argument behind it is lost to the body. -/
theorem bare_list_remark :
    let list := ["-- note".toList, "@b int".toList]
    let body := ["BEGIN".toList]
    let read := parse Profile.standard ⟨2025, 3, 9⟩ {} {} 0
    let inParentheses := read ("(".toList :: "@a int,".toList :: (list ++ ")".toList :: body))
    let bare := read ("@a int,".toList :: (list ++ body))
    (∀ line ∈ list, IsListed line) ∧ (∀ line ∈ body.head?, StartsBody line) ∧
      inParentheses.definition.arguments = ["_a int,".toList, "_b int".toList] ∧
      bare.definition.arguments = ["_a int,".toList] ∧
      bare.body = ["-- note".toList, "@b int".toList, "BEGIN".toList] ∧
      ¬inParentheses.Agree bare := by
  intro list body read inParentheses bare
  have hparentheses : inParentheses.definition.arguments = ["_a int,".toList, "_b int".toList] := by
    decide
  have hbare : bare.definition.arguments = ["_a int,".toList] := by decide
  refine ⟨?_, ?_, hparentheses, hbare, by decide, fun hagree => ?_⟩
  · simp only [list, List.mem_cons, List.not_mem_nil, or_false, forall_eq_or_imp, forall_eq]
    exact ⟨.inr (.inr rfl), .inl ⟨_, rfl⟩⟩
  · intro line hline
    cases hline
    exact ⟨'B', _, rfl, by decide⟩
  · have hsame := hagree.arguments
    rw [hparentheses, hbare] at hsame
    cases hsame

end SqlRoutine.Header

import Mathlib.Data.List.DropRight
import Mathlib.Tactic.SplitIfs
import SqlRoutine.Routine.Header

/-! # The flags of a header, and the lines about the conversion

A header is read call by call, each call with its line and the lines ahead of it. How far it has been read
can be told by seven **flags**, of which none is set at first, and `Reading.run` reads a header by them. Of
the combinations of flags few are ever reached: they fit together (`Flags.Consistent`), and but for one of
them a flag that is set stays set (`Flags.Grows`). This is so because the flags tell the same as the phases
that `step` goes by, line by line (`next_flags`) and so in every run (`reading_run`).

The comment block holds an `Entry` for each line that was stored, and the line about the conversion
**right before the line that ends a date entry, and nowhere else** (`annotated`): before a line of two
stars or the closing line, if a date has been stored since the last line of two stars. -/

namespace SqlRoutine.Header

open List Option

variable {dated : Bool} {today : Date} {e : Entry} {block : List Text} {r : Progress} {s : State}

/-! ### Flags -/

/-- How far a header has been read. -/
structure Flags where
  commentStarted : Bool := false
  commentEnded : Bool := false
  argumentsStarted : Bool := false
  argumentsEnded : Bool := false
  /-- The argument list has no parentheses. -/
  bareArguments : Bool := false
  /-- A date has been stored, and the line about the conversion is to follow. -/
  dated : Bool := false
  inBody : Bool := false

namespace ArgumentPhase

/-- The argument list has ended. -/
def isFinished : ArgumentPhase → Bool
  | .finished _ => true
  | _ => false

/-- The argument list is known to have no parentheses. -/
def isBare : ArgumentPhase → Bool
  | .awaited => false
  | .inside bare => bare
  | .finished bare => bare

end ArgumentPhase

/-- **The flags of a state.** -/
def State.flags (s : State) : Flags where
  commentStarted := s.comment ≠ .awaited
  commentEnded := s.comment = .finished
  argumentsStarted := s.arguments ≠ .awaited
  argumentsEnded := s.arguments.isFinished
  bareArguments := s.arguments.isBare
  dated := s.comment = .inside true
  inBody := s.inBody

namespace Flags

/-- The comment block has been started and has not ended. -/
def commentOpen (f : Flags) : Bool := f.commentStarted && !f.commentEnded

/-- The argument list has been started and has not ended. -/
def argumentsOpen (f : Flags) : Bool := f.argumentsStarted && !f.argumentsEnded

/-- **The flags fit together.** -/
structure Consistent (f : Flags) : Prop where
  comment : f.commentEnded → f.commentStarted
  arguments : f.argumentsEnded → f.argumentsStarted
  dated : f.dated → f.commentOpen
  inBody : f.inBody → f.commentOpen = false ∧ f.argumentsOpen = false

/-- **No flag is taken back** from `f` to `g`, except that a date may have got its line. -/
structure Grows (f g : Flags) : Prop where
  commentStarted : f.commentStarted → g.commentStarted
  commentEnded : f.commentEnded → g.commentEnded
  argumentsStarted : f.argumentsStarted → g.argumentsStarted
  argumentsEnded : f.argumentsEnded → g.argumentsEnded
  bareArguments : f.bareArguments → g.bareArguments
  inBody : f.inBody → g.inBody

theorem Grows.refl (f : Flags) : Grows f f := ⟨id, id, id, id, id, id⟩

theorem Grows.trans {f g h : Flags} (hfg : Grows f g) (hgh : Grows g h) : Grows f h where
  commentStarted := hgh.commentStarted ∘ hfg.commentStarted
  commentEnded := hgh.commentEnded ∘ hfg.commentEnded
  argumentsStarted := hgh.argumentsStarted ∘ hfg.argumentsStarted
  argumentsEnded := hgh.argumentsEnded ∘ hfg.argumentsEnded
  bareArguments := hgh.bareArguments ∘ hfg.bareArguments
  inBody := hgh.inBody ∘ hfg.inBody

end Flags

/-! ### Reading by flags -/

namespace Flags

/-- A line of the comment block other than the closing one. -/
def storeComment (today : Date) (f : Flags) (d : Definition) (line : Text) (ahead : List Text) :
    Flags × Definition :=
  if isBoilerplate line || isParametersHeading line && starsAhead ahead then (f, d)
  else if isStars line then
    ({ f with dated := false }, addComment (closeDate today f.dated d) Definition.emptyLine)
  else match label? line with
    | none => (f, addComment d (plainComment line))
    | some (label, value) =>
      let text := "**  ".toList ++ Text.padRight labelWidth (label ++ [':']) ++ value.trim
      ({ f with dated := f.dated || label.lower == "date".toList }, addComment d (Text.expandTabs text))

/-- A line after the argument list. -/
def afterArguments (p : Profile) (f : Flags) (d : Definition) (line : Text) (ahead : List Text) :
    Flags × Definition :=
  match setReturnType? p d line ahead with
  | some (d, _) => (f, d)
  | none => (if line.isBlank then f else { f with inBody := true }, d)

/-- The flags when the argument list has ended. -/
def endArguments (f : Flags) : Flags := { f with argumentsEnded := true }

/-- A line of the argument list other than the first. -/
def argumentLine (p : Profile) (f : Flags) (d : Definition) (line : Text) (ahead : List Text) :
    Flags × Definition :=
  if f.bareArguments && !line.trim.isEmpty && !line.trim.startsWith ['@'] then
    f.endArguments.afterArguments p d line ahead
  else match line.trim with
    | ')' :: rest =>
      if (Text.trim rest).isEmpty then (f.endArguments, d)
      else (f.endArguments, ((setReturnType? p d (Text.trim rest) ahead).map (·.1)).getD d)
    | _ =>
      match setReturnType? p d line ahead with
      | some (d, _) => (f.endArguments, d)
      | none => (f, (addArgument p d line).value)

/-- A line before the argument list or the first of it. -/
def beforeArguments (p : Profile) (f : Flags) (d : Definition) (line : Text) (ahead : List Text) :
    Flags × Definition :=
  match line.trim with
  | '(' :: ')' :: _ => ({ f with argumentsStarted := true, argumentsEnded := true }, d)
  | '(' :: rest => ({ f with argumentsStarted := true }, (addArgument p d rest).value)
  | '@' :: _ =>
    ({ f with argumentsStarted := true, bareArguments := true }, (addArgument p d line).value)
  | _ => f.afterArguments p d line ahead

/-- A line that does not belong to the comment block. -/
def outsideComment (p : Profile) (f : Flags) (d : Definition) (line : Text) (ahead : List Text) :
    Flags × Definition :=
  if !f.argumentsStarted then f.beforeArguments p d line ahead
  else if !f.argumentsEnded then f.argumentLine p d line ahead
  else f.afterArguments p d line ahead

/-- **One line of the header, by the flags.** -/
def next (p : Profile) (today : Date) (f : Flags) (d : Definition) (line : Text) (ahead : List Text) :
    Flags × Definition :=
  if f.inBody then (f, d)
  else if !f.commentStarted && !f.argumentsStarted && line.startsWith "/*****".toList then
    ({ f with commentStarted := true }, addComment d line.expandTabs)
  else if f.commentOpen then
    if line.trimEnd.endsWith "*****/".toList then
      ({ f with commentEnded := true, dated := false },
        addComment (closeDate today f.dated d) line.expandTabs)
    else f.storeComment today d line ahead
  else f.outsideComment p d line ahead

end Flags

/-- The flags after a line, and the definition. -/
def Outcome.flagged (o : Outcome) : Flags × Definition := (o.state.flags, o.definition)

section

variable (p : Profile) (today : Date) (d : Definition) (line : Text) (ahead : List Text)

theorem flags_inside (hs : s.comment = .inside dated) (dated' : Bool) :
    ({ s with comment := .inside dated' } : State).flags = { s.flags with dated := dated' } := by
  simp [State.flags, hs]

theorem dated_of_inside (hs : s.comment = .inside dated) : s.flags.dated = dated := by
  simp [State.flags, hs]

theorem storeComment_flags (hs : s.comment = .inside dated) :
    s.flags.storeComment today d line ahead = (commentLine today s dated d line ahead).flagged := by
  have hdated := dated_of_inside hs
  have hsame : ({ s with comment := .inside dated } : State) = s := by rw [← hs]
  unfold Flags.storeComment commentLine Outcome.flagged
  cases isBoilerplate line
  · rw [Bool.false_or, if_neg Bool.false_ne_true]
    dsimp only
    generalize (if isParametersHeading line then Note.lookAhead 1 ahead else []) = notes
    split_ifs
    · rw [hsame]
    · rw [flags_inside hs, hdated]
    · cases label? line
      · dsimp only
        rw [hsame]
      · dsimp only
        rw [flags_inside hs, hdated]
  · rfl

theorem afterArguments_flags (s : State) :
    s.flags.afterArguments p d line ahead = (afterArguments p s d line ahead).flagged := by
  unfold Flags.afterArguments afterArguments Outcome.flagged
  cases setReturnType? p d line ahead with
  | some found => rfl
  | none =>
    dsimp only
    split_ifs
    · rfl
    · rfl

theorem flags_finished {bare : Bool} (hs : s.arguments = .inside bare) :
    ({ s with arguments := .finished bare } : State).flags = s.flags.endArguments := by
  simp [Flags.endArguments, State.flags, hs, ArgumentPhase.isFinished, ArgumentPhase.isBare]

theorem argumentLine_flags {bare : Bool} (hs : s.arguments = .inside bare) :
    s.flags.argumentLine p d line ahead = (argumentLine p s bare d line ahead).flagged := by
  have hbare : s.flags.bareArguments = bare := by rw [State.flags, hs]; rfl
  unfold Flags.argumentLine argumentLine
  rw [hbare, ← flags_finished hs]
  dsimp only
  split_ifs
  · exact afterArguments_flags p d line ahead _
  · generalize line.trim = trimmed
    split
    · next rest =>
      change _ = Outcome.flagged (if (Text.trim rest).isEmpty then _ else _)
      split_ifs
      · rfl
      · cases setReturnType? p d (Text.trim rest) ahead <;> rfl
    · next hother =>
      cases setReturnType? p d line ahead
      all_goals
        dsimp only
        -- the phases are told apart by the same patterns
        repeat' split
        all_goals first
          | exact (hother _ rfl).elim
          | rfl

theorem beforeArguments_flags (hs : s.arguments = .awaited) :
    s.flags.beforeArguments p d line ahead = (beforeArguments p s d line ahead).flagged := by
  unfold Flags.beforeArguments beforeArguments
  generalize line.trim = trimmed
  split
  · simp [Outcome.flagged, State.flags, hs, ArgumentPhase.isFinished, ArgumentPhase.isBare]
  · simp [Outcome.flagged, State.flags, hs, ArgumentPhase.isFinished, ArgumentPhase.isBare]
  · simp [Outcome.flagged, State.flags, hs, ArgumentPhase.isFinished, ArgumentPhase.isBare]
  · next hempty hopen hat =>
    repeat' split
    all_goals first
      | exact (hempty _ rfl).elim
      | exact (hopen _ rfl).elim
      | exact (hat _ rfl).elim
      | exact afterArguments_flags p d line ahead s

/-- **A line does the same to the flags as to the phases.** -/
theorem next_flags (s : State) :
    s.flags.next p today d line ahead = (step p today s d line ahead).flagged := by
  have houtside : s.flags.outsideComment p d line ahead = (outsideComment p s d line ahead).flagged := by
    unfold Flags.outsideComment outsideComment
    cases hs : s.arguments with
    | awaited =>
      have hstarted : s.flags.argumentsStarted = false := by simp [State.flags, hs]
      rw [hstarted, Bool.not_false, if_pos rfl]
      exact beforeArguments_flags p d line ahead hs
    | inside bare =>
      have hstarted : s.flags.argumentsStarted = true := by simp [State.flags, hs]
      have hended : s.flags.argumentsEnded = false := by rw [State.flags, hs]; rfl
      rw [hstarted, hended, Bool.not_true, Bool.not_false, if_neg Bool.false_ne_true, if_pos rfl]
      exact argumentLine_flags p d line ahead hs
    | finished bare =>
      have hstarted : s.flags.argumentsStarted = true := by simp [State.flags, hs]
      have hended : s.flags.argumentsEnded = true := by rw [State.flags, hs]; rfl
      rw [hstarted, hended, Bool.not_true, if_neg Bool.false_ne_true]
      exact afterArguments_flags p d line ahead s
  unfold Flags.next step
  cases hbody : s.inBody with
  | true =>
    rw [show s.flags.inBody = true from hbody]
    rfl
  | false =>
    rw [show s.flags.inBody = false from hbody, if_neg Bool.false_ne_true, if_neg Bool.false_ne_true]
    cases hs : s.comment with
    | awaited =>
      have hflags : s.flags.commentStarted = false ∧ s.flags.commentOpen = false := by
        simp [State.flags, Flags.commentOpen, hs]
      have harguments : (!s.flags.argumentsStarted) = decide (s.arguments = .awaited) := by
        simp [State.flags]
      rw [hflags.1, hflags.2, harguments, Bool.not_false, Bool.true_and, if_neg Bool.false_ne_true]
      dsimp only
      split_ifs
      · simp [Outcome.flagged, State.flags, hs]
      · exact houtside
    | inside dated =>
      have hflags : s.flags.commentStarted = true ∧ s.flags.commentOpen = true := by
        simp [State.flags, Flags.commentOpen, hs]
      rw [hflags.1, hflags.2, Bool.not_true, Bool.false_and, Bool.false_and, if_neg Bool.false_ne_true,
        if_pos rfl, dated_of_inside hs]
      dsimp only
      split_ifs
      · simp [Outcome.flagged, State.flags, hs]
      · exact storeComment_flags today d line ahead hs
    | finished =>
      have hflags : s.flags.commentStarted = true ∧ s.flags.commentOpen = false := by
        simp [State.flags, Flags.commentOpen, hs]
      rw [hflags.1, hflags.2, Bool.not_true, Bool.false_and, Bool.false_and, if_neg Bool.false_ne_true,
        if_neg Bool.false_ne_true]
      exact houtside

end

/-! ### How the phases follow each other -/

/-- The phases of the comment block that may come next. -/
inductive CommentPhase.Leads : CommentPhase → CommentPhase → Prop
  | stays (c : CommentPhase) : Leads c c
  | opens : Leads .awaited (.inside false)
  | reads (dated dated' : Bool) : Leads (.inside dated) (.inside dated')
  | closes (dated : Bool) : Leads (.inside dated) .finished

/-- The phases of the argument list that may come next. -/
inductive ArgumentPhase.Leads : ArgumentPhase → ArgumentPhase → Prop
  | stays (a : ArgumentPhase) : Leads a a
  | opens (a : ArgumentPhase) : Leads .awaited a
  | closes (bare : Bool) : Leads (.inside bare) (.finished bare)

theorem CommentPhase.Leads.grows {c c' : CommentPhase} (h : c.Leads c') :
    (c ≠ .awaited → c' ≠ .awaited) ∧ (c = .finished → c' = .finished) := by
  cases h <;> simp

theorem ArgumentPhase.Leads.grows {a a' : ArgumentPhase} (h : a.Leads a') :
    (a ≠ .awaited → a' ≠ .awaited) ∧ (a.isFinished → a'.isFinished) ∧
      (a.isBare → a'.isBare) := by
  cases h <;> simp [isFinished, isBare]

/-- **What a line may do to the phases.** -/
structure Moves (s s' : State) : Prop where
  comment : s.comment.Leads s'.comment
  arguments : s.arguments.Leads s'.arguments
  inBody : s.inBody → s'.inBody

theorem Moves.grows {s' : State} (h : Moves s s') : s.flags.Grows s'.flags where
  commentStarted := by simpa [State.flags] using h.comment.grows.1
  commentEnded := by simpa [State.flags] using h.comment.grows.2
  argumentsStarted := by simpa [State.flags] using h.arguments.grows.1
  argumentsEnded := h.arguments.grows.2.1
  bareArguments := h.arguments.grows.2.2
  inBody := h.inBody

/-- When the header is over, none of its parts is open. -/
def Settled (s : State) : Prop :=
  s.inBody → (∀ dated, s.comment ≠ .inside dated) ∧ ∀ bare, s.arguments ≠ .inside bare

theorem Settled.consistent (h : Settled s) : s.flags.Consistent where
  comment := by
    unfold State.flags
    cases s.comment <;> simp
  arguments := by
    unfold State.flags
    cases s.arguments <;> simp [ArgumentPhase.isFinished]
  dated := by
    unfold Flags.commentOpen State.flags
    cases s.comment <;> simp
  inBody := by
    intro hbody
    obtain ⟨hcomment, harguments⟩ := h hbody
    constructor
    · cases hc : s.comment with
      | inside dated => exact absurd hc (hcomment dated)
      | _ => simp [State.flags, Flags.commentOpen, hc]
    · cases ha : s.arguments with
      | inside bare => exact absurd ha (harguments bare)
      | _ => simp [State.flags, Flags.argumentsOpen, ha, ArgumentPhase.isFinished]

/-! ### Lines outside the comment block -/

/-- **What a line outside the comment block does**: the argument list may go on to a later phase, and
the header may be over if the list is not open. -/
structure Outcome.Advances (s : State) (d : Definition) (o : Outcome) : Prop where
  comment : o.state.comment = s.comment
  arguments : s.arguments.Leads o.state.arguments
  inBody : o.state.inBody → ∀ bare, o.state.arguments ≠ .inside bare
  commentBlock : o.definition.commentBlock = d.commentBlock

section

variable (p : Profile) {s : State} {d : Definition} {line : Text} {ahead : List Text}

theorem commentBlock_addArgument : (addArgument p d line).value.commentBlock = d.commentBlock := by
  unfold addArgument
  dsimp only
  split_ifs <;> rfl

theorem commentBlock_setReturnType? {d' : Definition} {taken : Nat} {notes : List Note}
    (h : setReturnType? p d line ahead = some (d', taken, notes)) :
    d'.commentBlock = d.commentBlock := by
  unfold setReturnType? at h
  split_ifs at h
  obtain ⟨clause, -, hresult⟩ := map_eq_some_iff.mp h
  cases hresult
  rfl

theorem afterArguments_phases (p : Profile) (s : State) (d : Definition) (line : Text)
    (ahead : List Text) : (afterArguments p s d line ahead).state.comment = s.comment ∧
      (afterArguments p s d line ahead).state.arguments = s.arguments ∧
      (afterArguments p s d line ahead).definition.commentBlock = d.commentBlock := by
  unfold afterArguments
  split
  · next hset => exact ⟨rfl, rfl, commentBlock_setReturnType? p hset⟩
  · split_ifs
    · exact ⟨rfl, rfl, rfl⟩
    · exact ⟨rfl, rfl, rfl⟩

theorem afterArguments_advances (hs : ∀ bare, s.arguments ≠ .inside bare) :
    (afterArguments p s d line ahead).Advances s d := by
  obtain ⟨hcomment, harguments, hblock⟩ := afterArguments_phases p s d line ahead
  refine ⟨hcomment, ?_, fun _ => ?_, hblock⟩
  · rw [harguments]
    exact .stays _
  · rw [harguments]
    exact hs

/-- A list that is open is closed before the header is over. -/
theorem argumentLine_advances {bare : Bool} (hbody : s.inBody = false)
    (hs : s.arguments = .inside bare) : (argumentLine p s bare d line ahead).Advances s d := by
  have hcloses : s.arguments.Leads (.finished bare) := by
    rw [hs]
    exact .closes bare
  have hopen : s.inBody → ∀ bare, s.arguments ≠ .inside bare := by
    rw [hbody]
    exact nofun
  unfold argumentLine
  dsimp only
  split_ifs
  · obtain ⟨hcomment, harguments, hblock⟩ :=
      afterArguments_phases p { s with arguments := .finished bare } d line ahead
    refine ⟨hcomment, ?_, fun _ => ?_, hblock⟩
    · rw [harguments]
      exact hcloses
    · rw [harguments]
      exact nofun
  split
  · split_ifs
    · exact ⟨rfl, hcloses, fun _ => nofun, rfl⟩
    · split
      · next hset => exact ⟨rfl, hcloses, fun _ => nofun, commentBlock_setReturnType? p hset⟩
      · exact ⟨rfl, hcloses, fun _ => nofun, rfl⟩
  · split
    · next hset => exact ⟨rfl, hcloses, fun _ => nofun, commentBlock_setReturnType? p hset⟩
    · exact ⟨rfl, .stays _, hopen, commentBlock_addArgument p⟩

theorem beforeArguments_advances (hbody : s.inBody = false) (hs : s.arguments = .awaited) :
    (beforeArguments p s d line ahead).Advances s d := by
  have hopens : ∀ a, s.arguments.Leads a := by
    rw [hs]
    exact .opens
  have hnotBody : ∀ a : ArgumentPhase, s.inBody → ∀ bare, a ≠ .inside bare := by
    rw [hbody]
    exact fun _ => nofun
  unfold beforeArguments
  split
  · exact ⟨rfl, hopens _, hnotBody _, rfl⟩
  · exact ⟨rfl, hopens _, hnotBody _, commentBlock_addArgument p⟩
  · exact ⟨rfl, hopens _, hnotBody _, commentBlock_addArgument p⟩
  · exact afterArguments_advances p (by rw [hs]; exact nofun)

theorem outsideComment_advances (hbody : s.inBody = false) :
    (outsideComment p s d line ahead).Advances s d := by
  unfold outsideComment
  split
  · next hs => exact beforeArguments_advances p hbody hs
  · next bare hs => exact argumentLine_advances p hbody hs
  · next bare hs => exact afterArguments_advances p (by rw [hs]; exact nofun)

end

/-! ### Lines of the comment block -/

/-- **A line that is stored in the comment block.** -/
inductive Entry where
  /-- A line of two stars. -/
  | stars
  /-- A line with a label. -/
  | labelled (label value : Text)
  /-- The line that ends the block. -/
  | closing (line : Text)
  /-- Any other line, the one that starts the block as well. -/
  | other (text : Text)
  deriving DecidableEq

namespace Entry

/-- The entry as it is written. -/
def text : Entry → Text
  | .stars => Definition.emptyLine
  | .labelled label value =>
    Text.expandTabs ("**  ".toList ++ Text.padRight labelWidth (label ++ [':']) ++ value.trim)
  | .closing line => line.expandTabs
  | .other text => text

/-- A date. -/
def isDate : Entry → Bool
  | .labelled label _ => label.lower == "date".toList
  | _ => false

/-- A line that ends the date entry before it. -/
def endsDate : Entry → Bool
  | .stars => true
  | .closing _ => true
  | _ => false

end Entry

/-- What a line inside the comment block stores. -/
def commentEntryOf? (line : Text) (ahead : List Text) : Option Entry :=
  if line.trimEnd.endsWith "*****/".toList then some (.closing line)
  else if isBoilerplate line || isParametersHeading line && starsAhead ahead then none
  else if isStars line then some .stars
  else match label? line with
    | some (label, value) => some (.labelled label value)
    | none => some (.other (plainComment line))

/-- **What a line stores in the comment block**, if it does. -/
def entryOf? (f : Flags) (line : Text) (ahead : List Text) : Option Entry :=
  if f.inBody then none
  else if !f.commentStarted && !f.argumentsStarted && line.startsWith "/*****".toList then
    some (.other line.expandTabs)
  else if f.commentOpen then commentEntryOf? line ahead
  else none

theorem entryOf?_flags (s : State) (line : Text) (ahead : List Text) : entryOf? s.flags line ahead =
    if s.inBody then none
    else match s.comment with
      | .awaited =>
        if s.arguments = .awaited && line.startsWith "/*****".toList then
          some (.other line.expandTabs)
        else none
      | .inside _ => commentEntryOf? line ahead
      | .finished => none := by
  unfold entryOf? Flags.commentOpen State.flags
  cases s.comment <;> simp

/-- An entry, with the line about the conversion before it if it ends a date entry. -/
def withConversion (today : Date) (dated : Bool) (e : Entry) : List Text :=
  (if dated && e.endsDate then
    ["**          ".toList ++ today.format ++ " - Ported to PostgreSQL".toList]
  else []) ++ [e.text]

/-- The phase of the comment block after a line has stored an entry or none. -/
def CommentPhase.after : CommentPhase → Option Entry → CommentPhase
  | c, none => c
  | .awaited, some _ => .inside false
  | .inside _, some (.closing _) => .finished
  | .inside dated, some e => .inside (!e.endsDate && (dated || e.isDate))
  | .finished, some _ => .finished

theorem CommentPhase.leads_after : ∀ (c : CommentPhase) (e : Option Entry), c.Leads (c.after e)
  | c, none => by cases c <;> exact .stays _
  | .awaited, some _ => .opens
  | .inside dated, some (.closing _) => .closes dated
  | .inside dated, some .stars => .reads dated _
  | .inside dated, some (.labelled ..) => .reads dated _
  | .inside dated, some (.other _) => .reads dated _
  | .finished, some _ => .stays _

theorem CommentPhase.after_ne_awaited (c : CommentPhase) (e : Entry) : c.after (some e) ≠ .awaited := by
  cases c <;> cases e <;> exact nofun

/-- **What a line does**: the comment block gets the entry of the line, and the phases go on. -/
structure Outcome.Stores (today : Date) (s : State) (d : Definition) (e : Option Entry) (o : Outcome) :
    Prop where
  comment : o.state.comment = s.comment.after e
  arguments : s.arguments.Leads o.state.arguments
  inBody : s.inBody → o.state.inBody
  settled : Settled s → Settled o.state
  commentBlock : o.definition.commentBlock =
    d.commentBlock ++ e.toList.flatMap (withConversion today s.flags.dated)

section

variable {p : Profile} {today : Date} {s : State} {d : Definition} {line : Text} {ahead : List Text}

theorem commentBlock_of_ends (he : e.endsDate) (dated : Bool) :
    (addComment (closeDate today dated d) e.text).commentBlock =
      d.commentBlock ++ withConversion today dated e := by
  unfold withConversion addComment closeDate
  rw [he, Bool.and_true]
  cases dated
  · rfl
  · rw [if_pos rfl, if_pos rfl, ← append_assoc]
    rfl

theorem commentBlock_of_not_ends (he : e.endsDate = false) (dated : Bool) :
    (addComment d e.text).commentBlock = d.commentBlock ++ withConversion today dated e := by
  unfold withConversion addComment
  rw [he, Bool.and_false]
  rfl

theorem commentLine_stores (hbody : s.inBody = false) (hs : s.comment = .inside dated)
    (hclose : line.trimEnd.endsWith "*****/".toList = false) :
    (commentLine today s dated d line ahead).Stores today s d (commentEntryOf? line ahead) := by
  have hnotBody : ∀ dated', Settled { s with comment := .inside dated' } := by
    intro dated' h
    rw [hbody] at h
    cases h
  have hnone : d.commentBlock = d.commentBlock ++ [] := (append_nil _).symm
  unfold commentLine commentEntryOf?
  rw [hclose, if_neg Bool.false_ne_true]
  dsimp only
  generalize (if isParametersHeading line then Note.lookAhead 1 ahead else []) = notes
  cases isBoilerplate line with
  | true =>
    rw [if_pos rfl, Bool.true_or, if_pos rfl]
    exact ⟨rfl, .stays _, id, id, hnone⟩
  | false =>
    rw [if_neg Bool.false_ne_true, Bool.false_or]
    split_ifs
    · exact ⟨hs.symm, .stays _, id, fun _ => hnotBody _, hnone⟩
    · refine ⟨by rw [hs]; rfl, .stays _, id, fun _ => hnotBody _, ?_⟩
      rw [dated_of_inside hs, toList_some, flatMap_singleton]
      exact commentBlock_of_ends (e := .stars) rfl dated
    · cases label? line with
      | none =>
        refine ⟨by rw [hs]; simp [CommentPhase.after, Entry.endsDate, Entry.isDate], .stays _, id,
          fun _ => hnotBody _, ?_⟩
        rw [toList_some, flatMap_singleton]
        exact commentBlock_of_not_ends (e := .other (plainComment line)) rfl _
      | some labelled =>
        refine ⟨by rw [hs]; rfl, .stays _, id, fun _ => hnotBody _, ?_⟩
        rw [toList_some, flatMap_singleton]
        exact commentBlock_of_not_ends (e := .labelled labelled.1 labelled.2) rfl _

theorem stores_of_advances {o : Outcome} (hbody : s.inBody = false)
    (hs : ∀ dated, s.comment ≠ .inside dated) (ho : o.Advances s d) : o.Stores today s d none where
  comment := by rw [ho.comment]; cases s.comment <;> rfl
  arguments := ho.arguments
  inBody := by rw [hbody]; exact nofun
  settled := fun _ hover => ⟨by rw [ho.comment]; exact hs, ho.inBody hover⟩
  commentBlock := by rw [ho.commentBlock]; exact (append_nil _).symm

/-- **Each line stores its entry and moves the phases on.** -/
theorem step_stores (p : Profile) (today : Date) (s : State) (d : Definition) (line : Text)
    (ahead : List Text) : (step p today s d line ahead).Stores today s d (entryOf? s.flags line ahead) := by
  rw [entryOf?_flags]
  unfold step
  by_cases hover : s.inBody
  · rw [if_pos hover, if_pos hover]
    exact ⟨rfl, .stays _, id, id, (append_nil _).symm⟩
  have hbody : s.inBody = false := Bool.eq_false_iff.mpr hover
  have houtside : (outsideComment p s d line ahead).Advances s d := outsideComment_advances p hbody
  rw [if_neg hover, if_neg hover]
  cases hs : s.comment with
  | awaited =>
    dsimp only
    split_ifs
    · refine ⟨by rw [hs]; rfl, .stays _, id, fun _ h => absurd h hover, ?_⟩
      rw [toList_some, flatMap_singleton]
      exact commentBlock_of_not_ends (e := .other line.expandTabs) rfl _
    · exact stores_of_advances hbody (by rw [hs]; exact nofun) houtside
  | inside dated =>
    dsimp only
    by_cases hclose : line.trimEnd.endsWith "*****/".toList
    · rw [if_pos hclose, commentEntryOf?, if_pos hclose]
      refine ⟨by rw [hs]; rfl, .stays _, id, fun _ h => absurd h hover, ?_⟩
      rw [dated_of_inside hs, toList_some, flatMap_singleton]
      exact commentBlock_of_ends (e := .closing line) rfl dated
    · rw [if_neg hclose]
      exact commentLine_stores hbody hs (Bool.eq_false_iff.mpr hclose)
  | finished => exact stores_of_advances hbody (by rw [hs]; exact nofun) houtside

end

/-! ### The comment block with the lines about the conversion -/

/-- Since the last line of two stars a date has been stored. -/
def dateStored (before : List Entry) : Bool := (before.rtakeWhile (· ≠ .stars)).any Entry.isDate

/-- **The comment block of the entries**: the line about the conversion stands right before each line
that ends a date entry. -/
def annotated (today : Date) (entries : List Entry) : List Text :=
  entries.zipIdx.flatMap fun (e, i) => withConversion today (dateStored (entries.take i)) e

theorem dateStored_append (before : List Entry) (e : Entry) :
    dateStored (before ++ [e]) = (decide (e ≠ .stars) && (dateStored before || e.isDate)) := by
  unfold dateStored
  by_cases he : e = .stars
  · rw [rtakeWhile_concat_neg _ _ _ (by simp [he])]
    simp [he]
  · rw [rtakeWhile_concat_pos _ _ _ (by simp [he]), any_append]
    simp [he]

theorem annotated_append (today : Date) (entries : List Entry) (e : Entry) :
    annotated today (entries ++ [e]) =
      annotated today entries ++ withConversion today (dateStored entries) e := by
  unfold annotated
  rw [zipIdx_append, flatMap_append]
  congr 1
  · refine flatMap_congr ?_
    rintro ⟨e', i⟩ hmem
    have hlt := snd_lt_of_mem_zipIdx hmem
    dsimp only
    rw [take_append_of_le_length (by simpa using hlt.le)]
  · simp

/-! ### Reading a header call by call -/

/-- A header that is being read: where it stands, what it has found, and the entries of the comment
block that were stored so far. -/
structure Progress where
  state : State := {}
  definition : Definition
  entries : List Entry := []

namespace Progress

/-- The progress after one more call. -/
def next (p : Profile) (today : Date) (r : Progress) (call : Text × List Text) : Progress where
  state := (step p today r.state r.definition call.1 call.2).state
  definition := (step p today r.state r.definition call.1 call.2).definition
  entries := r.entries ++ (entryOf? r.state.flags call.1 call.2).toList

/-- **The header of a definition after calls one after the other**, each with its line and the lines
ahead of it. -/
def run (p : Profile) (today : Date) (d : Definition) (calls : List (Text × List Text)) : Progress :=
  calls.foldl (next p today) { definition := d }

/-- What holds of the header at any time, when it was started with the comment block `block`. -/
structure Sound (today : Date) (block : List Text) (r : Progress) : Prop where
  settled : Settled r.state
  awaited : r.state.comment = .awaited → r.entries = []
  inside : ∀ dated, r.state.comment = .inside dated → dated = dateStored r.entries
  commentBlock : r.definition.commentBlock = block ++ annotated today r.entries

theorem next_moves (p : Profile) (today : Date) (r : Progress) (call : Text × List Text) :
    Moves r.state (r.next p today call).state := by
  have hstores := step_stores p today r.state r.definition call.1 call.2
  refine ⟨?_, hstores.arguments, hstores.inBody⟩
  unfold next
  rw [hstores.comment]
  exact CommentPhase.leads_after _ _

/-- **When an entry is stored**, the flag tells whether a date has been stored since the last line of two
stars, before it and after it. -/
theorem Sound.entry (h : r.Sound today block)
    {line : Text} {ahead : List Text} (he : entryOf? r.state.flags line ahead = some e) :
    r.state.flags.dated = dateStored r.entries ∧ ∀ dated,
      r.state.comment.after (some e) = .inside dated → dated = dateStored (r.entries ++ [e]) := by
  cases hs : r.state.comment with
  | awaited =>
    rw [entryOf?_flags, hs] at he
    dsimp only at he
    split_ifs at he
    cases he
    rw [h.awaited hs]
    refine ⟨by simp [State.flags, hs, dateStored], ?_⟩
    intro dated hafter
    cases hafter
    rfl
  | inside dated =>
    refine ⟨(dated_of_inside hs).trans (h.inside dated hs), ?_⟩
    rw [dateStored_append, ← h.inside dated hs]
    intro dated' hafter
    cases e with
    | closing line => cases hafter
    | stars => cases hafter; rfl
    | labelled label value => cases hafter; simp [Entry.endsDate]
    | other text => cases hafter; simp [Entry.endsDate]
  | finished =>
    rw [entryOf?_flags, hs] at he
    split_ifs at he

theorem next_sound {p : Profile}
    (h : r.Sound today block) (call : Text × List Text) : (r.next p today call).Sound today block := by
  have hstores := step_stores p today r.state r.definition call.1 call.2
  unfold next
  cases he : entryOf? r.state.flags call.1 call.2 with
  | none =>
    rw [he] at hstores
    have hcomment : r.state.comment.after none = r.state.comment := by cases r.state.comment <;> rfl
    rw [toList_none, append_nil]
    refine ⟨hstores.settled h.settled, ?_, ?_, ?_⟩
    · rw [hstores.comment, hcomment]
      exact h.awaited
    · rw [hstores.comment, hcomment]
      exact h.inside
    · rw [hstores.commentBlock, h.commentBlock]
      exact append_nil _
  | some e =>
    rw [he] at hstores
    obtain ⟨hdated, hafter⟩ := h.entry he
    rw [toList_some]
    refine ⟨hstores.settled h.settled, ?_, ?_, ?_⟩
    · rw [hstores.comment]
      exact fun hawaited => absurd hawaited (CommentPhase.after_ne_awaited _ e)
    · rw [hstores.comment]
      exact hafter
    · dsimp only
      rw [hstores.commentBlock, h.commentBlock, annotated_append, hdated, append_assoc]
      simp

theorem run_sound (p : Profile) (today : Date) (d : Definition) (calls : List (Text × List Text)) :
    (run p today d calls).Sound today d.commentBlock := by
  have hstart : Sound today d.commentBlock { definition := d } :=
    ⟨nofun, fun _ => rfl, nofun, (append_nil _).symm⟩
  unfold run
  generalize ({ definition := d } : Progress) = r at hstart ⊢
  induction calls generalizing r with
  | nil => exact hstart
  | cons call calls ih => exact ih _ (next_sound hstart call)

theorem run_append (p : Profile) (today : Date) (d : Definition) (calls more : List (Text × List Text)) :
    run p today d (calls ++ more) = more.foldl (next p today) (run p today d calls) := foldl_append

theorem foldl_grows (p : Profile) (today : Date) : ∀ (more : List (Text × List Text)) (r : Progress),
    r.state.flags.Grows (more.foldl (next p today) r).state.flags
  | [], _ => .refl _
  | call :: more, r => (next_moves p today r call).grows.trans (foldl_grows p today more _)

end Progress

/-! ### Whole runs by the flags -/

/-- A header that is being read by its flags. -/
structure Reading where
  flags : Flags := {}
  definition : Definition
  entries : List Entry := []

namespace Reading

/-- The reading after one more call. -/
def next (p : Profile) (today : Date) (r : Reading) (call : Text × List Text) : Reading where
  flags := (r.flags.next p today r.definition call.1 call.2).1
  definition := (r.flags.next p today r.definition call.1 call.2).2
  entries := r.entries ++ (entryOf? r.flags call.1 call.2).toList

/-- **The header of a definition after calls one after the other**, read by its flags; at first none of
them is set. -/
def run (p : Profile) (today : Date) (d : Definition) (calls : List (Text × List Text)) : Reading :=
  calls.foldl (next p today) { definition := d }

end Reading

/-- What the flags tell of the progress. -/
def Progress.reading (r : Progress) : Reading := ⟨r.state.flags, r.definition, r.entries⟩

theorem reading_next (p : Profile) (today : Date) (r : Progress) (call : Text × List Text) :
    r.reading.next p today call = (r.next p today call).reading := by
  unfold Reading.next Progress.reading
  rw [next_flags]
  rfl

/-- **Flags and phases tell the same in every run.** -/
theorem reading_run (p : Profile) (today : Date) (d : Definition) (calls : List (Text × List Text)) :
    Reading.run p today d calls = (Progress.run p today d calls).reading := by
  have hfold : ∀ (calls : List (Text × List Text)) (r : Progress),
      calls.foldl (Reading.next p today) r.reading = (calls.foldl (Progress.next p today) r).reading := by
    intro calls
    induction calls with
    | nil => exact fun r => rfl
    | cons call calls ih =>
      intro r
      rw [foldl_cons, foldl_cons, reading_next, ih]
  exact hfold calls { definition := d }

/-- **Whatever lines a header is given**, starting with no flag set: the flags fit together; no flag is
taken back later on, but for the one of a date; once the header is over, a call changes nothing and takes
no line; and the comment block has the line about the conversion right before each line that ends a date
entry, and nowhere else. The flags are those of the phases that the conversion goes by. -/
theorem run_invariant (p : Profile) (today : Date) (d : Definition) (calls : List (Text × List Text)) :
    (Reading.run p today d calls).flags.Consistent ∧
      (∀ more, (Reading.run p today d calls).flags.Grows (Reading.run p today d (calls ++ more)).flags) ∧
      ((Reading.run p today d calls).flags.inBody = true → ∀ line ahead,
        (Reading.run p today d calls).next p today (line, ahead) = Reading.run p today d calls ∧
          step p today (Progress.run p today d calls).state (Progress.run p today d calls).definition line
              ahead =
            ⟨(Progress.run p today d calls).state, (Progress.run p today d calls).definition, false, 0,
              []⟩) ∧
      (Reading.run p today d calls).definition.commentBlock =
        d.commentBlock ++ annotated today (Reading.run p today d calls).entries ∧
      Reading.run p today d calls = (Progress.run p today d calls).reading := by
  have hsound := Progress.run_sound p today d calls
  refine ⟨?_, fun more => ?_, fun hover line ahead => ?_, ?_, reading_run p today d calls⟩
  · rw [reading_run]
    exact hsound.settled.consistent
  · rw [reading_run, reading_run, Progress.run_append]
    exact Progress.foldl_grows p today more _
  · constructor
    · rw [Reading.next, Flags.next, entryOf?, if_pos hover, if_pos hover]
      simp
    · rw [reading_run] at hover
      exact if_pos hover
  · rw [reading_run]
    exact hsound.commentBlock

/-- A block with two dates, of which only the line of two stars ends the entry, and a closing line that
ends none. -/
theorem run_invariant_dated :
    let calls := ["/*****".toList, "**\tDate:\t1/5/2005".toList, "**\t\t\t2/7/2006".toList,
      "**\tDate: 3/1/2007".toList, "**".toList, "**\tAuth: Ada".toList, "*****/".toList]
    let r := Reading.run .standard ⟨2024, 1, 2⟩ {} (calls.map fun line => (line, []))
    (r.flags.Consistent ∧ r.flags.commentEnded = true) ∧ r.definition.commentBlock =
      ["/*****".toList, "**  Date:   1/5/2005".toList, "**          2/7/2006".toList,
        "**  Date:   3/1/2007".toList, "**          01/02/2024 - Ported to PostgreSQL".toList,
        "**".toList, "**  Auth:   Ada".toList, "*****/".toList] := by
  intro calls r
  obtain ⟨hconsistent, -, -, hblock, -⟩ :=
    run_invariant .standard ⟨2024, 1, 2⟩ {} (calls.map fun line => (line, []))
  exact ⟨⟨hconsistent, by decide⟩, hblock.trans (by decide)⟩

end SqlRoutine.Header

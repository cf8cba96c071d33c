import SqlRoutine.Proofs.Rename.Blocks
import SqlRoutine.Proofs.Script.Layout

/-! # Header parts that are not closed

The comment block and the argument list of a header are opened by one line and closed by a later one.
What stands further on in the line that opens a part is not looked at for the sign that closes it, so
**a comment block or an argument list on one line stays open** (`Part.step_opens`). Every line after it
is a line of the header then, up to the next one that closes the part (`Part.closes`). If there is none,
nothing of the body is converted, and the routine is dropped (`unclosed_dropped`). -/

namespace SqlRoutine

open Header List Option

namespace Header

variable {p : Profile} {today : Date} {d : Definition} {s : State} {line : Text} {ahead : List Text}

/-! ### Opening and closing -/

/-- A part of a header that has a start and an end. -/
inductive Part where
  | comment
  | arguments
  deriving DecidableEq, Repr

namespace Part

/-- **The line opens the part**, whatever else stands on it. -/
def opens : Part → Text → Bool
  | .comment, line => line.startsWith "/*****".toList
  | .arguments, line => line.trim.startsWith ['('] && !line.trim.startsWith ['(', ')']

/-- **The line closes the part** that one before it has opened. The arguments of a function also end
where its type stands. -/
def closes (kind : RoutineKind) : Part → Text → Bool
  | .comment, line => line.trimEnd.endsWith "*****/".toList
  | .arguments, line => line.trim.startsWith [')'] || (kind = .function && (returns? line).isSome)

/-- The phases in which the part may start. -/
def IsAwaited : Part → State → Prop
  | .comment, s => s = {}
  | .arguments, s => ∃ comment, (∀ dated, comment ≠ .inside dated) ∧ s = ⟨comment, .awaited, false⟩

/-- The phases in which the part is open. -/
def IsOpen : Part → State → Prop
  | .comment, s => ∃ dated, s = ⟨.inside dated, .awaited, false⟩
  | .arguments, s =>
    ∃ comment, (∀ dated, comment ≠ .inside dated) ∧ s = ⟨comment, .inside false, false⟩

/-- The phases in which the part has ended. -/
def IsClosed : Part → State → Prop
  | .comment, s => s = ⟨.finished, .awaited, false⟩
  | .arguments, s =>
    ∃ comment, (∀ dated, comment ≠ .inside dated) ∧ s = ⟨comment, .finished false, false⟩

variable {part : Part}

theorem IsOpen.inBody (h : part.IsOpen s) : s.inBody = false := by
  cases part with
  | comment =>
    obtain ⟨dated, rfl⟩ := h
    rfl
  | arguments =>
    obtain ⟨comment, -, rfl⟩ := h
    rfl

theorem IsAwaited.inBody (h : part.IsAwaited s) : s.inBody = false := by
  cases part with
  | comment =>
    obtain rfl := h
    rfl
  | arguments =>
    obtain ⟨comment, -, rfl⟩ := h
    rfl

end Part

/-! ### One line -/

/-- **The line belongs to the header**, which is then in one of the given phases; no type has been set,
and at most a line of two stars has been taken along. -/
structure Outcome.Stays (o : Outcome) (phase : State → Prop) (d : Definition) (ahead : List Text) :
    Prop where
  phase : phase o.state
  consumed : o.consumed
  returnType : o.definition.returnType = d.returnType
  taken : o.taken = 0 ∨ o.taken = 1 ∧ starsAhead ahead

theorem returnType_addArgument (p : Profile) (d : Definition) (line : Text) :
    (addArgument p d line).value.returnType = d.returnType := by
  unfold addArgument
  dsimp only
  by_cases hempty : (Code.splitComment line.trim).1.isEmpty
  · rw [if_pos hempty]
    rfl
  · rw [if_neg hempty]

theorem setReturnType?_of_returns?
    (h : (decide (d.kind = .function) && (returns? line).isSome) = false) :
    setReturnType? p d line ahead = none := by
  rw [Bool.and_eq_false_iff, decide_eq_false_iff_not, isSome_eq_false_iff,
    isNone_iff_eq_none] at h
  rcases h with h | h
  · refine setReturnType?_of_done (.inl ?_)
    cases hkind : d.kind with
    | procedure => rfl
    | function => exact absurd hkind h
  · unfold setReturnType?
    rw [h]
    split_ifs <;> rfl

theorem exists_setReturnType? (hkind : d.kind = .function) (hnew : d.returnType = [])
    (h : (returns? line).isSome) (ahead : List Text) :
    ∃ found, setReturnType? p d line ahead = some found := by
  obtain ⟨clause, hclause⟩ := isSome_iff_exists.mp h
  unfold setReturnType?
  rw [hkind, hnew, hclause]
  exact ⟨_, rfl⟩

namespace Part

variable {part : Part}

/-- **A line that opens a part leaves it open**, also if the part ends on it. -/
theorem step_opens (hs : part.IsAwaited s) (h : part.opens line) :
    (step p today s d line ahead).Stays part.IsOpen d ahead ∧
      (step p today s d line ahead).taken = 0 := by
  cases part with
  | comment =>
    obtain rfl := hs
    obtain ⟨hstate, hfound, hconsumed, htaken⟩ : (step p today {} d line ahead).Finds 0 _ (found d) :=
      step_opens_comment h
    exact ⟨⟨⟨false, hstate⟩, hconsumed, congrArg Found.returnType hfound, .inl htaken⟩, htaken⟩
  | arguments =>
    obtain ⟨comment, hcomment, rfl⟩ := hs
    obtain ⟨rest, htrim, hrest⟩ : ∃ rest, line.trim = '(' :: rest ∧ ∀ t, rest ≠ ')' :: t := by
      rw [opens, Bool.and_eq_true, Bool.not_eq_true'] at h
      obtain ⟨rest, hrest⟩ := isPrefixOf_iff_prefix.mp h.1
      refine ⟨rest, hrest.symm, ?_⟩
      rintro t rfl
      rw [← hrest] at h
      cases h.2
    obtain ⟨u, hu⟩ := Text.head_of_trim htrim
    have hbefore : beforeArguments p ⟨comment, .awaited, false⟩ d line ahead =
        ⟨⟨comment, .inside false, false⟩, (addArgument p d rest).value, true, 0,
          (addArgument p d rest).notes⟩ := by
      unfold beforeArguments
      rw [htrim]
      split
      · next t ht => exact absurd (List.cons.inj ht).2 (hrest t)
      · next t _ ht =>
        obtain rfl := (List.cons.inj ht).2
        rfl
      · next t ht => cases ht
      · next _ hne _ => exact absurd rfl (hne rest)
    rw [step_outside .awaited hcomment (.inr (startsWith_of_head hu (by decide)))]
    dsimp only [outsideComment]
    rw [hbefore]
    exact ⟨⟨⟨comment, hcomment, rfl⟩, rfl, returnType_addArgument p d rest, .inl rfl⟩, rfl⟩

/-- **An open part stays open** at a line that does not close it. -/
theorem step_stays (hs : part.IsOpen s) (h : part.closes d.kind line = false) :
    (step p today s d line ahead).Stays part.IsOpen d ahead := by
  cases part with
  | comment =>
    obtain ⟨dated, rfl⟩ := hs
    obtain ⟨dated', hstate, hfound, hconsumed, htaken⟩ :
        ∃ dated', (step p today ⟨.inside dated, .awaited, false⟩ d line ahead).Finds _
          ⟨.inside dated', .awaited, false⟩ (found d) := step_inside_comment h
    refine ⟨⟨dated', hstate⟩, hconsumed, congrArg Found.returnType hfound, ?_⟩
    rw [htaken]
    split_ifs with hstars
    · exact .inr ⟨rfl, ((Bool.and_eq_true _ _).mp hstars).2⟩
    · exact .inl rfl
  | arguments =>
    obtain ⟨comment, hcomment, rfl⟩ := hs
    obtain ⟨hparenthesis, htype⟩ := Bool.or_eq_false_iff.mp h
    have hclose : ∀ t, line.trim ≠ ')' :: t := by
      intro t ht
      rw [ht] at hparenthesis
      cases hparenthesis
    rw [step_among_arguments hcomment hclose (setReturnType?_of_returns? htype)]
    exact ⟨⟨comment, hcomment, rfl⟩, rfl, returnType_addArgument p d line, .inl rfl⟩

/-- **A line that closes a part ends it.** -/
theorem step_closes (hs : part.IsOpen s) (hnew : d.returnType = [])
    (h : part.closes d.kind line) :
    part.IsClosed (step p today s d line ahead).state ∧
      (step p today s d line ahead).consumed ∧
      (part = .comment → (step p today s d line ahead).definition.returnType = [] ∧
        (step p today s d line ahead).taken = 0) := by
  cases part with
  | comment =>
    obtain ⟨dated, rfl⟩ := hs
    obtain ⟨hstate, hfound, hconsumed, htaken⟩ :
        (step p today ⟨.inside dated, .awaited, false⟩ d line ahead).Finds 0 _ (found d) :=
      step_closes_comment h
    exact ⟨hstate, hconsumed, fun _ => ⟨(congrArg Found.returnType hfound).trans hnew, htaken⟩⟩
  | arguments =>
    obtain ⟨comment, hcomment, rfl⟩ := hs
    rw [step_outside (.inside false) hcomment (.inl nofun)]
    dsimp only [outsideComment, argumentLine]
    rw [Bool.false_and, Bool.false_and, if_neg Bool.false_ne_true]
    split
    · split_ifs
      · exact ⟨⟨comment, hcomment, rfl⟩, rfl, nofun⟩
      · split <;> exact ⟨⟨comment, hcomment, rfl⟩, rfl, nofun⟩
    · next hne =>
      -- a line without the parenthesis has the type
      obtain ⟨hkind, hreturns⟩ : d.kind = .function ∧ (returns? line).isSome := by
        rcases (Bool.or_eq_true _ _).mp h with hparenthesis | htype
        · obtain ⟨t, ht⟩ := isPrefixOf_iff_prefix.mp hparenthesis
          exact absurd ht.symm (hne t)
        · rwa [Bool.and_eq_true, decide_eq_true_eq] at htype
      obtain ⟨⟨d', taken, notes⟩, htype⟩ := exists_setReturnType? (p := p) hkind hnew hreturns ahead
      rw [htype]
      exact ⟨⟨comment, hcomment, rfl⟩, rfl, nofun⟩

/-- Blank lines before a part are passed over. -/
theorem step_blank (hs : part.IsAwaited s) (h : line.isBlank) :
    (step p today s d line ahead).Stays part.IsAwaited d ahead ∧
      (step p today s d line ahead).taken = 0 := by
  obtain ⟨comment, hcomment, rfl⟩ : ∃ comment, (∀ dated, comment ≠ .inside dated) ∧
      s = ⟨comment, .awaited, false⟩ := by
    cases part with
    | comment => exact ⟨.awaited, nofun, hs⟩
    | arguments => exact hs
  have hstart : line.startsWith "/*****".toList = false := by
    rw [← Bool.not_eq_true]
    intro hstart
    obtain ⟨u, rfl⟩ := isPrefixOf_iff_prefix.mp hstart
    cases h
  rw [step_outside .awaited hcomment (.inr hstart)]
  dsimp only [outsideComment, beforeArguments]
  rw [Text.trim_of_isBlank h]
  dsimp only [afterArguments]
  rw [setReturnType?_of_isBlank h, if_pos h]
  exact ⟨⟨hs, rfl, rfl, .inl rfl⟩, rfl⟩

end Part

end Header

namespace Script

variable {c : Converter} {s : State} {line : Text} {ahead rest : List Text} {d : Definition}
  {part : Header.Part}

/-! ### Lines that are taken along -/

/-- A line that one before it may take along. -/
def isPassed (line : Text) : Bool := line.isBlank || isStars line

theorem isPassed_of_create? (h : (create? line).isSome) : isPassed line = false := by
  obtain ⟨-, hblank, -, t, hupper⟩ := create?_trim h
  rw [isPassed, hblank, Bool.false_or, isStars, ← Bool.not_eq_true, beq_iff_eq]
  intro hstars
  rw [hstars] at hupper
  rcases hupper with hupper | hupper
  · exact absurd (List.cons.inj hupper).1 (by decide)
  · exact absurd (List.cons.inj hupper).1 (by decide)

theorem isPassed_of_closes {kind : RoutineKind} (h : part.closes kind line) :
    isPassed line = false := by
  rw [← Bool.not_eq_true, isPassed, Bool.or_eq_true, isStars, beq_iff_eq]
  intro hpassed
  obtain ⟨htrim, hreturns⟩ : (line.trim = [] ∨ line.trim = Definition.emptyLine) ∧
      returns? line = none := by
    rcases hpassed with hblank | hstars
    · refine ⟨.inl (Text.trim_of_isBlank hblank), ?_⟩
      rw [returns?, Text.trimStart_of_isBlank hblank]
      rfl
    · obtain ⟨u, hu⟩ := Text.head_of_trim hstars
      refine ⟨.inr hstars, ?_⟩
      rw [returns?, hu]
      rfl
  cases part with
  | comment =>
    have hslash := Reading.slash_mem_trim h
    rcases htrim with htrim | htrim
    · rw [htrim] at hslash
      cases hslash
    · rw [htrim] at hslash
      exact absurd hslash (by decide)
  | arguments =>
    rw [Header.Part.closes, hreturns, isSome_none, Bool.and_false, Bool.or_false] at h
    rcases htrim with htrim | htrim
    · rw [htrim] at h
      cases h
    · rw [htrim] at h
      cases h

/-! ### One line of a script -/

/-- **The header of the routine stands in one of the phases**, no type has been found, and nothing has
been converted of the body. -/
structure Stands (phase : Header.State → Prop) (d : Definition) (s : State) : Prop where
  phase : phase s.header
  routine : SameRoutine d s.definition
  untyped : s.definition.returnType = []
  body : s.body = {}

/-- A line that starts no routine is left out, or goes to the header. -/
theorem step_cases (c : Converter) (ahead : List Text) (hname : s.definition.name.isEmpty = false)
    (hcreate : create? line = none) :
    (∃ skipGo notes, (step c s line ahead).progress.state = { s with skipGo, notes } ∧
      ((step c s line ahead).taken = 0 ∨
        (step c s line ahead).taken = 1 ∧ ahead.head?.any Text.isBlank)) ∨
    step c s line ahead = routineLine c { s with skipGo := false } line ahead := by
  by_cases hordinary : isOrdinary s.header.inBody line
  · exact .inr (step_of_isOrdinary hordinary hname)
  · have hleft : (isBatchLine line || isLeftOut s.header.inBody line) := by
      by_contra hno
      rw [Bool.not_eq_true, Bool.or_eq_false_iff] at hno
      exact hordinary (isOrdinary_iff.mpr ⟨hno.1, hno.2, hcreate⟩)
    left
    unfold step
    dsimp only
    rw [if_pos hleft]
    split_ifs
    · refine ⟨false, _, rfl, ?_⟩
      unfold skippedGo
      dsimp only
      split
      · split_ifs with hblank
        · exact .inr ⟨rfl, hblank⟩
        · exact .inl rfl
      · exact .inl rfl
    · exact ⟨_, s.notes, rfl, .inl rfl⟩

theorem routineLine_of_consumed
    (h : (Header.step c.profile c.today s.header s.definition line ahead).consumed) :
    let header := Header.step c.profile c.today s.header s.definition line ahead
    routineLine c s line ahead =
      ⟨⟨{ s with
        header := header.state
        definition := header.definition
        notes := s.notes ++ header.notes }, none⟩, header.taken⟩ := by
  unfold routineLine
  dsimp only
  rw [if_pos h]
  rfl

/-- **The line belongs to the header**, whose phase changes with it. -/
theorem Stands.consumed {phase phase' : Header.State → Prop} (h : Stands phase d s)
    (hconsumed : (Header.step c.profile c.today s.header s.definition line ahead).consumed)
    (hphase : phase' (Header.step c.profile c.today s.header s.definition line ahead).state)
    (huntyped : (Header.step c.profile c.today s.header s.definition line ahead).definition.returnType =
      []) : Stands phase' d (routineLine c { s with skipGo := false } line ahead).progress.state := by
  have hkeeps := (step_keeps c.profile s.definition c.today s.header line ahead).routine
  have hroutine := routineLine_of_consumed (c := c) (s := { s with skipGo := false }) hconsumed
  rw [hroutine]
  exact ⟨hphase, h.routine.trans hkeeps, huntyped, h.body⟩

/-- **An open part stays open** at a line that neither closes it nor starts a routine. -/
theorem Stands.step_stays (h : Stands part.IsOpen d s) (hname : d.name.isEmpty = false)
    (hcreate : create? line = none) (hopen : part.closes d.kind line = false) :
    Stands part.IsOpen d (step c s line ahead).progress.state ∧ ((step c s line ahead).taken = 0 ∨
        (step c s line ahead).taken = 1 ∧ ahead.head?.any isPassed) := by
  have hname' : s.definition.name.isEmpty = false := by rw [h.routine.name]; exact hname
  rcases step_cases c ahead hname' hcreate with ⟨skipGo, notes, hstate, htaken⟩ | hline
  · rw [hstate]
    refine ⟨⟨h.phase, h.routine, h.untyped, h.body⟩, htaken.imp_right fun ⟨hone, hblank⟩ => ⟨hone, ?_⟩⟩
    cases ahead with
    | nil => cases hblank
    | cons following ahead => simpa [isPassed] using .inl hblank
  · have hkind : part.closes s.definition.kind line = false := by rw [h.routine.kind]; exact hopen
    obtain ⟨hphase, hconsumed, htype, htaken⟩ : (Header.step c.profile c.today s.header s.definition
        line ahead).Stays part.IsOpen s.definition ahead := Header.Part.step_stays h.phase hkind
    have hroutine := routineLine_of_consumed (c := c) (s := { s with skipGo := false }) hconsumed
    rw [hline]
    refine ⟨h.consumed hconsumed hphase (htype.trans h.untyped), ?_⟩
    rw [hroutine]
    refine htaken.imp_right fun ⟨hone, hstars⟩ => ⟨hone, ?_⟩
    cases ahead with
    | nil => cases hstars
    | cons following ahead => simpa [isPassed] using .inr hstars

/-! ### Reading on -/

namespace Reading

variable {r r' r'' : Reading} {n m : ℕ}

/-- **The reading `r` goes on to `r'`** in `n` steps, and no routine is flushed on the way. -/
structure Passes (c : Converter) (n : ℕ) (r r' : Reading) : Prop where
  leads : Leads c n r r'
  idle : Idle r.state r'.state

theorem Passes.refl (c : Converter) (r : Reading) : Passes c 0 r r :=
  ⟨.refl c r, rfl, rfl, rfl, rfl, rfl, rfl, rfl, rfl, rfl⟩

theorem Passes.trans (h : Passes c n r r') (h' : Passes c m r' r'') : Passes c (m + n) r r'' :=
  ⟨h.leads.trans h'.leads, h.idle.trans h'.idle⟩

theorem passes_next (h : r.ahead = line :: ahead) (hcreate : create? line = none) :
    Passes c 1 r (r.next c) := by
  obtain ⟨hfault, hidle⟩ := step_idle c r.state ahead hcreate
  refine ⟨leads_next h hfault, ?_⟩
  rw [next_cons h]
  exact hidle

/-- A line of the header that takes no other one along. -/
theorem consumes_next {phase phase' : Header.State → Prop} (h : Stands phase d r.state)
    (hahead : r.ahead = line :: ahead) (hname : d.name.isEmpty = false)
    (hin : r.state.header.inBody = false) (hline : isOrdinary false line)
    (hstep : (Header.step c.profile c.today r.state.header r.state.definition line ahead).Stays phase'
      r.state.definition ahead ∧
      (Header.step c.profile c.today r.state.header r.state.definition line ahead).taken = 0) :
    Passes c 1 r (r.next c) ∧ Stands phase' d (r.next c).state ∧ (r.next c).ahead = ahead := by
  obtain ⟨⟨hphase, hconsumed, htype, -⟩, htaken⟩ := hstep
  have hname' : r.state.definition.name.isEmpty = false := by rw [h.routine.name]; exact hname
  have hroutine := routineLine_of_consumed (c := c) (s := { r.state with skipGo := false }) hconsumed
  refine ⟨passes_next hahead (isOrdinary_iff.mp hline).2.2, ?_⟩
  rw [next_cons hahead, step_of_isOrdinary (by rw [hin]; exact hline) hname']
  refine ⟨h.consumed hconsumed hphase (htype.trans h.untyped), ?_⟩
  rw [hroutine]
  exact congrArg ahead.drop htaken

/-- Blank lines before a part. -/
theorem passes_blanks (hname : d.name.isEmpty = false) : ∀ (blanks : List Text) {r : Reading},
    (∀ line ∈ blanks, line.isBlank) → Stands part.IsAwaited d r.state →
      r.ahead = blanks ++ rest →
      ∃ n r', Passes c n r r' ∧ Stands part.IsAwaited d r'.state ∧ r'.ahead = rest
  | [], r, _, h, hahead => ⟨0, r, .refl c r, h, hahead⟩
  | line :: blanks, r, hblanks, h, hahead => by
    obtain ⟨hblank, hothers⟩ := forall_mem_cons.mp hblanks
    obtain ⟨hpasses, hstands, hnext⟩ := consumes_next (c := c) h hahead hname h.phase.inBody
      (isOrdinary_of_isBlank hblank false) (Header.Part.step_blank h.phase hblank)
    obtain ⟨n, r', hpasses', hrest⟩ := passes_blanks hname blanks hothers hstands hnext
    exact ⟨n + 1, r', hpasses.trans hpasses', hrest⟩

/-- An open part stays open, and at most one more line is taken along. -/
theorem stays_open (h : Stands part.IsOpen d r.state) (hahead : r.ahead = line :: ahead)
    (hname : d.name.isEmpty = false) (hcreate : create? line = none)
    (hopen : part.closes d.kind line = false) :
    Stands part.IsOpen d (r.next c).state ∧ ((r.next c).ahead = ahead ∨
      ∃ first others, ahead = first :: others ∧ isPassed first ∧ (r.next c).ahead = others) := by
  obtain ⟨hstands, htaken⟩ : Stands part.IsOpen d (step c r.state line ahead).progress.state ∧ _ :=
    h.step_stays hname hcreate hopen
  rw [next_cons hahead]
  refine ⟨hstands, ?_⟩
  rcases htaken with hzero | ⟨hone, hpassed⟩
  · rw [hzero]
    exact .inl rfl
  · rw [hone]
    cases ahead with
    | nil => cases hpassed
    | cons first others => exact .inr ⟨first, others, rfl, hpassed, rfl⟩

/-- **Everything is a line of the header** as long as the open part is not closed. -/
theorem passes_open (hname : d.name.isEmpty = false)
    (hrest : ∀ line ∈ rest.head?, isPassed line = false) :
    ∀ (lines : List Text) {r : Reading},
      (∀ line ∈ lines, create? line = none ∧ part.closes d.kind line = false) →
      Stands part.IsOpen d r.state → r.ahead = lines ++ rest →
      ∃ n r', Passes c n r r' ∧ Stands part.IsOpen d r'.state ∧ r'.ahead = rest
  | [], r, _, h, hahead => ⟨0, r, .refl c r, h, hahead⟩
  | line :: lines, r, hlines, h, hahead => by
    obtain ⟨⟨hcreate, hopen⟩, hothers⟩ := forall_mem_cons.mp hlines
    rw [cons_append] at hahead
    have hpasses : Passes c 1 r (r.next c) := passes_next hahead hcreate
    obtain ⟨hstands, hnext | ⟨first, others, heq, hpassed, hnext⟩⟩ :=
      stays_open (c := c) h hahead hname hcreate hopen
    · obtain ⟨n, r', hpasses', hrest'⟩ := passes_open hname hrest lines hothers hstands hnext
      exact ⟨n + 1, r', hpasses.trans hpasses', hrest'⟩
    · cases lines with
      | nil =>
        -- a line that is taken along is not the first one of the rest
        have hfirst := hrest first (by rw [show rest = first :: others from heq]; rfl)
        rw [hpassed] at hfirst
        cases hfirst
      | cons second lines =>
        obtain ⟨rfl, rfl⟩ := List.cons.inj heq
        obtain ⟨n, r', hpasses', hrest'⟩ := passes_open hname hrest lines
          (forall_mem_cons.mp hothers).2 hstands hnext
        exact ⟨n + 1, r', hpasses.trans hpasses', hrest'⟩
  termination_by lines => lines.length

/-- **The line that closes a part** is the last one that is lost. -/
theorem closes_next (h : Stands part.IsOpen d r.state) (hahead : r.ahead = line :: ahead)
    (hname : d.name.isEmpty = false) (hline : isOrdinary false line)
    (hcloses : part.closes d.kind line) :
    Passes c 1 r (r.next c) ∧ part.IsClosed (r.next c).state.header ∧
      SameRoutine d (r.next c).state.definition ∧ (r.next c).state.body = {} ∧
      (part = .comment → (r.next c).state.definition.returnType = [] ∧ (r.next c).ahead = ahead) := by
  have hname' : r.state.definition.name.isEmpty = false := by rw [h.routine.name]; exact hname
  have hkind : part.closes r.state.definition.kind line := by rw [h.routine.kind]; exact hcloses
  have hkeeps := step_keeps c.profile r.state.definition c.today r.state.header line ahead
  obtain ⟨hphase, hconsumed, hcomment⟩ : part.IsClosed (Header.step c.profile c.today r.state.header
      r.state.definition line ahead).state ∧ _ := Header.Part.step_closes h.phase h.untyped hkind
  have hroutine := routineLine_of_consumed (c := c) (s := { r.state with skipGo := false }) hconsumed
  refine ⟨passes_next hahead (isOrdinary_iff.mp hline).2.2, ?_⟩
  rw [next_cons hahead, step_of_isOrdinary (by rw [h.phase.inBody]; exact hline) hname', hroutine]
  refine ⟨hphase, h.routine.trans hkeeps.routine, h.body, fun hpart => ⟨(hcomment hpart).1, ?_⟩⟩
  exact congrArg ahead.drop (hcomment hpart).2

/-- A comment block on lines of its own. -/
theorem passes_commentBlock (hname : d.name.isEmpty = false) (b : CommentBlock)
    (h : Stands (Header.Part.comment).IsAwaited d r.state) (hahead : r.ahead = b.lines ++ rest) :
    ∃ n r', Passes c n r r' ∧ Stands (Header.Part.arguments).IsAwaited d r'.state ∧
      r'.ahead = rest := by
  rw [CommentBlock.lines, cons_append, append_assoc, singleton_append] at hahead
  obtain ⟨hpasses, hstands, hnext⟩ := consumes_next (c := c) h hahead hname h.phase.inBody
    (b.ordinary _ mem_cons_self) (Header.Part.step_opens h.phase b.opening_starts)
  have hinner : ∀ line ∈ b.inner,
      create? line = none ∧ (Header.Part.comment).closes d.kind line = false := by
    intro line hline
    exact ⟨(isOrdinary_iff.mp (b.ordinary line (by simp [hline]))).2.2, b.inner_goes_on line hline⟩
  have hclosing : ∀ line ∈ (b.closing :: rest).head?, isPassed line = false := by
    have hcloses : (Header.Part.comment).closes d.kind b.closing := b.closing_ends
    rintro line ⟨⟩
    exact isPassed_of_closes hcloses
  obtain ⟨n, r', hpasses', hstands', hahead'⟩ :=
    passes_open (c := c) hname hclosing b.inner hinner hstands hnext
  obtain ⟨hlast, hclosed, hroutine, hbody, hcomment⟩ := closes_next (c := c) hstands' hahead' hname
    (b.ordinary _ (by simp)) b.closing_ends
  obtain ⟨huntyped, hrest⟩ := hcomment rfl
  exact ⟨_, _, hpasses.trans (hpasses'.trans hlast), ⟨⟨.finished, by simp, hclosed⟩, hroutine, huntyped,
    hbody⟩, hrest⟩

end Reading

/-! ### The end of the routine -/

theorem renamedBody_nil (c : Converter) (cache : Renaming.ColumnCache) :
    (renamedBody c cache []).result = .ok [] := by
  unfold renamedBody
  split
  · rfl
  · rw [Renaming.renameBody, Renaming.portions_of_none fun _ h => absurd h not_mem_nil]
    rfl

/-- **A routine without a body is dropped**, or skipped if a list names it. -/
theorem finishRoutine_of_nil (hname : s.definition.name.isEmpty = false) (h : s.definition.body = []) :
    (finishRoutine c s).fault = none ∧
      ∃ kept, Flushes c s (finishRoutine c s).state [s.definition] kept [] := by
  cases hskip : s.definition.skip with
  | true =>
    rw [finishRoutine, hname, if_neg Bool.false_ne_true, hskip, if_pos rfl]
    refine ⟨rfl, [], by simp [hskip], .nil, (append_nil _).symm, rfl, ?_, ?_⟩
    · rw [filter_cons_of_pos hskip]
      rfl
    · exact countP_append
  | false =>
    have hbody : (renamedBody c s.columns s.definition.body).result = .ok [] := by
      rw [h]
      exact renamedBody_nil c s.columns
    have hrenamed : renamed c s.definition = .ok (s.withBody c []).definition := by
      rw [renamed, h, renamedBody_nil]
      rfl
    have hblank : (s.withBody c []).definition.hasBody = false := rfl
    have hfault : (writeText c (s.withBody c [])).fault = none := by rw [writeText_of_blank hblank]
    obtain ⟨texts, hflushes⟩ := writeText_flushes hrenamed hskip hname hfault
    obtain rfl : texts = [] := by
      have hwrites := hflushes.writes
      rwa [filter_cons_of_neg (by simp [hblank]), filter_nil,
        forall₂_nil_left_iff] at hwrites
    rw [finishRoutine_of_kept hname hskip hbody]
    exact ⟨hfault, _, (withBody_flushes c s []).trans hflushes⟩

/-! ### The whole routine -/

/-- **A routine with a part of its header that no later line closes.** On the line that opens the part
there may be anything after the sign for it, also the sign that closes it. -/
structure Unclosed where
  create : Text
  start : Create
  /-- A comment block on lines of its own, before an argument list. -/
  comment : Option CommentBlock
  blanks : List Text
  part : Header.Part
  opening : Text
  /-- The keyword between header and body, and the body. -/
  lines : List Text
  create_starts : create? create = some start
  comment_eq : part = .comment → comment = none
  blanks_eq : ∀ line ∈ blanks, line.isBlank
  opening_opens : part.opens opening
  opening_ordinary : isOrdinary false opening
  lines_open : ∀ line ∈ lines, create? line = none ∧ part.closes start.kind line = false

namespace Unclosed

/-- The lines up to the one that opens the part. -/
def header (u : Unclosed) : List Text :=
  (u.comment.map CommentBlock.lines).getD [] ++ (u.blanks ++ [u.opening])

/-- The lines of the routine. -/
def source (u : Unclosed) : List Text := u.create :: (u.header ++ u.lines)

variable (u : Unclosed)

/-- The line that starts the routine. -/
theorem begins (hstart : (step c s u.create (u.header ++ (u.lines ++ rest))).progress.fault = none) :
    ∃ skip, c.profile.skips (objectName (qualifiedName u.start.rest)) = .ok skip ∧
      ∀ part : Header.Part, Stands part.IsAwaited (u.start.definition c skip)
        (step c s u.create (u.header ++ (u.lines ++ rest))).progress.state := by
  rw [step_of_create? u.create_starts] at hstart ⊢
  obtain ⟨skip, hskip, -, hbegin⟩ := startRoutine_of_none hstart
  refine ⟨skip, hskip, fun part => ?_⟩
  rw [hbegin]
  refine ⟨?_, .refl _, rfl, rfl⟩
  cases part with
  | comment => rfl
  | arguments => exact ⟨.awaited, nofun, rfl⟩

/-- **The part is opened.** -/
theorem passes_header {d : Definition} (r : Reading) {others : List Text}
    (hname : d.name.isEmpty = false) (h : ∀ part : Header.Part, Stands part.IsAwaited d r.state)
    (hahead : r.ahead = u.header ++ others) :
    ∃ n r', Reading.Passes c n r r' ∧ Stands u.part.IsOpen d r'.state ∧ r'.ahead = others := by
  rw [header, append_assoc, append_assoc, singleton_append] at hahead
  obtain ⟨n₁, r₁, hpasses₁, hstands₁, hahead₁⟩ : ∃ n r', Reading.Passes c n r r' ∧
      Stands u.part.IsAwaited d r'.state ∧ r'.ahead = u.blanks ++ u.opening :: others := by
    cases hcomment : u.comment with
    | none =>
      rw [hcomment] at hahead
      exact ⟨0, r, .refl c r, h u.part, hahead⟩
    | some b =>
      rw [hcomment] at hahead
      have hpart : u.part = .arguments := by
        cases hpart : u.part with
        | comment =>
          rw [u.comment_eq hpart] at hcomment
          cases hcomment
        | arguments => rfl
      rw [hpart]
      exact Reading.passes_commentBlock hname b (h .comment) hahead
  obtain ⟨n₂, r₂, hpasses₂, hstands₂, hahead₂⟩ :=
    Reading.passes_blanks (c := c) hname u.blanks u.blanks_eq hstands₁ hahead₁
  obtain ⟨hpasses₃, hstands₃, hahead₃⟩ := Reading.consumes_next (c := c) hstands₂ hahead₂ hname
    hstands₂.phase.inBody u.opening_ordinary (Header.Part.step_opens hstands₂.phase u.opening_opens)
  exact ⟨_, _, hpasses₁.trans (hpasses₂.trans hpasses₃), hstands₃, hahead₃⟩

end Unclosed

/-- **A comment block or an argument list that is not closed by a later line swallows the body.** The
part is opened by a line of the header; what else stands on that line does not matter. If no line after
it closes the part, up to the end of the script or the start of the next routine, then no line is handed
to the conversion of the body, and the routine is not written: it is recorded that there is nothing to
write, unless it was to be skipped. If a line does close the part, the lines before it are lost. -/
theorem unclosed_dropped (c : Converter) (s : State) (u : Unclosed) (rest : List Text)
    (hrest : ∀ line ∈ rest.head?,
      (create? line).isSome = true ∨ u.part.closes u.start.kind line = true)
    (hstart : (step c s u.create (u.header ++ (u.lines ++ rest))).progress.fault = none) :
    ∃ n r, Reading.Leads c n ⟨s, u.source ++ rest⟩ r ∧ r.ahead = rest ∧
      u.start.Starts c r.state.definition ∧ u.part.IsOpen r.state.header ∧
      r.state.body = {} ∧ r.state.definition.body = [] ∧ r.state.definition.localVariables = [] ∧
      (finishRoutine c r.state).fault = none ∧
      (∃ kept, Flushes c (step c s u.create (u.header ++ (u.lines ++ rest))).progress.state
        (finishRoutine c r.state).state [r.state.definition] kept []) ∧
      ∀ closing after, rest = closing :: after → isOrdinary false closing = true →
        u.part.closes u.start.kind closing = true →
          Reading.Leads c 1 r (r.next c) ∧ u.part.IsClosed (r.next c).state.header ∧
            (r.next c).state.definition.body = [] := by
  have hlines : (⟨s, u.source ++ rest⟩ : Reading).ahead =
      u.create :: (u.header ++ (u.lines ++ rest)) := by
    simp [Unclosed.source]
  have hbegins := Reading.leads_next hlines hstart
  have htaken : (step c s u.create (u.header ++ (u.lines ++ rest))).taken = 0 := by
    rw [step_of_create? u.create_starts]
  rw [Reading.next_cons hlines, htaken, List.drop_zero] at hbegins
  obtain ⟨skip, hskip, hawaits⟩ := u.begins hstart
  generalize (step c s u.create (u.header ++ (u.lines ++ rest))).progress.state = begun
    at hbegins hawaits ⊢
  have hname : (u.start.definition c skip).name.isEmpty = false := by simp [Create.definition]
  -- the first line of the rest is not taken along with the routine
  have hpassed : ∀ line ∈ rest.head?, isPassed line = false := by
    intro line hline
    rcases hrest line hline with hcreate | hcloses
    · exact isPassed_of_create? hcreate
    · exact isPassed_of_closes hcloses
  obtain ⟨n₁, r₁, hpasses₁, hstands₁, hahead₁⟩ :=
    u.passes_header (c := c) ⟨begun, u.header ++ (u.lines ++ rest)⟩ hname hawaits rfl
  obtain ⟨n₂, r, hpasses₂, hstands, hahead⟩ :=
    Reading.passes_open (c := c) hname hpassed u.lines u.lines_open hstands₁ hahead₁
  have hidle := (hpasses₁.trans hpasses₂).idle
  have hroutine := hstands.routine
  have hname' : r.state.definition.name.isEmpty = false := by rw [hroutine.name]; exact hname
  obtain ⟨hfault, kept, hflushes⟩ := finishRoutine_of_nil (c := c) hname' hroutine.body
  refine ⟨_, r, hbegins.trans (hpasses₁.leads.trans hpasses₂.leads), hahead, ?_, hstands.phase,
    hstands.body, hroutine.body, hroutine.localVariables, hfault,
    ⟨kept, hidle.flushes.trans hflushes⟩, ?_⟩
  · refine ⟨hroutine.name, hroutine.sourceName, hroutine.kind, ?_⟩
    rw [hroutine.sourceName, hroutine.skip]
    exact hskip
  · rintro closing after rfl hclosing hcloses
    obtain ⟨hpasses, hclosed, hsame, -⟩ :=
      Reading.closes_next (c := c) hstands hahead hname hclosing hcloses
    exact ⟨hpasses.leads, hclosed, hsame.body⟩

/-- A procedure with its comment block on one line. -/
def commentOnOneLine : Unclosed where
  create := "CREATE PROCEDURE dbo.P".toList
  start := ⟨.procedure, "dbo.P".toList⟩
  comment := none
  blanks := []
  part := .comment
  opening := "/***** text *****/".toList
  lines := ["AS".toList, "Print 1".toList]
  create_starts := by decide
  comment_eq := fun _ => rfl
  blanks_eq := nofun
  opening_opens := by decide
  opening_ordinary := by decide
  lines_open := by decide

/-- A procedure with its argument list on one line. -/
def argumentsOnOneLine : Unclosed where
  create := "CREATE PROCEDURE dbo.P".toList
  start := ⟨.procedure, "dbo.P".toList⟩
  comment := none
  blanks := [[]]
  part := .arguments
  opening := "(@a int, @b int)".toList
  lines := ["AS".toList, "Print 1".toList]
  create_starts := by decide
  comment_eq := fun _ => rfl
  blanks_eq := by decide
  opening_opens := by decide
  opening_ordinary := by decide
  lines_open := by decide

theorem unclosed_dropped_onOneLine :
    let c : Converter := ⟨.standard, none, ⟨2025, 3, 9⟩⟩
    let begun (u : Unclosed) := (step c {} u.create (u.header ++ (u.lines ++ []))).progress
    let ended (u : Unclosed) := convertLines c none {} 0 u.source
    ((begun commentOnOneLine).fault = none ∧ (begun argumentsOnOneLine).fault = none) ∧
      ((ended commentOnOneLine).state.output = [] ∧ (ended commentOnOneLine).state.written = 0) ∧
      (ended argumentsOnOneLine).state.output = [] ∧ (ended argumentsOnOneLine).state.written = 0 := by
  intro c begun ended
  have hended : ∀ u, (begun u).fault = none →
      (ended u).state.output = (begun u).state.output ∧
        (ended u).state.written = (begun u).state.written := by
    intro u hstart
    obtain ⟨n, r, hleads, hahead, -, -, -, -, -, -, ⟨kept, hflushes⟩, -⟩ :=
      unclosed_dropped c {} u [] nofun hstart
    have hconverted : ended u = finishRoutine c r.state := by
      have h := hleads.converted
      unfold Reading.converted at h
      rw [hahead, List.append_nil] at h
      exact h
    rw [hconverted]
    exact ⟨hflushes.output.trans (List.append_nil _), hflushes.written⟩
  have hcomment : (begun commentOnOneLine).fault = none :=
    Option.isNone_iff_eq_none.mp (by decide)
  have harguments : (begun argumentsOnOneLine).fault = none :=
    Option.isNone_iff_eq_none.mp (by decide)
  exact ⟨⟨hcomment, harguments⟩, hended _ hcomment, hended _ harguments⟩

end Script

end SqlRoutine

import SqlRoutine.Proofs.Body.Feed
import SqlRoutine.Proofs.Routine.Phases
import SqlRoutine.Proofs.Script.Flush

/-! # The usual layout of a routine

A routine in the usual layout (`Layout`) has a line that starts it, perhaps a comment block, the
arguments between parentheses that stand on lines of their own, for a function the type that it
returns, the keyword, and the body. **The header ends where the body starts** (`layout_split`): it
gives the arguments, the comments on them and the type, and every line of the body is handed to the
conversion of the body or taken by it, also a line that would be one of the header further up.

`Reading` is where a script stands. The lines of the header are read phase by phase; `Reading.At` is
what holds between them. In the body the script keeps pace with a `Feed` (`Reading.Feeds`). -/

namespace SqlRoutine.Script

open Body Header List Option Text

variable {inBody : Bool} {k : Char} {d : Definition} {f : Found} {others : List Text} {r : Reading}
  {closing t : Text}

/-! ### Ordinary lines -/

/-- **A line that belongs to a routine**: it is not left out and starts no routine. -/
def isOrdinary (inBody : Bool) (line : Text) : Bool :=
  !isBatchLine line && !isLeftOut inBody line && (create? line).isNone

variable {c : Converter} {s : State} {line : Text} {ahead : List Text}

theorem isOrdinary_iff : isOrdinary inBody line ↔
    isBatchLine line = false ∧ isLeftOut inBody line = false ∧ create? line = none := by
  simp [isOrdinary, and_assoc]

theorem isGo_of_isLeftOut (h : isLeftOut inBody line = false) : isGo line = false := by
  unfold isLeftOut at h
  simp only [Bool.or_eq_false_iff] at h
  exact h.1.1.1.1

theorem step_of_isOrdinary (h : isOrdinary s.header.inBody line)
    (hname : s.definition.name.isEmpty = false) :
    step c s line ahead = routineLine c { s with skipGo := false } line ahead := by
  obtain ⟨hbatch, hleft, hcreate⟩ := isOrdinary_iff.mp h
  unfold step
  dsimp only
  rw [isGo_of_isLeftOut hleft, Bool.and_false, if_neg Bool.false_ne_true, hbatch, Bool.false_or, hleft,
    if_neg Bool.false_ne_true, hcreate, hname]
  exact if_neg Bool.false_ne_true

/-- The first words of lines that are left out or start a routine. -/
def directiveWords : List Text :=
  ["GO".toList, "SET".toList, "GRANT".toList, "WITH".toList, "CREATE".toList, "ALTER".toList]

theorem isOrdinary_of_keyword? (h : ∀ word ∈ directiveWords, keyword? word line.trimStart = none)
    (hheading : isObjectHeading line = false) (has : isAs line = false) (inBody : Bool) :
    isOrdinary inBody line := by
  have hgo : keyword? "GO".toList line.trimStart = none := h _ (by simp [directiveWords])
  have hset : keyword? "SET".toList line.trimStart = none := h _ (by simp [directiveWords])
  have hgrant : keyword? "GRANT".toList line.trimStart = none := h _ (by simp [directiveWords])
  have hwith : keyword? "WITH".toList line.trimStart = none := h _ (by simp [directiveWords])
  have hcreate : create? line = none := by
    rw [← not_isSome_iff_eq_none]
    intro hsome
    have htrim := (create?_trim hsome).1
    rcases keyword?_of_create? hsome with ⟨rest, hrest⟩ | ⟨rest, hrest⟩
    · rw [← htrim, h _ (by simp [directiveWords])] at hrest
      cases hrest
    · rw [← htrim, h _ (by simp [directiveWords])] at hrest
      cases hrest
  refine isOrdinary_iff.mpr ⟨?_, ?_, hcreate⟩
  · simp only [isBatchLine, isBatchOption, setOption?, word?, hset, hgrant, bind_none,
      isSome_none, Bool.or_self]
  · simp only [isLeftOut, isGo, isRoutineOption, isSchemaBinding, hgo, hset, hwith, bind_none,
      isSome_none, hheading, has, Bool.or_self, Bool.false_and]

theorem isOrdinary_of_isBlank (h : line.isBlank) (inBody : Bool) :
    isOrdinary inBody line := by
  refine isOrdinary_of_keyword? (fun word hword => ?_) ?_ ?_ inBody
  · rw [trimStart_of_isBlank h]
    simp only [directiveWords, mem_cons, not_mem_nil, or_false] at hword
    rcases hword with rfl | rfl | rfl | rfl | rfl | rfl <;> rfl
  · rw [isObjectHeading, trim_of_isBlank h]
    rfl
  · rw [isAs, trim_of_isBlank h]
    rfl

/-- Which first characters make a line ordinary, unless it starts with one of the words. -/
theorem isOrdinary_of_head (h : line.trimStart = k :: t)
    (hwords : ∀ word ∈ directiveWords, keyword? word (k :: t) = none) (hk : k ≠ '/')
    (hupper : (upperLetters k).head?.any (· != 'A')) (inBody : Bool) :
    isOrdinary inBody line := by
  have htrim : line.trim = k :: trimEnd t := by
    rw [trim, h, trimEnd_cons (isBlank_of_trimStart h)]
  refine isOrdinary_of_keyword? (h ▸ hwords) ?_ ?_ inBody
  · rw [isObjectHeading, htrim, ← Bool.not_eq_true]
    intro hstart
    obtain ⟨u, hu⟩ := isPrefixOf_iff_prefix.mp hstart
    exact hk (List.cons.inj hu).1.symm
  · rw [isAs, htrim, upper, flatMap_cons, ← Bool.not_eq_true, beq_iff_eq]
    intro heq
    cases hletters : upperLetters k with
    | nil => rw [hletters] at hupper; cases hupper
    | cons a as =>
      rw [hletters] at hupper heq
      have ha : a = 'A' := (List.cons.inj heq).1
      rw [ha] at hupper
      cases hupper

theorem isOrdinary_of_sign (h : line.trimStart = k :: t)
    (hk : k ∈ ['(', ')', '@']) (inBody : Bool) : isOrdinary inBody line := by
  obtain ⟨hslash, hupper, hdiffer⟩ : k ≠ '/' ∧ (upperLetters k).head?.any (· != 'A') ∧
      ∀ word ∈ directiveWords, differ word [k] := by
    simp only [mem_cons, not_mem_nil, or_false] at hk
    rcases hk with rfl | rfl | rfl
    · exact ⟨by decide, rfl, by decide⟩
    · exact ⟨by decide, rfl, by decide⟩
    · exact ⟨by decide, rfl, by decide⟩
  exact isOrdinary_of_head h (fun word hword => keyword?_append_of_differ (hdiffer word hword) t)
    hslash hupper inBody

theorem isOrdinary_of_returns? {clause : Text} (h : returns? line = some clause)
    (inBody : Bool) : isOrdinary inBody line := by
  obtain ⟨rest, hword, -⟩ := bind_eq_some_iff.mp h
  obtain ⟨after, hkeyword, -⟩ := bind_eq_some_iff.mp hword
  obtain ⟨k, l, t, ht, hk, -⟩ := keyword?_first_two hkeyword
  have hr : k = 'r' ∨ k = 'R' := eq_of_letterKey (k := 'r') rfl hk
  refine isOrdinary_of_head ht (fun word hmem => ?_) ?_ ?_ inBody
  · rw [← ht]
    refine keyword?_of_differ ?_ hkeyword
    revert word
    decide
  · rcases hr with rfl | rfl <;> decide
  · rcases hr with rfl | rfl <;> rfl

theorem isGo_of_isAs (h : isAs line) : isGo line = false := by
  have hupper : line.trim.upper = "AS".toList := beq_iff_eq.mp h
  unfold isGo
  cases hkeyword : keyword? "GO".toList line.trimStart with
  | none => rfl
  | some rest =>
    obtain ⟨k, l, t, ht, hk, -⟩ := keyword?_first_two hkeyword
    have hblank := isBlank_of_trimStart ht
    rw [trim, ht, trimEnd_cons hblank, upper, flatMap_cons] at hupper
    rcases eq_of_letterKey (k := 'g') rfl hk with rfl | rfl
    · exact absurd (List.cons.inj hupper).1 (by decide)
    · exact absurd (List.cons.inj hupper).1 (by decide)

/-! ### Reading a script -/

/-- Where the reading of a script stands. -/
structure Reading where
  state : State
  /-- The lines that have not been taken. -/
  ahead : List Text

namespace Reading

/-- **One line is read**, with those that it takes. -/
def next (c : Converter) (r : Reading) : Reading :=
  match r.ahead with
  | [] => r
  | line :: ahead =>
    let outcome := step c r.state line ahead
    ⟨outcome.progress.state, ahead.drop outcome.taken⟩

/-- What the conversion comes to from here. -/
def converted (c : Converter) (r : Reading) : Progress := convertLines c none r.state 0 r.ahead

/-- **The reading `r` goes on to `r'`** in `n` steps, without a fault. -/
structure Leads (c : Converter) (n : ℕ) (r r' : Reading) : Prop where
  steps : (next c)^[n] r = r'
  converted : r.converted c = r'.converted c

variable {r r' r'' : Reading} {n m : ℕ}

theorem Leads.refl (c : Converter) (r : Reading) : Leads c 0 r r := ⟨rfl, rfl⟩

theorem Leads.trans (h : Leads c n r r') (h' : Leads c m r' r'') : Leads c (m + n) r r'' := by
  refine ⟨?_, h.converted.trans h'.converted⟩
  rw [Function.iterate_add_apply, h.steps, h'.steps]

theorem next_cons (h : r.ahead = line :: ahead) : r.next c =
    ⟨(step c r.state line ahead).progress.state, ahead.drop (step c r.state line ahead).taken⟩ := by
  unfold next
  rw [h]

theorem leads_next (h : r.ahead = line :: ahead)
    (hfault : (step c r.state line ahead).progress.fault = none) : Leads c 1 r (r.next c) := by
  refine ⟨rfl, ?_⟩
  unfold Reading.converted
  rw [next_cons h, h, convertLines_of_none hfault, convertLines_skip]

/-! ### Between the lines of a header -/

/-- **Where a header stands** that has found `f`: the routine is still the one that was started, and
nothing has been converted of its body. -/
structure At (r : Reading) (d : Definition) (header : Header.State) (f : Found)
    (ahead : List Text) : Prop where
  header : r.state.header = header
  routine : SameRoutine d r.state.definition
  found : found r.state.definition = f
  body : r.state.body = {}
  ahead : r.ahead = ahead

variable {d : Definition} {header header' : Header.State} {f f' : Found} {rest : List Text}

/-- **One line of the header.** -/
theorem At.next {taken : ℕ} (h : r.At d header f (line :: ahead))
    (hname : d.name.isEmpty = false) (hline : isOrdinary header.inBody line)
    (hstep : (Header.step c.profile c.today header r.state.definition line ahead).Finds taken header'
      f') : Leads c 1 r (r.next c) ∧ (r.next c).At d header' f' (ahead.drop taken) := by
  obtain ⟨hstate, hfound, hconsumed, htaken⟩ := hstep
  have hkeeps := (step_keeps c.profile r.state.definition c.today header line ahead).routine
  have hordinary : step c r.state line ahead =
      routineLine c { r.state with skipGo := false } line ahead :=
    step_of_isOrdinary (by rw [h.header]; exact hline) (by rw [h.routine.name]; exact hname)
  have hroutine : routineLine c { r.state with skipGo := false } line ahead =
      ⟨⟨{ r.state with
        skipGo := false
        header := header'
        definition := (Header.step c.profile c.today header r.state.definition line ahead).definition
        notes := r.state.notes ++
          (Header.step c.profile c.today header r.state.definition line ahead).notes }, none⟩,
        taken⟩ := by
    unfold routineLine
    dsimp only
    rw [h.header, hconsumed, if_pos rfl, hstate, htaken]
    rfl
  have hfault : (step c r.state line ahead).progress.fault = none := by
    rw [hordinary, hroutine]
  refine ⟨leads_next h.ahead hfault, ?_⟩
  rw [next_cons h.ahead, hordinary, hroutine]
  exact ⟨rfl, h.routine.trans hkeeps, hfound, h.body, rfl⟩

end Reading

/-! ### The parts of a header -/

/-- **A comment block** at the head of a routine. -/
structure CommentBlock where
  opening : Text
  inner : List Text
  closing : Text
  opening_starts : opening.startsWith "/*****".toList
  inner_goes_on : ∀ line ∈ inner, line.trimEnd.endsWith "*****/".toList = false
  closing_ends : closing.trimEnd.endsWith "*****/".toList
  ordinary : ∀ line ∈ opening :: (inner ++ [closing]), isOrdinary false line

/-- The lines of a comment block. -/
def CommentBlock.lines (b : CommentBlock) : List Text := b.opening :: (b.inner ++ [b.closing])

/-- The line starts with a variable. -/
def isArgument (line : Text) : Bool := (atName? line.trimStart).isSome

/-- **The usual layout of a routine.** -/
structure Layout where
  create : Text
  start : Create
  comment : Option CommentBlock
  opening : Text
  /-- The arguments and the blank lines among them. -/
  items : List Text
  closing : Text
  returns : Option Text
  /-- The keyword between header and body. -/
  keyword : Text
  /-- The first line of the body. -/
  first : Text
  others : List Text
  create_starts : create? create = some start
  opening_eq : opening.trim = ['(']
  items_eq : ∀ line ∈ items, line.isBlank ∨ isArgument line
  closing_eq : closing.trim = [')']
  returns_type : ∀ line ∈ returns, (writtenType? line).isSome
  returns_iff : returns.isSome ↔ start.kind = .function
  keyword_eq : isAs keyword
  first_visible : first.isBlank = false
  first_ordinary : isOrdinary false first
  others_ordinary : ∀ line ∈ others, isOrdinary true line

namespace Layout

/-- The lines of the header after the first one. -/
def header (l : Layout) : List Text :=
  (l.comment.map CommentBlock.lines).getD [] ++
    l.opening :: (l.items ++ l.closing :: (l.returns.toList ++ [l.keyword]))

/-- The lines of the body. -/
def body (l : Layout) : List Text := l.first :: l.others

/-- The lines of the routine. -/
def lines (l : Layout) : List Text := l.create :: (l.header ++ l.body)

/-- The argument lines. -/
def arguments (l : Layout) : List Text := l.items.filter isArgument

/-- The type that is written, for a function. -/
def type? (l : Layout) : Option Text := l.returns.bind writtenType?

/-- What the header gives. -/
def found (l : Layout) (p : Profile) : Found where
  arguments := l.arguments.map (normalizedArgument p)
  argumentComments := l.arguments.filterMap remark?
  returnType := (l.type?.map (normalizedType p)).getD []

end Layout

namespace Reading

variable {r : Reading} {d : Definition} {f : Found} {rest : List Text}

/-! ### The comment block -/

theorem slash_mem_trim (h : closing.trimEnd.endsWith "*****/".toList) :
    '/' ∈ closing.trim := by
  have hend : "*****/".toList <:+ closing.trimEnd := by
    rw [← reverse_prefix]
    exact isPrefixOf_iff_prefix.mp h
  exact mem_trim (by decide) ((trimEnd_isPrefix closing).subset (hend.subset (by simp)))

theorem isStars_of_closing (h : closing.trimEnd.endsWith "*****/".toList) :
    isStars closing = false := by
  have hslash := slash_mem_trim h
  rw [isStars, ← Bool.not_eq_true, beq_iff_eq]
  intro hstars
  rw [hstars] at hslash
  exact absurd hslash (by decide)

/-- **The rest of a comment block** is read to its end, lines of two stars being taken along. -/
theorem At.commentBlock {closing : Text} (hname : d.name.isEmpty = false)
    (hends : closing.trimEnd.endsWith "*****/".toList)
    (hclosing : isOrdinary false closing) :
    ∀ (inner : List Text) {r : Reading} {dated : Bool},
      (∀ line ∈ inner, line.trimEnd.endsWith "*****/".toList = false ∧ isOrdinary false line) →
      r.At d ⟨.inside dated, .awaited, false⟩ f (inner ++ closing :: rest) →
      ∃ n r', Leads c n r r' ∧ r'.At d ⟨.finished, .awaited, false⟩ f rest
  | [], r, dated, _, h => by
    obtain ⟨hleads, hat⟩ := h.next (c := c) hname hclosing
      (h.found ▸ step_closes_comment hends)
    exact ⟨1, _, hleads, hat⟩
  | line :: inner, r, dated, hinner, h => by
    obtain ⟨hgoesOn, hordinary⟩ := hinner line mem_cons_self
    obtain ⟨dated', hfinds⟩ : ∃ dated', (Header.step c.profile c.today ⟨.inside dated, .awaited, false⟩
        r.state.definition line (inner ++ closing :: rest)).Finds _ ⟨.inside dated', .awaited, false⟩
        (Header.found r.state.definition) := step_inside_comment hgoesOn
    obtain ⟨hleads, hat⟩ := h.next hname hordinary (h.found ▸ hfinds)
    have hothers : ∀ line ∈ inner, line.trimEnd.endsWith "*****/".toList = false ∧
        isOrdinary false line := fun line hline => hinner line (mem_cons_of_mem _ hline)
    by_cases hstars :
        (isBoilerplate line && starsAhead (inner ++ closing :: rest))
    · rw [if_pos hstars] at hat
      cases inner with
      | nil =>
        -- the next line would be the end of the block
        rw [Bool.and_eq_true] at hstars
        have hclose := isStars_of_closing hends
        rw [show isStars closing from hstars.2] at hclose
        cases hclose
      | cons second inner =>
        obtain ⟨n, r', hrest, hat'⟩ := At.commentBlock hname hends hclosing inner
          (fun line hline => hothers line (mem_cons_of_mem _ hline)) hat
        exact ⟨n + 1, r', hleads.trans hrest, hat'⟩
    · rw [if_neg hstars] at hat
      obtain ⟨n, r', hrest, hat'⟩ := At.commentBlock hname hends hclosing inner hothers hat
      exact ⟨n + 1, r', hleads.trans hrest, hat'⟩
  termination_by inner => inner.length

/-! ### The argument list -/

/-- **The arguments are read one by one**, and blank lines among them are passed over. -/
theorem At.items {comment : CommentPhase} (hcomment : ∀ dated, comment ≠ .inside dated)
    (hname : d.name.isEmpty = false) :
    ∀ (items : List Text) {r : Reading} {f : Found},
      (∀ line ∈ items, line.isBlank ∨ isArgument line) →
      r.At d ⟨comment, .inside false, false⟩ f (items ++ rest) →
      ∃ n r', Leads c n r r' ∧ r'.At d ⟨comment, .inside false, false⟩ { f with
          arguments := f.arguments ++
            (items.filter isArgument).map (normalizedArgument c.profile)
          argumentComments := f.argumentComments ++
            (items.filter isArgument).filterMap remark? }
        rest
  | [], r, f, _, h => by
    refine ⟨0, r, .refl c r, ?_⟩
    simpa using h
  | line :: items, r, f, hitems, h => by
    have hothers : ∀ line ∈ items, line.isBlank ∨ isArgument line :=
      fun line hline => hitems line (mem_cons_of_mem _ hline)
    cases hargument : isArgument line with
    | true =>
      obtain ⟨⟨name, after⟩, hname'⟩ := isSome_iff_exists.mp hargument
      have hsign := isOrdinary_of_sign (atName?_spec hname').1 (by simp) false
      obtain ⟨hleads, hat⟩ := h.next hname hsign (step_argument hcomment hname')
      obtain ⟨n, r', hrest, hat'⟩ := At.items hcomment hname items hothers hat
      refine ⟨n + 1, r', hleads.trans hrest, ?_⟩
      rw [append_assoc, append_assoc] at hat'
      have hcomments : (remark? line).toList ++
          (items.filter isArgument).filterMap remark? =
            (line :: items.filter isArgument).filterMap remark? := by
        rw [filterMap_cons]
        cases remark? line <;> rfl
      rw [hcomments] at hat'
      rw [filter_cons_of_pos hargument, ← h.found]
      exact hat'
    | false =>
      have hblank := (hitems line mem_cons_self).resolve_right (Bool.eq_false_iff.mp hargument)
      obtain ⟨hleads, hat⟩ := h.next hname (isOrdinary_of_isBlank hblank false)
        (h.found ▸ step_blank_among_arguments hcomment hblank)
      obtain ⟨n, r', hrest, hat'⟩ := At.items hcomment hname items hothers hat
      rw [filter_cons_of_neg (Bool.eq_false_iff.mp hargument)]
      exact ⟨n + 1, r', hleads.trans hrest, hat'⟩

/-! ### From header to body -/

/-- The keyword between header and body is left out. -/
theorem At.keyword {header : Header.State} {keyword : Text} (h : r.At d header f (keyword :: rest))
    (hheader : header.inBody = false) (hkeyword : isAs keyword) :
    Leads c 1 r (r.next c) ∧ (r.next c).At d header f rest := by
  have hleft : isLeftOut r.state.header.inBody keyword := by
    unfold isLeftOut
    rw [h.header, hheader, hkeyword, Bool.not_false, Bool.and_true, Bool.or_true]
  have hstep : step c r.state keyword rest =
      ⟨⟨{ r.state with skipGo := isBatchLine keyword }, none⟩, 0⟩ := by
    unfold step
    dsimp only
    rw [isGo_of_isAs hkeyword, Bool.and_false, if_neg Bool.false_ne_true, hleft, Bool.or_true,
      if_pos rfl]
  refine ⟨leads_next h.ahead (by rw [hstep]), ?_⟩
  rw [next_cons h.ahead, hstep]
  exact ⟨h.header, h.routine, h.found, h.body, rfl⟩

/-- **The script keeps pace with the feed**: it has the same lines ahead, and its body is as far. -/
structure Feeds (r : Reading) (d : Definition) (f : Feed) : Prop where
  definition : r.state.definition = { d with body := f.body, localVariables := f.locals }
  body : r.state.body = f.state
  ahead : r.ahead = f.ahead

/-- **A line that does not belong to the header is handed to the conversion of the body.** -/
theorem Feeds.next {feed : Feed} {header : Header.State} (h : r.Feeds d feed)
    (hfeed : feed.ahead = line :: ahead) (hname : d.name.isEmpty = false)
    (hline : isOrdinary r.state.header.inBody line)
    (hover : Header.step c.profile c.today r.state.header r.state.definition line ahead =
      ⟨header, r.state.definition, false, 0, []⟩) :
    Leads c 1 r (r.next c) ∧ (r.next c).Feeds d (feed.next c.profile d.name) ∧
      (r.next c).state.header = header := by
  have hahead : r.ahead = line :: ahead := h.ahead.trans hfeed
  have hordinary : step c r.state line ahead =
      routineLine c { r.state with skipGo := false } line ahead :=
    step_of_isOrdinary hline (by rw [h.definition]; exact hname)
  have hroutine : routineLine c { r.state with skipGo := false } line ahead =
      ⟨⟨{ r.state with
        skipGo := false
        header
        body := (Body.step c.profile d.name feed.state line ahead).state
        definition := { d with
          body := (feed.next c.profile d.name).body
          localVariables := (feed.next c.profile d.name).locals }
        notes := r.state.notes ++ [] ++ (Body.step c.profile d.name feed.state line ahead).notes },
        none⟩,
        (Body.step c.profile d.name feed.state line ahead).taken⟩ := by
    unfold routineLine
    dsimp only
    rw [hover, Feed.next_cons hfeed, h.definition, h.body]
    rfl
  refine ⟨leads_next hahead (by rw [hordinary, hroutine]), ?_⟩
  rw [next_cons hahead, hordinary, hroutine]
  refine ⟨⟨rfl, ?_, ?_⟩, rfl⟩
  · rw [Feed.next_cons hfeed]
    rfl
  · rw [Feed.next_cons hfeed]
    rfl

end Reading

/-- A longer rest of the lines starts before the last ones. -/
theorem mem_of_suffix {line : Text} {ahead rest : List Text}
    (h : line :: ahead <:+ others ++ rest) (hlength : rest.length < (line :: ahead).length) :
    line ∈ others := by
  obtain ⟨x, hx⟩ := h
  rcases append_eq_append_iff.mp hx with ⟨y, rfl, hy⟩ | ⟨y, rfl, hy⟩
  · cases y with
    | nil => rw [hy] at hlength; simp at hlength
    | cons k y =>
      rw [(List.cons.inj hy).1]
      simp
  · rw [hy, length_append] at hlength
    omega

/-! ### The whole header -/

namespace Layout

variable {rest : List Text} (l : Layout)

/-- The line that starts the routine. -/
theorem begins (hstart : (step c s l.create (l.header ++ (l.body ++ rest))).progress.fault = none) :
    ∃ r skip, Reading.Leads c 1 ⟨s, l.lines ++ rest⟩ r ∧
      r.At (l.start.definition c skip) {} {} (l.header ++ (l.body ++ rest)) := by
  have hlines : (⟨s, l.lines ++ rest⟩ : Reading).ahead =
      l.create :: (l.header ++ (l.body ++ rest)) := by
    simp [lines]
  have hleads := Reading.leads_next hlines hstart
  rw [step_of_create? l.create_starts] at hstart
  obtain ⟨skip, -, -, hbegin⟩ := startRoutine_of_none hstart
  refine ⟨_, skip, hleads, ?_⟩
  rw [Reading.next_cons hlines, step_of_create? l.create_starts, hbegin]
  exact ⟨rfl, .refl _, rfl, rfl, rfl⟩

/-- The comment block, if there is one. -/
theorem passes_comment (hname : d.name.isEmpty = false)
    (h : r.At d {} f ((l.comment.map CommentBlock.lines).getD [] ++ others)) :
    ∃ n r' comment, (∀ dated, comment ≠ CommentPhase.inside dated) ∧ Reading.Leads c n r r' ∧
      r'.At d ⟨comment, .awaited, false⟩ f others := by
  cases hcomment : l.comment with
  | none =>
    rw [hcomment] at h
    exact ⟨0, r, .awaited, nofun, .refl c r, h⟩
  | some b =>
    rw [hcomment, map_some, getD_some, CommentBlock.lines, cons_append,
      append_assoc, singleton_append] at h
    obtain ⟨hleads, hat⟩ := h.next (c := c) hname (b.ordinary _ mem_cons_self)
      (h.found ▸ step_opens_comment b.opening_starts)
    obtain ⟨n, r', hblock, hat'⟩ := Reading.At.commentBlock (c := c) hname b.closing_ends
      (b.ordinary _ (by simp)) b.inner
      (fun line hline => ⟨b.inner_goes_on line hline, b.ordinary line (by simp [hline])⟩) hat
    exact ⟨n + 1, r', .finished, nofun, hleads.trans hblock, hat'⟩

/-- The type that a function returns. -/
theorem reads_type {comment : CommentPhase} (hcomment : ∀ dated, comment ≠ .inside dated)
    (hname : d.name.isEmpty = false) (hkind : d.kind = l.start.kind) (hnew : f.returnType = [])
    (h : r.At d ⟨comment, .finished false, false⟩ f (l.returns.toList ++ others)) :
    ∃ n r', Reading.Leads c n r r' ∧ r'.At d ⟨comment, .finished false, false⟩
      { f with returnType := (l.found c.profile).returnType } others := by
  unfold found type?
  cases hreturns : l.returns with
  | none =>
    rw [hreturns] at h
    refine ⟨0, r, .refl c r, ?_⟩
    rw [bind_none, map_none, getD_none, ← hnew]
    exact h
  | some line =>
    rw [hreturns] at h
    obtain ⟨type, htype⟩ := isSome_iff_exists.mp (l.returns_type line hreturns)
    obtain ⟨clause, hclause, -⟩ := bind_eq_some_iff.mp htype
    have hfunction : d.kind = .function := hkind.trans (l.returns_iff.mp (by rw [hreturns]; rfl))
    have hempty : r.state.definition.returnType = [] := by
      rw [← hnew, ← h.found]
      rfl
    obtain ⟨hleads, hat⟩ := h.next (c := c) hname (isOrdinary_of_returns? hclause false)
      (step_returns hcomment (h.routine.kind.trans hfunction) hempty htype)
    refine ⟨1, _, hleads, ?_⟩
    rw [bind_some, htype, map_some, getD_some]
    rw [h.found] at hat
    exact hat

/-- **The header is read up to the body.** -/
theorem header_read
    (hstart : (step c s l.create (l.header ++ (l.body ++ rest))).progress.fault = none) :
    ∃ n r skip comment, (∀ dated, comment ≠ CommentPhase.inside dated) ∧
      Reading.Leads c n ⟨s, l.lines ++ rest⟩ r ∧ r.At (l.start.definition c skip)
        ⟨comment, .finished false, false⟩ (l.found c.profile) (l.body ++ rest) := by
  obtain ⟨r₀, skip, hleads₀, hat₀⟩ := l.begins hstart
  have hname : (l.start.definition c skip).name.isEmpty = false := by simp [Create.definition]
  unfold header at hat₀
  rw [append_assoc] at hat₀
  obtain ⟨n₁, r₁, comment, hcomment, hleads₁, hat₁⟩ := l.passes_comment (c := c) hname hat₀
  -- the argument list
  obtain ⟨u, hu⟩ := head_of_trim l.opening_eq
  obtain ⟨hleads₂, hat₂⟩ := hat₁.next (c := c) hname (isOrdinary_of_sign hu (by simp) false)
    (hat₁.found ▸ step_opens_arguments hcomment l.opening_eq)
  rw [drop_zero, append_eq, append_assoc] at hat₂
  obtain ⟨n₃, r₃, hleads₃, hat₃⟩ := Reading.At.items hcomment hname l.items l.items_eq hat₂
  obtain ⟨u, hu⟩ := head_of_trim l.closing_eq
  obtain ⟨hleads₄, hat₄⟩ := hat₃.next (c := c) hname (isOrdinary_of_sign hu (by simp) false)
    (hat₃.found ▸ step_closes_arguments hcomment l.closing_eq)
  rw [drop_zero, append_eq, append_assoc, singleton_append] at hat₄
  -- the type and the keyword
  obtain ⟨n₅, r₅, hleads₅, hat₅⟩ := l.reads_type (c := c) hcomment hname rfl rfl hat₄
  obtain ⟨hleads₆, hat₆⟩ := hat₅.keyword (c := c) rfl l.keyword_eq
  exact ⟨_, _, skip, comment, hcomment, hleads₀.trans (hleads₁.trans (hleads₂.trans (hleads₃.trans
    (hleads₄.trans (hleads₅.trans hleads₆))))), hat₆⟩

/-! ### The body -/

/-- The conversion of the body after `k` calls that are given its lines one after the other. -/
def feed (c : Converter) (name : Text) (rest : List Text) (k : ℕ) : Feed :=
  (Feed.next c.profile name)^[k] { ahead := l.body ++ rest }

theorem definition_eq (hbody : d.body = []) (hlocals : d.localVariables = []) :
    d = { d with body := [], localVariables := [] } := by
  cases d
  cases hbody
  cases hlocals
  rfl

/-- **The body is converted call by call**, as long as a call starts at one of its lines. -/
theorem body_read {r : Reading} {d : Definition} {comment : CommentPhase} {f : Found}
    (hcomment : ∀ dated, comment ≠ .inside dated)
    (h : r.At d ⟨comment, .finished false, false⟩ f (l.body ++ rest))
    (hname : d.name.isEmpty = false) (hbody : d.body = []) (hlocals : d.localVariables = [])
    (hdone : d.kind = .procedure ∨ f.returnType ≠ []) :
    ∀ k, (∀ j < k, rest.length < (l.feed c d.name rest j).ahead.length) →
      ∃ r', Reading.Leads c k r r' ∧ r'.Feeds r.state.definition (l.feed c d.name rest k) ∧
        (r'.state.header.inBody ↔ 0 < k)
  | 0, _ => by
    refine ⟨r, .refl c r, ⟨?_, h.body, h.ahead⟩, ?_⟩
    · exact definition_eq (h.routine.body.trans hbody) (h.routine.localVariables.trans hlocals)
    · rw [h.header]
      simp
  | k + 1, hcalls => by
    obtain ⟨r', hleads, hfeeds, hin⟩ := body_read hcomment h hname hbody hlocals hdone k
      fun j hj => hcalls j (Nat.lt_succ_of_lt hj)
    have hlength := hcalls k (Nat.lt_succ_self k)
    obtain ⟨line, ahead, hahead⟩ : ∃ line ahead, (l.feed c d.name rest k).ahead = line :: ahead :=
      exists_cons_of_ne_nil (ne_nil_of_length_pos (by omega))
    have hname' : r.state.definition.name.isEmpty = false := by rw [h.routine.name]; exact hname
    have hfeed : (l.feed c d.name rest k).next c.profile r.state.definition.name =
        l.feed c d.name rest (k + 1) := by
      rw [h.routine.name]
      exact (Function.iterate_succ_apply' ..).symm
    -- the first line ends the header, the others find it ended
    obtain ⟨header, hheader, hline, hover⟩ : ∃ header : Header.State, header.inBody ∧
        isOrdinary r'.state.header.inBody line ∧
        Header.step c.profile c.today r'.state.header r'.state.definition line ahead =
          ⟨header, r'.state.definition, false, 0, []⟩ := by
      cases k with
      | zero =>
        obtain rfl : r = r' := hleads.steps
        obtain ⟨rfl, -⟩ : l.first = line ∧ _ := List.cons.inj hahead
        have htype : r.state.definition.returnType = f.returnType := congrArg (·.returnType) h.found
        have hdone' : r.state.definition.kind = .procedure ∨ r.state.definition.returnType ≠ [] :=
          hdone.imp h.routine.kind.trans fun hne => htype ▸ hne
        rw [h.header]
        exact ⟨_, rfl, l.first_ordinary, step_over hcomment hdone' l.first_visible⟩
      | succ k =>
        have hended : r'.state.header.inBody := hin.mpr (Nat.succ_pos k)
        have hmem : line ∈ l.others := by
          refine mem_of_suffix ?_ (hahead ▸ hlength)
          rw [← hahead]
          exact Feed.ahead_iterate_suffix c.profile d.name { ahead := l.body ++ rest } k
        refine ⟨r'.state.header, hended, ?_, if_pos hended⟩
        rw [hended]
        exact l.others_ordinary line hmem
    obtain ⟨hnext, hfeeds', hstate⟩ := hfeeds.next hahead hname' hline hover
    rw [hfeed] at hfeeds'
    refine ⟨r'.next c, Nat.add_comm _ _ ▸ hleads.trans hnext, hfeeds', ?_⟩
    rw [hstate, hheader]
    simp

/-- **The type is set for functions only**, unless the renames of functions leave nothing of it. -/
theorem returnType_found_iff {p : Profile}
    (hkept : ¬p.KeepsText → ∀ type ∈ l.type?, normalizedType p type ≠ []) :
    (l.found p).returnType ≠ [] ↔ l.start.kind = .function := by
  rw [← l.returns_iff]
  unfold found
  cases hreturns : l.returns with
  | none => simp [type?, hreturns]
  | some line =>
    obtain ⟨type, htype⟩ := isSome_iff_exists.mp (l.returns_type line hreturns)
    have hwritten : l.type? = some type := by rw [type?, hreturns, bind_some, htype]
    have hne : normalizedType p type ≠ [] := by
      by_cases hkeeps : p.KeepsText
      · exact normalizedType_ne_nil hkeeps htype
      · exact hkept hkeeps type hwritten
    rw [hwritten, map_some, getD_some]
    exact ⟨fun _ => rfl, fun _ => hne⟩

/-- There is a call that is the first not to start at a line of the body. -/
theorem exists_last_call (c : Converter) (name : Text) (rest : List Text) :
    ∃ m, (∀ k < m, rest.length < (l.feed c name rest k).ahead.length) ∧
      (l.feed c name rest m).ahead.length ≤ rest.length := by
  have hend : ∃ m, (l.feed c name rest m).ahead.length ≤ rest.length := by
    refine ⟨l.body.length, ?_⟩
    have hle := Feed.length_ahead_iterate_le c.profile name { ahead := l.body ++ rest } l.body.length
    simp only [length_append, Nat.add_sub_cancel_left] at hle
    exact hle
  exact ⟨Nat.find hend, fun k hk => Nat.lt_of_not_le (Nat.find_min hend hk), Nat.find_spec hend⟩

end Layout

/-- **The header has been read, and nothing else**: what it gives, and that the body is ahead. -/
structure Layout.Splits (l : Layout) (c : Converter) (rest : List Text) (r : Reading) : Prop where
  ahead : r.ahead = l.body ++ rest
  /-- No line has been handed to the conversion of the body. -/
  inBody : r.state.header.inBody = false
  name : r.state.definition.name = c.profile.schema ++ '.' :: objectName (qualifiedName l.start.rest)
  kind : r.state.definition.kind = l.start.kind
  arguments : r.state.definition.arguments = l.arguments.map (normalizedArgument c.profile)
  argumentComments : r.state.definition.argumentComments = l.arguments.filterMap remark?
  returnType : r.state.definition.returnType = (l.type?.map (normalizedType c.profile)).getD []
  returnType_iff : r.state.definition.returnType ≠ [] ↔ l.start.kind = .function

/-- **The header of a routine in the usual layout ends where the body starts.** Whatever stands before
and after the routine, if it can be started then its header is read up to the body. The arguments are
those of the argument lines, in order, with the comments that they have, and the type is set for a
function and for nothing else, provided that renames to nothing, if the profile has any, leave something
of it. From there on the script keeps pace with the conversion of the body, up to the first call that
does not start at a line of the body. -/
theorem layout_split (c : Converter) (s : State) (l : Layout) (rest : List Text)
    (hkept : ¬c.profile.KeepsText → ∀ type ∈ l.type?, Header.normalizedType c.profile type ≠ [])
    (hstart : (step c s l.create (l.header ++ (l.body ++ rest))).progress.fault = none) :
    ∃ n r, Reading.Leads c n ⟨s, l.lines ++ rest⟩ r ∧ l.Splits c rest r ∧
      ∃ m, (∀ k < m, rest.length < (l.feed c r.state.definition.name rest k).ahead.length) ∧
        (l.feed c r.state.definition.name rest m).ahead.length ≤ rest.length ∧
        ∀ k ≤ m, ∃ r', Reading.Leads c k r r' ∧
          r'.Feeds r.state.definition (l.feed c r.state.definition.name rest k) ∧
          (r'.state.header.inBody = true ↔ 0 < k) := by
  obtain ⟨n, r, skip, comment, hcomment, hleads, hat⟩ := l.header_read (c := c) hstart
  have htype := l.returnType_found_iff hkept
  have hreturn : r.state.definition.returnType = (l.found c.profile).returnType :=
    congrArg (·.returnType) hat.found
  have hsplits : l.Splits c rest r := {
    ahead := hat.ahead
    inBody := by rw [hat.header]
    name := hat.routine.name
    kind := hat.routine.kind
    arguments := congrArg (·.arguments) hat.found
    argumentComments := congrArg (·.argumentComments) hat.found
    returnType := hreturn
    returnType_iff := by rw [hreturn]; exact htype }
  have hdone : l.start.kind = .procedure ∨ (l.found c.profile).returnType ≠ [] := by
    cases hkind : l.start.kind with
    | procedure => exact .inl rfl
    | function => exact .inr (htype.mpr hkind)
  obtain ⟨m, hcalls, hend⟩ := l.exists_last_call c r.state.definition.name rest
  refine ⟨n, r, hleads, hsplits, m, hcalls, hend, fun k hk => ?_⟩
  rw [hat.routine.name] at hcalls ⊢
  exact l.body_read hcomment hat (by simp [Create.definition]) rfl rfl hdone k
    fun j hj => hcalls j (hj.trans_le hk)

/-- A function whose body starts with lines that would belong to a header. -/
def totalFunction : Layout where
  create := "CREATE FUNCTION dbo.Total".toList
  start := ⟨.function, "dbo.Total".toList⟩
  comment := some {
    opening := "/*****".toList
    inner := ["** Return values: 0: success, otherwise, error code".toList, "**".toList]
    closing := "*****/".toList
    opening_starts := by decide +kernel
    inner_goes_on := by decide +kernel
    closing_ends := by decide +kernel
    ordinary := by decide +kernel }
  opening := "(".toList
  items := ["\t@first int, -- the start".toList, [], "  @second varchar(20) output".toList]
  closing := " )".toList
  returns := some "RETURNS varchar(50) -- a text".toList
  keyword := "As".toList
  first := "(".toList
  others := ["@third int".toList, "RETURNS int".toList, "/*****".toList]
  create_starts := by decide +kernel
  opening_eq := by decide +kernel
  items_eq := by decide +kernel
  closing_eq := by decide +kernel
  returns_type := by decide +kernel
  returns_iff := by decide +kernel
  keyword_eq := by decide +kernel
  first_visible := by decide +kernel
  first_ordinary := by decide +kernel
  others_ordinary := by decide +kernel

theorem layout_split_totalFunction :
    let c : Converter := ⟨.standard, none, ⟨2025, 3, 9⟩⟩
    let l := totalFunction
    (c.profile.KeepsText ∧ (step c {} l.create (l.header ++ (l.body ++ []))).progress.fault = none) ∧
      ∃ n r, Reading.Leads c n ⟨{}, l.lines ++ []⟩ r ∧ r.ahead = l.body ∧
        r.state.definition.arguments = ["_first int,".toList, "INOUT _second text".toList] ∧
        r.state.definition.argumentComments = [("_first".toList, "the start".toList)] ∧
        r.state.definition.returnType = "text".toList := by
  intro c l
  have hkeeps : c.profile.KeepsText := by
    unfold Profile.KeepsText
    decide +kernel
  have hstart : (step c {} l.create (l.header ++ (l.body ++ []))).progress.fault = none :=
    Option.isNone_iff_eq_none.mp (by decide +kernel)
  obtain ⟨n, r, hleads, hsplits, -⟩ := layout_split c {} l [] (fun h => absurd hkeeps h) hstart
  have hfound : l.arguments.map (Header.normalizedArgument c.profile) =
        ["_first int,".toList, "INOUT _second text".toList] ∧
      l.arguments.filterMap Header.remark? = [("_first".toList, "the start".toList)] ∧
      (l.type?.map (Header.normalizedType c.profile)).getD [] = "text".toList := by
    decide +kernel
  refine ⟨⟨hkeeps, hstart⟩, n, r, hleads, by rw [hsplits.ahead, List.append_nil], ?_⟩
  rw [hsplits.arguments, hsplits.argumentComments, hsplits.returnType]
  exact hfound

end SqlRoutine.Script

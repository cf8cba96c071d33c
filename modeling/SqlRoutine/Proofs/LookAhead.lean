import Mathlib.Tactic
import SqlRoutine.Body.Step
import SqlRoutine.LineSource
import SqlRoutine.Routine.Header

/-! # How far a line looks ahead

A line of a header or a body may take some of the lines ahead along: of a header one at most, of a body
three, and no more than there are (`Header.step_taken_le`, `Body.step_taken_le`).

A line of a header sees the next line only (`Header.step_cons`). A line of a body may see more, but what
stands after the lines ahead does not show (`Body.step_append`), if they are `Enough`: four of them, or
at least one, when the last is no `Else` and the line after them is **unrelated**, neither `Begin` nor
`Else` nor `FROM`. Only that a line was asked for after the last one is noted differently, which is no
record. So **the look ahead is bounded** (`step_lookAhead_bounded`). -/

namespace SqlRoutine

open List

variable {done : Guarded} {ahead rest : List Text} {next next' : List Text → Guarded} {p : Profile}
  {indent line name : Text} {α : Type}

/-- The records among notes. -/
def Note.records (notes : List Note) : List Record := notes.filterMap Note.record?

@[simp]
theorem Note.records_append (a b : List Note) :
    Note.records (a ++ b) = Note.records a ++ Note.records b := filterMap_append ..

@[simp]
theorem Note.records_lookAhead (n : ℕ) (ahead : List Text) :
    Note.records (Note.lookAhead n ahead) = [] := by
  unfold Note.lookAhead; split_ifs <;> rfl

theorem Note.shown_eq (level : Level) (notes : List Note) :
    Note.shown level notes = (Note.records notes).filter fun r => level.shows r.level := rfl

theorem Note.lookAhead_one_cons (line : Text) (rest : List Text) :
    Note.lookAhead 1 (line :: rest) = [] := by
  simp [Note.lookAhead]

/-- The values are the same, and so are the records. -/
structure Noted.Alike {α : Type} (a b : Noted α) : Prop where
  value : a.value = b.value
  records : Note.records a.notes = Note.records b.notes

theorem Noted.Alike.refl (a : Noted α) : a.Alike a := ⟨rfl, rfl⟩

theorem Noted.Alike.bind {β : Type} {a b : Noted α} {f g : α → Noted β} (h : a.Alike b)
    (hnext : ∀ x, (f x).Alike (g x)) : (a >>= f).Alike (b >>= g) where
  value := by rw [Noted.value_bind, Noted.value_bind, h.value, (hnext _).value]
  records := by
    simp only [Noted.notes_bind, Note.records_append, h.value, h.records, (hnext _).records]

/-! ### Lines of a header -/

namespace Header

variable {p : Profile}

theorem setReturnType?_taken_le {d d' : Definition} {taken : ℕ}
    {notes : List Note} (h : setReturnType? p d line ahead = some (d', taken, notes)) :
    taken ≤ min 1 ahead.length := by
  unfold setReturnType? at h
  split_ifs at h with hkind
  obtain ⟨clause, -, heq⟩ := Option.map_eq_some_iff.mp h
  dsimp only at heq
  split_ifs at heq with hempty
  · obtain ⟨-, rfl, -⟩ := by simpa only [Prod.mk.injEq] using heq
    exact le_rfl
  · obtain ⟨-, rfl, -⟩ := by simpa only [Prod.mk.injEq] using heq
    exact Nat.zero_le _

theorem afterArguments_taken_le (s : State) (d : Definition) (line : Text) (ahead : List Text) :
    (afterArguments p s d line ahead).taken ≤ min 1 ahead.length := by
  unfold afterArguments
  split
  · exact setReturnType?_taken_le ‹_›
  · split_ifs <;> exact Nat.zero_le _

theorem argumentLine_taken_le (s : State) (bare : Bool) (d : Definition) (line : Text)
    (ahead : List Text) : (argumentLine p s bare d line ahead).taken ≤ min 1 ahead.length := by
  unfold argumentLine
  dsimp only
  split_ifs with hbare
  · exact afterArguments_taken_le ..
  · split
    · split_ifs with hrest
      · exact Nat.zero_le _
      · split
        · exact setReturnType?_taken_le ‹_›
        · exact Nat.zero_le _
    · split
      · exact setReturnType?_taken_le ‹_›
      · exact Nat.zero_le _

theorem outsideComment_taken_le (s : State) (d : Definition) (line : Text) (ahead : List Text) :
    (outsideComment p s d line ahead).taken ≤ min 1 ahead.length := by
  unfold outsideComment
  split
  · unfold beforeArguments
    split
    · exact Nat.zero_le _
    · exact Nat.zero_le _
    · exact Nat.zero_le _
    · exact afterArguments_taken_le ..
  · exact argumentLine_taken_le ..
  · exact afterArguments_taken_le ..

theorem commentLine_taken_le (today : Date) (s : State) (dated : Bool) (d : Definition) (line : Text)
    (ahead : List Text) : (commentLine today s dated d line ahead).taken ≤ min 1 ahead.length := by
  unfold commentLine
  dsimp only
  split_ifs with hboilerplate hstars
  · cases ahead with
    | nil => exact absurd hstars (by simp [starsAhead])
    | cons next rest => exact Nat.le_min.mpr ⟨le_rfl, Nat.le_add_left ..⟩
  all_goals first | exact Nat.zero_le _ | (split <;> exact Nat.zero_le _)

/-- **A line of a header takes one line along at most.** -/
theorem step_taken_le (today : Date) (s : State) (d : Definition) (line : Text)
    (ahead : List Text) : (step p today s d line ahead).taken ≤ min 1 ahead.length := by
  unfold step
  by_cases hbody : s.inBody
  · rw [if_pos hbody]
    exact Nat.zero_le _
  · rw [if_neg hbody]
    cases s.comment with
    | inside dated =>
      dsimp only
      split_ifs with hend
      · exact Nat.zero_le _
      · exact commentLine_taken_le ..
    | awaited =>
      dsimp only
      split_ifs with hstart
      · exact Nat.zero_le _
      · exact outsideComment_taken_le ..
    | finished => exact outsideComment_taken_le ..

variable {next : Text} (rest rest' : List Text)

theorem setReturnType?_cons (d : Definition) (line : Text) :
    setReturnType? p d line (next :: rest) = setReturnType? p d line (next :: rest') := by
  have hmin : ∀ rest : List Text, min 1 (next :: rest).length = 1 := fun rest => by simp
  simp only [setReturnType?, headD_cons, hmin, Note.lookAhead_one_cons]

theorem afterArguments_cons (s : State) (d : Definition) (line : Text) :
    afterArguments p s d line (next :: rest) = afterArguments p s d line (next :: rest') := by
  unfold afterArguments
  rw [setReturnType?_cons rest rest']

theorem argumentLine_cons (s : State) (bare : Bool) (d : Definition) (line : Text) :
    argumentLine p s bare d line (next :: rest) = argumentLine p s bare d line (next :: rest') := by
  unfold argumentLine
  simp only [afterArguments_cons rest rest',
    setReturnType?_cons rest rest']

theorem outsideComment_cons (s : State) (d : Definition) (line : Text) :
    outsideComment p s d line (next :: rest) = outsideComment p s d line (next :: rest') := by
  unfold outsideComment beforeArguments
  simp only [afterArguments_cons rest rest',
    argumentLine_cons rest rest']

theorem commentLine_cons (today : Date) (s : State) (dated : Bool) (d : Definition) (line : Text) :
    commentLine today s dated d line (next :: rest) =
      commentLine today s dated d line (next :: rest') := by
  have hstars : starsAhead (next :: rest) = starsAhead (next :: rest') := rfl
  unfold commentLine
  rw [hstars, Note.lookAhead_one_cons, Note.lookAhead_one_cons]

/-- **A line of a header sees the next line only.** -/
theorem step_cons (today : Date) (s : State) (d : Definition) (line : Text) :
    step p today s d line (next :: rest) = step p today s d line (next :: rest') := by
  unfold step
  simp only [commentLine_cons rest rest',
    outsideComment_cons rest rest']

end Header

/-! ### Lines of a body: no more lines are taken than there are -/

namespace Body

theorem Guarded.andThen_taken_le {m n : ℕ} (hdone : done.taken ≤ min m ahead.length)
    (hnext : (next (ahead.drop done.taken)).taken ≤ min n (ahead.drop done.taken).length) :
    (done.andThen ahead next).taken ≤ min (m + n) ahead.length := by
  rw [length_drop] at hnext
  simp only [Guarded.andThen]
  omega

theorem guarded_taken_le {n : ℕ} (hnext : ∀ ahead, (next ahead).taken ≤ min n ahead.length)
    (ahead : List Text) : (guarded p name ahead next).taken ≤ min (1 + n) ahead.length := by
  unfold guarded
  rcases ahead with _ | ⟨line, rest⟩
  · exact Nat.zero_le _
  · have hone : 1 ≤ min 1 (line :: rest).length := Nat.le_min.mpr ⟨le_rfl, Nat.le_add_left ..⟩
    dsimp only
    split_ifs with hbegin
    · exact hone.trans (min_le_min_right _ (Nat.le_add_right ..))
    · rw [← Nat.zero_add (1 + n)]
      refine Guarded.andThen_taken_le (Nat.zero_le _) ?_
      exact Guarded.andThen_taken_le hone (hnext _)

theorem elseOr_taken_le {otherwise : Guarded} (hnone : otherwise.taken = 0) (ahead : List Text) :
    (elseOr p name indent ahead otherwise).taken ≤ min 2 ahead.length := by
  unfold elseOr
  rcases ahead with _ | ⟨line, rest⟩
  · exact hnone.le
  · dsimp only
    split_ifs with helse
    · refine Guarded.andThen_taken_le (m := 0) (n := 2) (Nat.zero_le _) ?_
      have hone : 1 ≤ min 1 (line :: rest).length := Nat.le_min.mpr ⟨le_rfl, Nat.le_add_left ..⟩
      refine Guarded.andThen_taken_le (m := 1) (n := 1) hone ?_
      exact guarded_taken_le (n := 0) (fun _ => Nat.zero_le _) _
    · exact hnone.le.trans (Nat.zero_le _)

theorem undeclaredLine_taken_le (p : Profile) (name : Text) (s : State) (line : Text)
    (ahead : List Text) : (undeclaredLine p name s line ahead).taken ≤ min 3 ahead.length := by
  have hplain : (plainLine p s line ahead).taken = 0 := by
    unfold plainLine otherLine
    split
    · rfl
    · split
      · rfl
      · split
        · rfl
        · split_ifs <;> rfl
  unfold undeclaredLine
  split
  · rename_i block blocks extra _ _
    cases block with
    | whileLoop => exact Nat.zero_le _
    | ifBlock => exact (elseOr_taken_le rfl ahead).trans (min_le_min_right _ (Nat.le_succ 2))
  · split_ifs with hif hwhile
    · exact guarded_taken_le (fun _ => elseOr_taken_le rfl _) ahead
    · rcases ahead with _ | ⟨next, rest⟩
      · exact Nat.zero_le _
      · simp only [whileLine, length_cons]
        split_ifs <;> omega
    · exact hplain.le.trans (Nat.zero_le _)

/-- **A line takes three lines along at most**, and no more than there are. -/
theorem step_taken_le (p : Profile) (name : Text) (s : State) (line : Text) (ahead : List Text) :
    (step p name s line ahead).taken ≤ min 3 ahead.length := by
  simp only [step]
  split_ifs with hblank
  · exact Nat.zero_le _
  · split
    · exact Nat.zero_le _
    · exact undeclaredLine_taken_le ..

/-! ### Lines of a body: what stands after the lines ahead -/

/-- The line has nothing to do with the lines before it. -/
structure Unrelated (line : Text) : Prop where
  notBegin : isBegin line = false
  notElse : isElse line = false
  notFrom : fromAhead [line] = false

/-- The outcomes differ at most in notes that are no records. -/
structure Outcome.Alike (a b : Outcome) : Prop where
  state : a.state = b.state
  lines : a.lines = b.lines
  locals : a.locals = b.locals
  taken : a.taken = b.taken
  records : Note.records a.notes = Note.records b.notes

theorem Outcome.Alike.refl (a : Outcome) : a.Alike a := ⟨rfl, rfl, rfl, rfl, rfl⟩

theorem Outcome.Alike.symm {a b : Outcome} (h : a.Alike b) : b.Alike a :=
  ⟨h.state.symm, h.lines.symm, h.locals.symm, h.taken.symm, h.records.symm⟩

theorem Outcome.Alike.trans {a b c : Outcome} (h : a.Alike b) (h' : b.Alike c) : a.Alike c :=
  ⟨h.state.trans h'.state, h.lines.trans h'.lines, h.locals.trans h'.locals, h.taken.trans h'.taken,
    h.records.trans h'.records⟩

/-- The same of what comes of guarded lines. -/
structure Guarded.Alike (a b : Guarded) : Prop where
  lines : a.lines = b.lines
  taken : a.taken = b.taken
  opened : a.opened = b.opened
  records : Note.records a.notes = Note.records b.notes

theorem Guarded.Alike.refl (a : Guarded) : a.Alike a := ⟨rfl, rfl, rfl, rfl⟩

theorem Guarded.Alike.andThen {done' : Guarded} {ahead' : List Text} (hdone : done.Alike done')
    (hnext : (next (ahead.drop done.taken)).Alike (next' (ahead'.drop done'.taken))) :
    (done.andThen ahead next).Alike (done'.andThen ahead' next') where
  lines := by simp only [Guarded.andThen, hdone.lines, hnext.lines]
  taken := by simp only [Guarded.andThen]; rw [hnext.taken, hdone.taken]
  opened := hnext.opened
  records := by simp only [Guarded.andThen, Note.records_append, hdone.records, hnext.records]

/-- An `Else` is not the last of the lines ahead. -/
def NoLastElse (ahead : List Text) : Prop := ∀ last ∈ ahead.getLast?, isElse last = false

/-- **The lines ahead show what matters**: there are `n` of them, or what stands after them is unrelated
and they do not end with an `Else`. -/
def Enough (n : ℕ) (ahead others : List Text) : Prop :=
  n ≤ ahead.length ∨ (∀ next ∈ others.head?, Unrelated next) ∧ NoLastElse ahead

variable {p : Profile} {name : Text} {ahead others : List Text} {n : ℕ}

theorem Enough.tail (h : Enough (n + 1) (line :: rest) others) : Enough n rest others := by
  refine h.imp Nat.le_of_succ_le_succ (And.imp_right fun hlast last hin => ?_)
  cases rest with
  | nil => simp at hin
  | cons next rest => exact hlast last (by rwa [getLast?_cons_cons])

/-- Where the lines ahead end, an unrelated line may follow. -/
theorem Enough.head (h : Enough (n + 1) [] others) : ∀ next ∈ others.head?, Unrelated next :=
  (h.resolve_left (Nat.not_succ_le_zero n)).1

theorem fromAhead_append (h : Enough (n + 1) ahead others) :
    fromAhead (ahead ++ others) = fromAhead ahead := by
  cases ahead with
  | nil =>
    cases others with
    | nil => rfl
    | cons next others => exact (h.head next rfl).notFrom
  | cons line rest => rfl

theorem convertSelect_append (h : Enough (n + 1) ahead others) (indent modifiers : Text)
    (items : List (Text × Text)) (clause comment : Text) :
    (convertSelect p indent modifiers items clause comment ahead).Alike
      (convertSelect p indent modifiers items clause comment (ahead ++ others)) := by
  unfold convertSelect
  rw [fromAhead_append h]
  refine Noted.Alike.bind (.refl _) fun kept => ?_
  rcases kept with _ | ⟨⟨target, value⟩, others⟩
  · exact .refl _
  · refine Noted.Alike.bind ⟨rfl, ?_⟩ fun _ => .refl _
    simp only [Noted.tell, Note.records_lookAhead]

theorem Statement.convert_append (h : Enough (n + 1) ahead others) (statement : Statement) :
    (statement.convert p ahead).Alike (statement.convert p (ahead ++ others)) := by
  cases statement with
  | select indent modifiers items clause comment => exact convertSelect_append h ..
  | _ => exact .refl _

theorem guardedStatement_append (h : Enough (n + 1) ahead others) (line : Text) :
    (guardedStatement p line ahead).Alike (guardedStatement p line (ahead ++ others)) := by
  unfold guardedStatement
  dsimp only
  cases Statement.ofLine? (Expression.literal p line) with
  | none => exact .refl _
  | some statement =>
    have halike : (statement.convert p ahead).Alike (statement.convert p (ahead ++ others)) :=
      statement.convert_append h
    exact ⟨by dsimp only; rw [halike.value], rfl, rfl, halike.records⟩

theorem guarded_append (h : Enough (n + 1) rest others)
    (hnext : (next rest).Alike (next' (rest ++ others))) :
    (guarded p name (line :: rest) next).Alike (guarded p name (line :: rest ++ others) next') := by
  unfold guarded
  simp only [cons_append]
  split_ifs with hbegin
  · exact ⟨rfl, rfl, rfl, by simp only [Note.records_lookAhead]⟩
  · refine Guarded.Alike.andThen ⟨rfl, rfl, rfl, by simp only [Note.records_lookAhead]⟩ ?_
    exact (guardedStatement_append h line).andThen hnext

theorem elseOr_append (h : Enough (n + 3) ahead others) (otherwise : Guarded) :
    (elseOr p name indent ahead otherwise).Alike
      (elseOr p name indent (ahead ++ others) otherwise) := by
  have hotherwise : ∀ ahead ahead' : List Text, Guarded.Alike
      { otherwise with notes := Note.lookAhead 1 ahead ++ otherwise.notes }
      { otherwise with notes := Note.lookAhead 1 ahead' ++ otherwise.notes } := fun _ _ =>
    ⟨rfl, rfl, rfl, by simp only [Note.records_append, Note.records_lookAhead]⟩
  unfold elseOr
  rcases ahead with _ | ⟨line, rest⟩
  · cases others with
    | nil => exact hotherwise ..
    | cons next others =>
      simp only [nil_append, (h.head next rfl).notElse, Bool.false_eq_true, if_false]
      exact hotherwise ..
  · simp only [cons_append]
    split_ifs with helse
    · -- the branch of the `Else` starts with a line ahead, because the `Else` is not the last one
      obtain ⟨next, rest, rfl⟩ : ∃ next rest', rest = next :: rest' := by
        cases rest with
        | nil =>
          have hlast := (h.resolve_left (by simp)).2 line rfl
          rw [hlast] at helse
          cases helse
        | cons next rest => exact ⟨next, rest, rfl⟩
      refine Guarded.Alike.andThen ⟨rfl, rfl, rfl, by simp only [Note.records_lookAhead]⟩ ?_
      exact Guarded.Alike.andThen (.refl _) (guarded_append h.tail.tail (.refl _))
    · exact hotherwise ..

theorem Guarded.Alike.outcome {a b : Guarded} (h : a.Alike b) (s : State) :
    (a.outcome s).Alike (b.outcome s) :=
  ⟨by simp only [Guarded.outcome, h.opened], h.lines, rfl, h.taken, h.records⟩

theorem ifLine_append (h : Enough (n + 4) ahead others) (hahead : ahead ≠ []) (s : State)
    (line : Text) : (ifLine p name s line ahead).Alike (ifLine p name s line (ahead ++ others)) := by
  obtain ⟨next, rest, rfl⟩ := exists_cons_of_ne_nil hahead
  have hbranch : (ifBranch p name line.indent (next :: rest)).Alike
      (ifBranch p name line.indent (next :: rest ++ others)) :=
    guarded_append h.tail (elseOr_append h.tail _)
  unfold ifLine
  refine Guarded.Alike.outcome ?_ s
  refine ⟨?_, hbranch.taken, hbranch.opened, ?_⟩
  · dsimp only; rw [hbranch.lines]
  · simp only [Note.records_append, hbranch.records]

theorem plainLine_append (h : Enough (n + 1) ahead others) (s : State) (line : Text) :
    (plainLine p s line ahead).Alike (plainLine p s line (ahead ++ others)) := by
  unfold plainLine
  cases Statement.ofLine? line with
  | none => exact .refl _
  | some statement =>
    have halike : (statement.convert p ahead).Alike (statement.convert p (ahead ++ others)) :=
      statement.convert_append h
    exact ⟨rfl, by dsimp only; rw [halike.value], rfl, rfl, halike.records⟩

theorem undeclaredLine_append (h : Enough (n + 4) ahead others) (hahead : ahead ≠ []) (s : State)
    (line : Text) :
    (undeclaredLine p name s line ahead).Alike (undeclaredLine p name s line (ahead ++ others)) := by
  unfold undeclaredLine
  split
  · rename_i block blocks extra _ _
    cases block with
    | whileLoop => exact .refl _
    | ifBlock => exact (elseOr_append (n := n + 1) h _).outcome _
  · split_ifs with hif hwhile
    · exact ifLine_append h hahead s line
    · obtain ⟨next, rest, rfl⟩ := exists_cons_of_ne_nil hahead
      exact .refl _
    · have halike : (plainLine p s line ahead).Alike (plainLine p s line (ahead ++ others)) :=
        plainLine_append (n := n + 3) h s line
      exact { halike with records := by simp only [Note.records_append, halike.records] }

/-- **What stands after the lines ahead does not show.** -/
theorem step_append (h : Enough (n + 4) ahead others) (hahead : ahead ≠ []) (s : State)
    (line : Text) : (step p name s line ahead).Alike (step p name s line (ahead ++ others)) := by
  simp only [step]
  split_ifs with hblank
  · exact .refl _
  · split
    · exact .refl _
    · have halike : (undeclaredLine p name s (Expression.literal p line) ahead).Alike
          (undeclaredLine p name s (Expression.literal p line) (ahead ++ others)) :=
        undeclaredLine_append h hahead s _
      exact { halike with records := by simp only [Note.records_append, halike.records] }

/-- **A line sees the next four lines only.** -/
theorem step_take (p : Profile) (name : Text) (s : State) (line : Text) (ahead : List Text) :
    (step p name s line (ahead.take 4)).Alike (step p name s line ahead) := by
  rcases Nat.lt_or_ge ahead.length 4 with hshort | hlong
  · rw [take_of_length_le hshort.le]
    exact .refl _
  · have hlength : (ahead.take 4).length = 4 := length_take_of_le hlong
    have hsome : ahead.take 4 ≠ [] := by
      rintro hnone
      rw [hnone] at hlength
      cases hlength
    have henough : Enough 4 (ahead.take 4) (ahead.drop 4) := .inl hlength.ge
    have hseen : (step p name s line (ahead.take 4)).Alike
        (step p name s line (ahead.take 4 ++ ahead.drop 4)) := step_append henough hsome s line
    rwa [take_append_drop] at hseen

end Body

/-- **The look ahead is bounded.** A line of a body gives the same, but for notes that are no records, in
front of any two sources that agree on the next four lines, and takes three lines along at most; a line
of a header gives the same in front of any two that agree on the next line, and takes one along at most. -/
theorem step_lookAhead_bounded (p : Profile) (line : Text) (a b : LineSource) :
    (a.remaining.take 4 = b.remaining.take 4 → ∀ (name : Text) (s : Body.State),
      (Body.step p name s line a.remaining).Alike (Body.step p name s line b.remaining) ∧
        (Body.step p name s line a.remaining).taken ≤ 3) ∧
    (a.remaining.take 1 = b.remaining.take 1 → ∀ (today : Date) (s : Header.State) (d : Definition),
      Header.step p today s d line a.remaining = Header.step p today s d line b.remaining ∧
        (Header.step p today s d line a.remaining).taken ≤ 1) := by
  refine ⟨fun h name s => ⟨?_, ?_⟩, fun h today s d => ⟨?_, ?_⟩⟩
  · have hleft := (Body.step_take p name s line a.remaining).symm
    rw [h] at hleft
    exact hleft.trans (Body.step_take p name s line b.remaining)
  · exact (Body.step_taken_le ..).trans (Nat.min_le_left ..)
  · cases ha : a.remaining with
    | nil =>
      rw [ha, List.take_nil, eq_comm, List.take_eq_nil_iff] at h
      rw [h.resolve_left Nat.one_ne_zero]
    | cons next rest =>
      cases hb : b.remaining with
      | nil => simp [ha, hb] at h
      | cons next' rest' =>
        obtain rfl : next = next' := by simpa [ha, hb] using h
        exact Header.step_cons ..
  · exact (Header.step_taken_le ..).trans (Nat.min_le_left ..)

/-- Behind `If` and `Else` three lines are taken along and a fourth decides how the third is written; the
fifth does not show. -/
theorem step_lookAhead_bounded_else :
    ∃ a b : LineSource, a.remaining ≠ b.remaining ∧ a.remaining.take 4 = b.remaining.take 4 ∧
      (Body.step .standard [] {} "If @a = 1".toList a.remaining).Alike
        (Body.step .standard [] {} "If @a = 1".toList b.remaining) ∧
      (Body.step .standard [] {} "If @a = 1".toList a.remaining).taken = 3 ∧
      Header.step .standard ⟨2024, 5, 1⟩ {} {} "If @a = 1".toList a.remaining =
        Header.step .standard ⟨2024, 5, 1⟩ {} {} "If @a = 1".toList b.remaining := by
  let lines := ["Set @b = 1".toList, "Else".toList, "SELECT @c = d".toList, "FROM t".toList]
  let a := LineSource.ofLines lines
  let b := LineSource.ofLines (lines ++ ["WHERE x = @a".toList])
  obtain ⟨hbody, hheader⟩ := step_lookAhead_bounded .standard "If @a = 1".toList a b
  exact ⟨a, b, by decide, by decide, (hbody (by decide) [] {}).1, by decide,
    (hheader (by decide) ⟨2024, 5, 1⟩ {} {}).1⟩

end SqlRoutine

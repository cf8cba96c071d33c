import SqlRoutine.Proofs.Body.Feed
import SqlRoutine.Proofs.Body.Tree

/-! # The conversion of structured programs

Feeding the printed lines of a program to the conversion of a body, which sees one line at a time and
keeps a stack of open blocks, comes to the rendering of the same tree, and leaves the stack as it was
(`convert_source`).

What follows an `If` or an `Else` is looked at in the same call as the line itself, and the rest of a
block only in later calls. `Guarded.Completes` says that both together come to the given lines; each
branch completes if what comes after it does (`Branch.completes`). -/

namespace SqlRoutine.Body

open Code Expression List Text

variable {f : Feed} {g otherwise : Guarded} {w : Indentation} {next : List Text → Guarded} {c : Phrase}
  {line word : Text} {taken : ℕ}

variable {p : Profile}

/-! ### What calls come to -/

/-- On the way from `f` to `g` the lines were added to the body, and no local variables. -/
structure Feed.Extends (f g : Feed) (s : State) (lines rest : List Text) : Prop where
  state : g.state = s
  body : g.body = appendLines f.body lines
  locals : g.locals = f.locals
  ahead : g.ahead = rest

variable {name : Text} {s s' : State} {lines lines' ahead ahead' rest rest' : List Text}

theorem Feed.Extends.trans {g h : Feed} (hfirst : f.Extends g s lines rest)
    (hnext : g.Extends h s' lines' rest') : f.Extends h s' (lines ++ lines') rest' := by
  refine ⟨hnext.state, ?_, hnext.locals.trans hfirst.locals, hnext.ahead⟩
  rw [hnext.body, hfirst.body, appendLines_append]

/-- **Some calls add the lines**, end in the state `s` and leave `rest` ahead. -/
def Feed.Yields (p : Profile) (name : Text) (f : Feed) (s : State) (lines rest : List Text) : Prop :=
  ∃ calls, f.Extends ((Feed.next p name)^[calls] f) s lines rest

theorem Feed.Yields.refl (hstate : f.state = s) (hahead : f.ahead = rest) :
    f.Yields p name s [] rest := ⟨0, hstate, rfl, rfl, hahead⟩

theorem Feed.Yields.trans (h : f.Yields p name s lines rest)
    (hnext : ∀ g : Feed, g.state = s → g.ahead = rest → g.Yields p name s' lines' rest') :
    f.Yields p name s' (lines ++ lines') rest' := by
  obtain ⟨calls, hcalls⟩ := h
  obtain ⟨more, hmore⟩ := hnext _ hcalls.state hcalls.ahead
  refine ⟨more + calls, ?_⟩
  rw [Function.iterate_add_apply]
  exact hcalls.trans hmore

/-- What one call comes to, the notes apart. -/
structure Outcome.Gives (o : Outcome) (s : State) (lines : List Text) (taken : ℕ) : Prop where
  state : o.state = s
  lines : texts o.lines = lines
  locals : o.locals = []
  taken : o.taken = taken

theorem Outcome.Gives.extends_next
    (hahead : f.ahead = line :: ahead) (h : (step p name f.state line ahead).Gives s lines taken) :
    f.Extends (f.next p name) s lines (ahead.drop taken) := by
  rw [Feed.next_cons hahead]
  refine ⟨h.state, ?_, ?_, ?_⟩
  · rw [Feed.after, h.lines]
  · rw [Feed.after, h.locals, append_nil]
  · rw [Feed.after, h.taken]

theorem Outcome.Gives.yields (hahead : f.ahead = line :: ahead)
    (h : (step p name f.state line ahead).Gives s lines taken) :
    f.Yields p name s lines (ahead.drop taken) := ⟨1, h.extends_next hahead⟩

/-- A line that does not start with `Declare` is no declaration. -/
theorem step_of_not_declare (hline : line.isBlank = false)
    (hdeclare : keyword? "Declare".toList (Expression.literal p line).trimStart = none) :
    step p name s line ahead = undeclaredLine p name s (Expression.literal p line) ahead := by
  have hnone : declare? p (Expression.literal p line) = ⟨none, []⟩ := by
    unfold declare? declareLine?
    rw [hdeclare]
    rfl
  unfold step
  rw [if_neg (Bool.eq_false_iff.mp hline)]
  dsimp only
  rw [hnone]
  rfl

theorem step_gives (hline : line.isBlank = false)
    (hdeclare : keyword? "Declare".toList (Expression.literal p line).trimStart = none)
    (h : (undeclaredLine p name s (Expression.literal p line) ahead).Gives s' lines taken) :
    (step p name s line ahead).Gives s' lines taken := by
  rw [step_of_not_declare hline hdeclare]
  exact h

/-! ### First words -/

section

variable {line keyword : Text} (h : opens keyword line)
include h

theorem isElse_of_opens (hdiffer : differ keyword "Else".toList) : isElse line = false := by
  unfold isElse startsWithWord
  rw [word?_of_opens h hdiffer]
  rfl

theorem isBegin_of_opens (hdiffer : differ keyword "Begin".toList) : isBegin line = false := by
  unfold isBegin
  rw [word?_of_opens h hdiffer]

theorem end?_of_opens (hdiffer : differ keyword "End".toList) : end? line = none := by
  unfold end?
  rw [word?_of_opens h hdiffer]
  rfl

theorem startsWithCondition_of_opens {other : Text} (hdiffer : differ keyword other) :
    startsWithCondition other line = false := by
  unfold startsWithCondition
  rw [keyword?_of_opens h hdiffer]

end

theorem Indentation.indent_line (w : Indentation) (h : isVisibleWord word) :
    indent (w.text ++ word) = w.text := by
  have hindent := (indent_and_trimStart w.blank word h []).1
  rwa [append_nil] at hindent

theorem Indentation.trimStart_line (w : Indentation) (h : isVisibleWord word) :
    trimStart (w.text ++ word) = word := by
  have htrim := (indent_and_trimStart w.blank word h []).2
  rwa [append_nil] at htrim

theorem undeclaredLine_of_not_end (h : end? line = none) :
    undeclaredLine p name s line ahead =
      if isIf line then ifLine p name s line ahead
      else if isWhile line then whileLine p s line ahead
      else
        let outcome := plainLine p s line ahead
        { outcome with notes := elseIfNotes line ++ outcome.notes } := by
  unfold undeclaredLine
  rw [h]
  cases s.blocks <;> rfl

/-! ### Lines with simple statements -/

theorem SimpleLine.isElse_source (l : SimpleLine) : isElse l.source = false :=
  isElse_of_opens (l.statement.opens l.indent.blank _) (Simple.differ (by decide) _)

theorem SimpleLine.isBegin_source (l : SimpleLine) : isBegin l.source = false :=
  isBegin_of_opens (l.statement.opens l.indent.blank _) (Simple.differ (by decide) _)

theorem SimpleLine.isEmpty_render (l : SimpleLine) : (l.render p).isEmpty = false := by
  refine isEmpty_eq_false_iff.mpr fun h => ?_
  have hblank := l.isBlank_render (p := p)
  rw [h] at hblank
  cases hblank

section

variable (hp : p.functionNames = Profile.builtInFunctionNames)
include hp

/-- **A line with a simple statement is converted by itself.** -/
theorem SimpleLine.yields (l : SimpleLine) (hahead : f.ahead = l.source :: rest) :
    f.Yields p name f.state [l.render p] rest := by
  have hopens : opens l.statement.keyword (Expression.literal p l.source) := by
    rw [literal_source hp]
    exact l.statement.opens l.indent.blank _
  have hplain : (plainLine p f.state (Expression.literal p l.source) rest).Gives f.state
      [l.render p] 0 := by
    unfold plainLine
    rw [literal_source hp, ofLine?_renamed hp]
    dsimp only
    rw [convert_read hp, l.isEmpty_render]
    exact ⟨rfl, rfl, rfl, rfl⟩
  have hstep : (step p name f.state l.source rest).Gives f.state [l.render p] 0 := by
    refine step_gives ?_ ?_ ?_
    · exact isBlank_of_visibleWord (by cases l.statement <;> rfl) _
    · exact keyword?_of_opens hopens (Simple.differ (by decide) _)
    · rw [undeclaredLine_of_not_end (end?_of_opens hopens (Simple.differ (by decide) _)),
        isIf, startsWithCondition_of_opens hopens (Simple.differ (by decide) _),
        isWhile, startsWithCondition_of_opens hopens (Simple.differ (by decide) _)]
      exact ⟨hplain.state, hplain.lines, hplain.locals, hplain.taken⟩
  exact hstep.yields hahead

theorem texts_guardedStatement (l : SimpleLine) :
    texts (guardedStatement p l.source ahead).lines = [addTerminator (l.render p)] := by
  unfold guardedStatement
  dsimp only
  rw [literal_source hp, ofLine?_renamed hp]
  dsimp only
  rw [convert_read hp, l.isEmpty_render]
  rfl

end

/-! ### Lines with conditions -/

section

variable (hp : p.functionNames = Profile.builtInFunctionNames)
include hp

theorem literal_head (b : Block) (w : Indentation) (c : Phrase) :
    Expression.literal p (b.head id w c) = b.head (Expression.literal p) w c := by
  have h := literal_passed hp (s := b.keyword ++ [' ']) w.blank
    (by cases b <;> decide) (by cases b <;> rfl) c.text
  simpa only [Block.head, append_assoc, singleton_append, id_eq] using h

theorem condition_head (b : Block) (w : Indentation) (c : Phrase) :
    (condition p (b.head (Expression.literal p) w c) b.opening).value = b.renderHead p w c := by
  have hsplit : b.head (Expression.literal p) w c =
      w.text ++ (b.keyword ++ [' ']) ++ Expression.literal p c.text := by
    simp only [Block.head, append_assoc, singleton_append]
  have hcomment : commentFrom false (b.head (Expression.literal p) w c) = [] := by
    rw [hsplit, append_assoc, commentFrom_append (isBare_of_isBlank w.blank),
      commentFrom_append (by cases b <;> rfl)]
    refine literal_noComment hp ?_
    rw [← splitComment_snd, c.noComment]
  have hconvert := convert_passed p (s := b.keyword ++ [' ']) w.blank
    (by cases b <;> decide) (by cases b <;> decide) (by cases b <;> rfl)
    (Expression.literal p c.text)
  unfold condition
  rw [splitComment_of_none hcomment, hsplit]
  simp only [Noted.value_bind, Noted.value_pure, withComment_nil]
  rw [hconvert]
  simp only [Block.renderHead, append_assoc, cons_append, nil_append]

end

theorem Block.opens_head (b : Block) (f : Text → Text) (w : Indentation) (c : Phrase) :
    opens b.keyword (b.head f w c) :=
  opens_append w.blank (by cases b <;> rfl) _

theorem Block.indent_head (b : Block) (f : Text → Text) (w : Indentation) (c : Phrase) :
    (b.head f w c).indent = w.text :=
  (indent_and_trimStart w.blank b.keyword (by cases b <;> rfl) _).1

theorem Block.startsWithCondition_head (b : Block) (f : Text → Text) (w : Indentation) (c : Phrase) :
    startsWithCondition b.keyword (b.head f w c) := by
  obtain ⟨-, htrim⟩ := indent_and_trimStart w.blank b.keyword (by cases b <;> rfl)
    (' ' :: f c.text)
  unfold startsWithCondition Block.head
  rw [htrim, keyword?_append rfl]
  rfl

/-! ### What follows an `If` or `Else` -/

/-- **Together with later calls the lines are added.** The converted lines come first; the calls after
them find the rest of the block that was opened, or nothing to be done. -/
def Guarded.Completes (p : Profile) (name : Text) (g : Guarded) (s : State)
    (ahead lines rest : List Text) : Prop :=
  ∃ later, lines = texts g.lines ++ later ∧
    ∀ f : Feed, f.state = (Guarded.outcome s g).state → f.ahead = ahead.drop g.taken →
      f.Yields p name s later rest

theorem Guarded.Completes.of_more {more : Guarded} (first : List Text)
    (hlines : texts g.lines = first ++ texts more.lines)
    (htaken : ahead.drop g.taken = ahead'.drop more.taken) (hopened : g.opened = more.opened)
    (h : more.Completes p name s ahead' lines rest) :
    g.Completes p name s ahead (first ++ lines) rest := by
  obtain ⟨later, rfl, hlater⟩ := h
  refine ⟨later, by rw [hlines, append_assoc], fun f hstate hahead => hlater f ?_ ?_⟩
  · rw [hstate, Guarded.outcome, Guarded.outcome, hopened]
  · rw [hahead, htaken]

/-- One line is dealt with, and what comes next completes. -/
theorem Guarded.Completes.andThen {done : Guarded} (notes : List Note)
    (line : Text) (htaken : done.taken = 1) (h : (next ahead).Completes p name s ahead lines rest) :
    (Guarded.andThen { notes } (line :: ahead) fun ahead' => done.andThen ahead' next).Completes
      p name s (line :: ahead) (texts done.lines ++ lines) rest := by
  have hnext : next (List.drop done.taken (line :: ahead)) = next ahead := by rw [htaken]; rfl
  refine h.of_more (texts done.lines) ?_ ?_ ?_
  · simp only [Guarded.andThen, drop_zero, hnext, nil_append, texts_append]
  · simp only [Guarded.andThen, drop_zero, Nat.zero_add, htaken, Nat.add_comm 1,
      drop_succ_cons]
  · simp only [Guarded.andThen, drop_zero, hnext]

theorem Guarded.Completes.yields (first : List Text) (hahead : f.ahead = line :: ahead)
    (hstep : (step p name f.state line ahead).Gives (Guarded.outcome s g).state
      (first ++ texts g.lines) g.taken)
    (h : g.Completes p name s ahead lines rest) : f.Yields p name s (first ++ lines) rest := by
  obtain ⟨later, rfl, hlater⟩ := h
  rw [← append_assoc]
  exact (hstep.yields hahead).trans hlater

theorem endIf_completes (w : Text) :
    (endIf w).Completes p name s rest [w ++ Block.ifBlock.closing] rest :=
  ⟨[], rfl, fun _ hstate hahead => .refl hstate hahead⟩

theorem guarded_single (hp : p.functionNames = Profile.builtInFunctionNames) (l : SimpleLine)
    (h : (next ahead).Completes p name s ahead lines rest) :
    (guarded p name (l.source :: ahead) next).Completes p name s (l.source :: ahead)
      (addTerminator (l.render p) :: lines) rest := by
  unfold guarded
  dsimp only
  rw [l.isBegin_source, if_neg Bool.false_ne_true]
  have hdone := h.andThen (Note.lookAhead 3 (l.source :: ahead)) l.source
    (rfl : (guardedStatement p l.source ahead).taken = 1)
  rwa [texts_guardedStatement hp] at hdone

/-- The state with a block opened. -/
def State.push (s : State) (b : Block) : State := { s with blocks := b :: s.blocks }

theorem isBegin_line (w : Indentation) : isBegin (w.text ++ "Begin".toList) := by
  unfold isBegin
  rw [w.trimStart_line rfl]
  rfl

theorem beginComment_line (w : Indentation) : beginComment (w.text ++ "Begin".toList) = [] := by
  have h : (splitComment (w.text ++ "Begin".toList)).2 = [] := by
    rw [splitComment_snd, commentFrom_append (isBare_of_isBlank w.blank)]
    rfl
  unfold beginComment
  rw [h]

theorem guarded_block {body : List Text}
    (h : ∀ f : Feed, f.state = s.push .ifBlock → f.ahead = body ++ (w.text ++ "End".toList) :: ahead →
      f.Yields p name s lines rest) :
    (guarded p name (enclosed w body ++ ahead) next).Completes p name s (enclosed w body ++ ahead)
      lines rest := by
  unfold guarded enclosed
  rw [cons_append]
  dsimp only
  rw [isBegin_line w, if_pos rfl, beginComment_line]
  refine ⟨lines, rfl, fun f hstate hahead => h f hstate ?_⟩
  rw [hahead, drop_one, tail_cons, append_assoc, singleton_append]

/-- The lines do not start with `Else`. -/
def NoElse (lines : List Text) : Prop := ∀ line ∈ lines.head?, isElse line = false

theorem elseOr_of_noElse {w : Text} (hrest : NoElse ahead)
    (h : otherwise.Completes p name s ahead lines rest) :
    (elseOr p name w ahead otherwise).Completes p name s ahead lines rest := by
  unfold elseOr
  cases ahead with
  | nil => exact h.of_more [] rfl rfl rfl
  | cons line ahead =>
    dsimp only
    rw [hrest line rfl, if_neg Bool.false_ne_true]
    exact h.of_more [] rfl rfl rfl

theorem elseOr_of_else (hp : p.functionNames = Profile.builtInFunctionNames) (w : Indentation)
    (h : (elseBranch p name w.text ahead).Completes p name s ahead lines rest) :
    (elseOr p name w.text ((w.text ++ "Else".toList) :: ahead) otherwise).Completes p name s
      ((w.text ++ "Else".toList) :: ahead) ((w.text ++ "Else".toList) :: lines) rest := by
  have helse : isElse (w.text ++ "Else".toList) := by
    unfold isElse startsWithWord
    rw [w.trimStart_line rfl]
    rfl
  have hline : texts (elseLine p (w.text ++ "Else".toList)).lines = [w.text ++ "Else".toList] := by
    unfold elseLine texts
    rw [literal_avoids hp w.blank (by decide)]
    dsimp only
    rw [map_singleton,
      convert_ignored p w.blank (by decide) (by decide)]
  unfold elseOr
  dsimp only
  rw [helse, if_pos rfl]
  have hdone := h.andThen (Note.lookAhead 1 ((w.text ++ "Else".toList) :: ahead))
    (w.text ++ "Else".toList) (rfl : (elseLine p (w.text ++ "Else".toList)).taken = 1)
  rwa [hline] at hdone

/-! ### The lines of a block -/

section

variable (hp : p.functionNames = Profile.builtInFunctionNames)
include hp

/-- A line with a condition is no declaration. -/
theorem step_head (b : Block) (w : Indentation) (c : Phrase)
    (h : (undeclaredLine p name s (b.head (Expression.literal p) w c) ahead).Gives s' lines taken) :
    (step p name s (b.head id w c) ahead).Gives s' lines taken := by
  rw [← literal_head hp] at h
  refine step_gives (isBlank_of_visibleWord (b.isVisibleWord_keyword _) _) ?_ h
  rw [literal_head hp]
  exact keyword?_of_opens (b.opens_head _ w c) (by cases b <;> rfl)

/-- **An `If` line opens what its branch comes to.** -/
theorem if_yields (hahead : f.ahead = Block.ifBlock.head id w c :: ahead)
    (h : (ifBranch p name w.text ahead).Completes p name f.state ahead lines rest) :
    f.Yields p name f.state (Block.ifBlock.renderHead p w c :: lines) rest := by
  have hopens := Block.ifBlock.opens_head (Expression.literal p) w c
  have hif : isIf (Block.ifBlock.head (Expression.literal p) w c) :=
    Block.ifBlock.startsWithCondition_head _ w c
  refine h.yields [_] hahead (step_head hp .ifBlock w c ?_)
  rw [undeclaredLine_of_not_end (end?_of_opens hopens rfl), hif, if_pos rfl, ifLine,
    Block.indent_head]
  refine ⟨rfl, ?_, rfl, rfl⟩
  rw [← condition_head hp]
  rfl

/-- **A `While` line opens a loop**, together with the `Begin` after it. -/
theorem while_yields
    (hahead : f.ahead = Block.whileLoop.head id w c :: (w.text ++ "Begin".toList) :: rest) :
    f.Yields p name (f.state.push .whileLoop) [Block.whileLoop.renderHead p w c] rest := by
  have hopens := Block.whileLoop.opens_head (Expression.literal p) w c
  have hif : isIf (Block.whileLoop.head (Expression.literal p) w c) = false :=
    startsWithCondition_of_opens hopens rfl
  have hwhile : isWhile (Block.whileLoop.head (Expression.literal p) w c) :=
    Block.whileLoop.startsWithCondition_head _ w c
  have hstep : (step p name f.state (Block.whileLoop.head id w c)
      ((w.text ++ "Begin".toList) :: rest)).Gives (f.state.push .whileLoop)
      [Block.whileLoop.renderHead p w c] 1 := by
    refine step_head hp .whileLoop w c ?_
    rw [undeclaredLine_of_not_end (end?_of_opens hopens rfl), hif, if_neg Bool.false_ne_true, hwhile,
      if_pos rfl, whileLine, isBegin_line w]
    refine ⟨rfl, ?_, rfl, rfl⟩
    rw [← condition_head hp]
    rfl
  exact hstep.yields hahead

theorem literal_end (w : Indentation) :
    Expression.literal p (w.text ++ "End".toList) = w.text ++ "End".toList := by
  -- `literal_avoids` does not apply: some rules ask for words that start with the last letter
  have h := literal_passed hp (s := []) w.blank (by decide) rfl "End".toList
  rw [append_nil] at h
  rw [h, literal_eq hp]
  exact congrArg (w.text ++ ·) (by decide)

omit hp in
theorem step_end
    (hliteral : Expression.literal p (w.text ++ "End".toList) = w.text ++ "End".toList) (b : Block)
    (h : (endLine p name s b (w.text ++ "End".toList) [] ahead).Gives s' lines taken) :
    (step p name (s.push b) (w.text ++ "End".toList) ahead).Gives s' lines taken := by
  have hend : end? (w.text ++ "End".toList) = some [] := by
    unfold end?
    rw [w.trimStart_line rfl]
    rfl
  refine step_gives (isBlank_of_visibleWord rfl _) ?_ ?_
  · rw [hliteral, w.trimStart_line rfl]
    rfl
  · rw [hliteral, undeclaredLine, hend]
    exact h

/-- **An `End` line closes a loop.** -/
theorem endLoop_yields (hstate : f.state = s.push .whileLoop)
    (hahead : f.ahead = (w.text ++ "End".toList) :: rest) :
    f.Yields p name s [w.text ++ Block.whileLoop.closing] rest := by
  have hstep : (step p name f.state (w.text ++ "End".toList) rest).Gives s
      [w.text ++ Block.whileLoop.closing] 0 := by
    rw [hstate]
    refine step_end (literal_end hp w) .whileLoop ⟨rfl, ?_, rfl, rfl⟩
    rw [endLine, w.indent_line rfl, append_nil]
    rfl
  exact hstep.yields hahead

/-- **An `End` line closes the block of an `If`**, unless an `Else` comes next. -/
theorem endIf_yields (hstate : f.state = s.push .ifBlock)
    (hahead : f.ahead = (w.text ++ "End".toList) :: ahead)
    (h : (elseOr p name w.text ahead (endIf w.text)).Completes p name s ahead lines rest) :
    f.Yields p name s lines rest := by
  refine h.yields [] hahead ?_
  rw [hstate]
  refine step_end (literal_end hp w) .ifBlock ?_
  rw [endLine, w.indent_line rfl, append_nil]
  exact ⟨rfl, rfl, rfl, rfl⟩

end

/-! ### Whole programs -/

theorem Construct.noElse_source (c : Construct) (others : List Text) : NoElse (c.source ++ others) := by
  intro line hline
  cases c with
  | simple l =>
    rw [Construct.source] at hline
    obtain rfl := Option.mem_some_iff.mp hline
    exact l.isElse_source
  | conditional w c branch tail =>
    rw [Construct.source] at hline
    obtain rfl := Option.mem_some_iff.mp hline
    exact isElse_of_opens (Block.ifBlock.opens_head id w c) rfl
  | loop w c body =>
    rw [Construct.source] at hline
    obtain rfl := Option.mem_some_iff.mp hline
    exact isElse_of_opens (Block.whileLoop.opens_head id w c) rfl

theorem Program.noElse_source (prog : Program) (h : NoElse rest) : NoElse (prog.source ++ rest) := by
  cases prog with
  | empty =>
    rw [Program.source]
    exact h
  | next first others =>
    rw [Program.source, append_assoc]
    exact first.noElse_source _

theorem noElse_end (w : Indentation) : NoElse ((w.text ++ "End".toList) :: rest) := by
  intro line hline
  obtain rfl := Option.mem_some_iff.mp hline
  unfold isElse startsWithWord
  rw [w.trimStart_line rfl]
  rfl

mutual

theorem Construct.yields (hp : p.functionNames = Profile.builtInFunctionNames) :
    ∀ (c : Construct) {rest : List Text} {f : Feed}, NoElse rest →
    f.ahead = c.source ++ rest → f.Yields p name f.state (c.render p) rest
  | .simple l, rest, f, _, hahead => by
    rw [Construct.source] at hahead
    rw [Construct.render]
    exact l.yields hp hahead
  | .conditional w c branch tail, rest, f, hrest, hahead => by
    rw [Construct.source, cons_append, append_assoc] at hahead
    rw [Construct.render]
    have htail := tail.completes hp w f.state hrest
    exact if_yields hp hahead (branch.completes hp w f.state htail htail)
  | .loop w c body, rest, f, hrest, hahead => by
    rw [Construct.source, enclosed, cons_append, cons_append, append_assoc,
      singleton_append] at hahead
    rw [Construct.render]
    refine (while_yields hp hahead).trans fun g hstate hbody => ?_
    have hinner := body.yields hp (noElse_end w) hbody
    rw [hstate] at hinner
    exact hinner.trans fun _ hstate hend => endLoop_yields hp hstate hend

/-- **A branch completes if what comes after it does**: after a single line that is seen in the same
call, after a block by its `End` line. -/
theorem Branch.completes (hp : p.functionNames = Profile.builtInFunctionNames) :
    ∀ (b : Branch) (w : Indentation) (s : State) {next : List Text → Guarded}
    {ahead lines rest : List Text}, (next ahead).Completes p name s ahead lines rest →
    (elseOr p name w.text ahead (endIf w.text)).Completes p name s ahead lines rest →
    (guarded p name (b.source w ++ ahead) next).Completes p name s (b.source w ++ ahead)
      (b.render p ++ lines) rest
  | .single l, w, s, next, ahead, lines, rest, hnext, _ => by
    rw [Branch.source, Branch.render]
    exact guarded_single hp l hnext
  | .block body, w, s, next, ahead, lines, rest, _, helse => by
    rw [Branch.source, Branch.render]
    refine guarded_block fun f hstate hahead => ?_
    have hinner := body.yields hp (noElse_end w) hahead
    rw [hstate] at hinner
    exact hinner.trans fun _ hstate hend => endIf_yields hp hstate hend helse

theorem Tail.completes (hp : p.functionNames = Profile.builtInFunctionNames) :
    ∀ (t : Tail) (w : Indentation) (s : State) {rest : List Text}, NoElse rest →
    (elseOr p name w.text (t.source w ++ rest) (endIf w.text)).Completes p name s
      (t.source w ++ rest) (t.render p w) rest
  | .close, w, s, rest, hrest => by
    rw [Tail.source, Tail.render]
    exact elseOr_of_noElse hrest (endIf_completes w.text)
  | .otherwise branch, w, s, rest, hrest => by
    rw [Tail.source, Tail.render]
    refine elseOr_of_else hp w (branch.completes hp w s (endIf_completes w.text) ?_)
    exact elseOr_of_noElse hrest (endIf_completes w.text)

theorem Program.yields (hp : p.functionNames = Profile.builtInFunctionNames) :
    ∀ (prog : Program) {rest : List Text} {f : Feed}, NoElse rest →
    f.ahead = prog.source ++ rest → f.Yields p name f.state (prog.render p) rest
  | .empty, rest, f, _, hahead => by
    rw [Program.source] at hahead
    rw [Program.render]
    exact .refl rfl hahead
  | .next first others, rest, f, hrest, hahead => by
    rw [Program.source, append_assoc] at hahead
    rw [Program.render]
    refine (first.yields hp (others.noElse_source hrest) hahead).trans fun g hstate hothers => ?_
    have hnext := others.yields hp hrest hothers
    rwa [hstate] at hnext

end

/-- **The conversion of a printed program is the rendering of the same tree.** Whatever blocks are
open, whatever has been converted and whatever lines come after it, unless they start with `Else`: the
calls take exactly the lines of the program, leave the state as it was and add the rendered lines. -/
theorem convert_source (hp : p.functionNames = Profile.builtInFunctionNames) (name : Text)
    (prog : Program) (s : State) (body rest : List Text)
    (hrest : ∀ line ∈ rest.head?, isElse line = false) :
    ∃ calls, let f := (Feed.next p name)^[calls] { state := s, body, ahead := prog.source ++ rest }
      f.ahead = rest ∧ f.state = s ∧ f.locals = [] ∧ f.body = body ++ (prog.render p).map tidy := by
  have hyields : Feed.Yields p name { state := s, body, ahead := prog.source ++ rest } s
      (prog.render p) rest := prog.yields hp hrest rfl
  obtain ⟨calls, h⟩ := hyields
  refine ⟨calls, h.ahead, h.state, h.locals, ?_⟩
  rw [h.body, appendLines_of_not_blank prog.isBlank_render]

/-- A loop around an `If` with a block that may leave it, a call and a message, and a single line after
`Else`. -/
def nestedLoop : Program :=
  let w : Indentation := ⟨[], by decide⟩
  let tab : Indentation := ⟨['\t'], by decide⟩
  let tabs : Indentation := ⟨['\t', '\t'], by decide⟩
  let count : VariableName := ⟨"n".toList, by decide, by decide⟩
  let leave : Construct := .conditional tabs ⟨"@n > Len(@text)".toList, by decide, by decide⟩
    (.single ⟨tabs, .breakLoop false⟩) .close
  let report : SimpleLine := ⟨tabs, .call none ⟨"[dbo].[Report]".toList, by decide, by decide⟩
    ⟨⟨" @n, @text".toList, by decide, by decide⟩, by decide, by decide⟩⟩
  let message : SimpleLine := ⟨tabs, .print ⟨"'At ' + @text".toList, by decide, by decide⟩⟩
  let branches : Construct := .conditional tab ⟨"IsNull(@n, 0) = 0".toList, by decide, by decide⟩
    (.block (.next leave (.next (.simple report) (.next (.simple message) .empty))))
    (.otherwise (.single ⟨tabs, .assign count ⟨"@n + 1".toList, by decide, by decide⟩ (by decide)⟩))
  .next (.loop w ⟨"@n < 10".toList, by decide, by decide⟩ (.next branches .empty)) .empty

theorem convert_source_nestedLoop :
    (∀ line ∈ ["Else_".toList].head?, isElse line = false) ∧
      ∃ calls, let f := (Feed.next Profile.standard [])^[calls] {
          state := { blocks := [.ifBlock] }, body := ["Begin".toList],
          ahead := nestedLoop.source ++ ["Else_".toList] }
        f.ahead = ["Else_".toList] ∧ f.state = { blocks := [.ifBlock] } ∧ f.locals = [] ∧
          f.body = ["Begin", "While _n < 10 Loop", "    If Coalesce(_n, 0) = 0 Then",
            "        If _n > char_length(_text) Then", "        Exit;", "        End If;",
            "        Call dbo.Report (_n, _text);", "        RAISE INFO '%', 'At ' || _text;", "    Else",
            "        _n := _n + 1;", "    End If;", "End Loop;"].map String.toList := by
  have hrest : ∀ line ∈ ["Else_".toList].head?, isElse line = false := by decide
  obtain ⟨calls, hahead, hstate, hlocals, hbody⟩ := convert_source (p := Profile.standard) rfl []
    nestedLoop { blocks := [.ifBlock] } ["Begin".toList] ["Else_".toList] hrest
  refine ⟨hrest, calls, hahead, hstate, hlocals, hbody.trans ?_⟩
  decide

end SqlRoutine.Body

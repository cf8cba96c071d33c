import SqlRoutine.Proofs.Body.Conservation
import SqlRoutine.Proofs.Body.Structure

/-! # Blocks and the lines that end them

The conversion of a body knows blocks by the first words of lines: `If` and `While` before a `Begin`
open one, and a line that starts with `End` closes the innermost. A `Nest` is a body in which every
block has its own `Begin` and `End`, among other lines of any form. `Nest.calls` says what each call
has to do to the control flow: **the head of a block and the `End` line that matches it** add the lines
that open and close the block, and no other line adds such a line or changes the stack.

The calls do just that (`calls_eq`), provided that no other line of a block starts with `End`, `If` or
`While`. The proviso is needed: the `END` of a `CASE` expression closes the block around it
(`calls_case`). -/

namespace SqlRoutine.Body

open List Option

/-! ### What calls do to the control flow -/

/-- What one call does to the control flow: the line that it was given, the heads and ends of blocks
that it has added, and the blocks that are open after it. -/
structure Call where
  line : Text
  control : List Converted
  blocks : List Block
  deriving DecidableEq, Repr

/-- The heads and ends of blocks among converted lines. -/
def controlLines (lines : List Converted) : List Converted := lines.filter (·.role ≠ .plain)

/-- The calls that convert the next lines, at most `n` of them. -/
def Feed.calls (p : Profile) (name : Text) : ℕ → Feed → List Call
  | 0, _ => []
  | n + 1, f =>
    match f.ahead with
    | [] => []
    | line :: ahead =>
      let o := step p name f.state line ahead
      ⟨line, controlLines o.lines, o.state.blocks⟩ :: calls p name n (f.after o ahead)

variable {p : Profile} {name : Text} {stack stack' : List Block} {line : Text}
  {ahead rest rest' : List Text}

theorem Feed.calls_add (m n : ℕ) (f : Feed) :
    f.calls p name (m + n) = f.calls p name m ++ ((Feed.next p name)^[m] f).calls p name n := by
  induction m generalizing f with
  | zero => rw [Nat.zero_add]; rfl
  | succ m ih =>
    rw [Nat.succ_add, Function.iterate_succ_apply]
    cases h : f.ahead with
    | nil =>
      have hstop : ∀ k, (f.calls p name k) = [] := fun k => by
        cases k with
        | zero => rfl
        | succ k => rw [Feed.calls, h]
      rw [Feed.next_nil h, Function.iterate_fixed (Feed.next_nil h), hstop, hstop, hstop]
      rfl
    | cons line ahead =>
      simp only [Feed.calls, h, Feed.next_cons h, ih, cons_append]

/-- **The calls are these**, with these blocks open after them and these lines left. -/
structure Feed.Passes (p : Profile) (name : Text) (f : Feed) (calls : List Call) (stack : List Block)
    (rest : List Text) : Prop where
  made : f.calls p name calls.length = calls
  blocks : ((Feed.next p name)^[calls.length] f).state.blocks = stack
  ahead : ((Feed.next p name)^[calls.length] f).ahead = rest

theorem Feed.Passes.refl {f : Feed} (hblocks : f.state.blocks = stack) (hahead : f.ahead = rest) :
    f.Passes p name [] stack rest := ⟨rfl, hblocks, hahead⟩

theorem Feed.Passes.trans {f : Feed} {calls calls' : List Call} (h : f.Passes p name calls stack rest)
    (hnext : ∀ g : Feed, g.state.blocks = stack → g.ahead = rest →
      g.Passes p name calls' stack' rest') : f.Passes p name (calls ++ calls') stack' rest' := by
  obtain ⟨hcalls, hblocks, hahead⟩ := hnext _ h.blocks h.ahead
  have hiterate : (Feed.next p name)^[(calls ++ calls').length] f =
      (Feed.next p name)^[calls'.length] ((Feed.next p name)^[calls.length] f) := by
    rw [length_append, Nat.add_comm, Function.iterate_add_apply]
  refine ⟨?_, ?_, ?_⟩
  · rw [length_append, Feed.calls_add, h.made, hcalls]
  · rw [hiterate, hblocks]
  · rw [hiterate, hahead]

/-- One call. -/
theorem Feed.Passes.single {f : Feed} {control : List Converted} (hahead : f.ahead = line :: ahead)
    (hcontrol : controlLines (step p name f.state line ahead).lines = control)
    (hblocks : (step p name f.state line ahead).state.blocks = stack)
    (hrest : ahead.drop (step p name f.state line ahead).taken = rest) :
    f.Passes p name [⟨line, control, stack⟩] stack rest := by
  refine ⟨?_, ?_, ?_⟩
  · simp only [length_singleton, Feed.calls, hahead, hcontrol, hblocks]
  · rw [length_singleton, Function.iterate_one, Feed.next_cons hahead]
    exact hblocks
  · rw [length_singleton, Function.iterate_one, Feed.next_cons hahead]
    exact hrest

theorem controlLines_of_plain {lines : List Converted} (h : ∀ l ∈ lines, l.role = .plain) :
    controlLines lines = [] :=
  filter_eq_nil_iff.mpr fun l hl => by simp [h l hl]

/-! ### Lines as they are read -/

/-- The line as it is read: with functions and types renamed, and nothing if it is blank. -/
def lineRead (p : Profile) (line : Text) : Text :=
  if line.isBlank then [] else Expression.literal p line

theorem lineRead_of_opens {keyword : Text} (hkeyword : keyword ≠ [])
    (h : Text.opens keyword (lineRead p line)) :
    line.isBlank = false ∧ lineRead p line = Expression.literal p line := by
  unfold lineRead at h ⊢
  split_ifs at h ⊢ with hblank
  · obtain ⟨k, ks, rfl⟩ := exists_cons_of_ne_nil hkeyword
    cases h
  · exact ⟨Bool.eq_false_iff.mpr hblank, rfl⟩

/-- A line that starts with another word is no declaration. -/
theorem step_of_opens {keyword : Text} (hkeyword : keyword ≠ [])
    (h : Text.opens keyword (lineRead p line))
    (hdiffer : Text.differ keyword "Declare".toList) (s : State) :
    step p name s line ahead = undeclaredLine p name s (lineRead p line) ahead := by
  obtain ⟨hblank, hread⟩ := lineRead_of_opens hkeyword h
  rw [hread] at h ⊢
  exact step_of_not_declare hblank (Text.keyword?_of_opens h hdiffer)

theorem opens_of_startsWithCondition {keyword : Text} (h : startsWithCondition keyword line) :
    Text.opens keyword line := by
  unfold startsWithCondition at h
  split at h
  · exact Text.opens_of_keyword? ‹_›
  · cases h

theorem opens_of_end? {extra : Text} (h : end? line = some extra) :
    Text.opens "End".toList line := by
  obtain ⟨rest, hrest, -⟩ := bind_eq_some_iff.mp h
  obtain ⟨rest', hrest', -⟩ := bind_eq_some_iff.mp hrest
  exact Text.opens_of_keyword? hrest'

/-! ### Bodies with blocks -/

/-- The part of the line that opens a block. -/
def Block.headRole : Block → Role
  | .ifBlock => .ifHead
  | .whileLoop => .loopHead

/-- The part of the line that closes a block. -/
def Block.endRole : Block → Role
  | .ifBlock => .ifEnd
  | .whileLoop => .loopEnd

/-- **The lines around the contents of a block.** -/
structure Frame where
  kind : Block
  head : Text
  start : Text
  stop : Text

/-- The line that opens the block in PL/pgSQL. -/
def Frame.headLine (p : Profile) (f : Frame) : Converted :=
  ⟨f.kind.headRole, (condition p (lineRead p f.head) f.kind.opening).value⟩

/-- The line that closes the block in PL/pgSQL, with what stands after `End`. -/
def Frame.endLine (p : Profile) (f : Frame) : Converted :=
  ⟨f.kind.endRole, (lineRead p f.stop).indent ++ f.kind.closing ++ (end? (lineRead p f.stop)).getD []⟩

/-- The lines are read as the condition, the `Begin` and the `End` of the block. -/
structure Frame.Reads (p : Profile) (f : Frame) : Prop where
  head : startsWithCondition f.kind.keyword (lineRead p f.head)
  start : isBegin f.start
  stop : (end? (lineRead p f.stop)).isSome
  notElse : isElse f.stop = false

/-- **A body with its blocks.** -/
inductive Nest where
  | done
  | other (line : Text) (next : Nest)
  | block (frame : Frame) (inner next : Nest)

namespace Nest

/-- The lines of the body. -/
def lines : Nest → List Text
  | .done => []
  | .other line next => line :: next.lines
  | .block frame inner next =>
    frame.head :: frame.start :: (inner.lines ++ frame.stop :: next.lines)

/-- **What the calls have to do**, if the blocks of the stack are open: each block is opened by its
head and closed by its own `End` line, and other lines leave the stack alone. -/
def calls (p : Profile) (stack : List Block) : Nest → List Call
  | .done => []
  | .other line next => ⟨line, [], stack⟩ :: next.calls p stack
  | .block frame inner next =>
    ⟨frame.head, [frame.headLine p], frame.kind :: stack⟩ ::
      (inner.calls p (frame.kind :: stack) ++
        ⟨frame.stop, [frame.endLine p], stack⟩ :: next.calls p stack)

end Nest

/-- The line neither opens a block nor, where a block is open, starts with `End`. -/
def isInert (p : Profile) (stack : List Block) (line : Text) : Bool :=
  !isIf (lineRead p line) && !isWhile (lineRead p line) &&
    (stack.isEmpty || (end? (lineRead p line)).isNone)

/-- **Every block stands out by its lines**: they are read as such, the other lines are not, and no
`Else` goes on with an `If` that has ended. -/
def Nest.Proper (p : Profile) (stack : List Block) : Nest → Prop
  | .done => True
  | .other line next => isInert p stack line ∧ next.Proper p stack
  | .block frame inner next =>
    frame.Reads p ∧ inner.Proper p (frame.kind :: stack) ∧
      (frame.kind = .ifBlock → NoElse next.lines) ∧ next.Proper p stack

/-! ### One call -/

section

variable {s : State}

/-- **A line that is no part of the control flow leaves the stack alone**, takes no other line along
and adds neither heads nor ends of blocks. -/
theorem plainLine_leaves (s : State) (line : Text) (ahead : List Text) :
    (plainLine p s line ahead).state.blocks = s.blocks ∧ (plainLine p s line ahead).taken = 0 ∧
      ∀ l ∈ (plainLine p s line ahead).lines, l.role = .plain := by
  unfold plainLine
  split
  · refine ⟨rfl, rfl, fun l hl => ?_⟩
    dsimp only at hl
    split_ifs at hl
    · cases hl
    · rw [mem_singleton.mp hl]
  · unfold otherLine
    dsimp only
    split
    · exact ⟨rfl, rfl, by simp⟩
    · split
      · exact ⟨rfl, rfl, by simp⟩
      · split_ifs
        · exact ⟨rfl, rfl, by simp⟩
        · exact ⟨rfl, rfl, by simp⟩

theorem undeclaredLine_of_inert (hif : isIf line = false) (hwhile : isWhile line = false)
    (hend : s.blocks = [] ∨ end? line = none) :
    undeclaredLine p name s line ahead = { plainLine p s line ahead with
        notes := elseIfNotes line ++ (plainLine p s line ahead).notes } := by
  have hother : undeclaredLine p name s line ahead =
      if isIf line then ifLine p name s line ahead
      else if isWhile line then whileLine p s line ahead
      else { plainLine p s line ahead with
        notes := elseIfNotes line ++ (plainLine p s line ahead).notes } := by
    rcases hend with hend | hend
    · unfold undeclaredLine
      rw [hend]
    · exact undeclaredLine_of_not_end hend
  rw [hother, hif, hwhile]
  rfl

theorem step_of_inert (name : Text) (ahead : List Text) (h : isInert p s.blocks line) :
    (step p name s line ahead).state.blocks = s.blocks ∧ (step p name s line ahead).taken = 0 ∧
      ∀ l ∈ (step p name s line ahead).lines, l.role = .plain := by
  simp only [isInert, Bool.and_eq_true, Bool.not_eq_true', Bool.or_eq_true, List.isEmpty_iff,
    isNone_iff_eq_none] at h
  obtain ⟨⟨hif, hwhile⟩, hend⟩ := h
  unfold step
  split_ifs with hblank
  · exact ⟨rfl, rfl, by simp⟩
  rw [lineRead, if_neg hblank] at hif hwhile hend
  dsimp only
  split
  · exact ⟨rfl, rfl, by simp⟩
  · dsimp only
    rw [undeclaredLine_of_inert hif hwhile hend]
    exact plainLine_leaves s _ ahead

theorem step_head_of_reads (name : Text) (s : State) (ahead : List Text) {f : Frame} (h : f.Reads p) :
    controlLines (step p name s f.head (f.start :: ahead)).lines = [f.headLine p] ∧
      (step p name s f.head (f.start :: ahead)).state.blocks = f.kind :: s.blocks ∧
      (step p name s f.head (f.start :: ahead)).taken = 1 := by
  obtain ⟨kind, head, start, stop⟩ := f
  obtain ⟨hhead, hstart, -, -⟩ := h
  have hopens := opens_of_startsWithCondition hhead
  dsimp only at hhead hstart hopens ⊢
  cases kind with
  | ifBlock =>
    have hif : isIf (lineRead p head) := hhead
    rw [step_of_opens (by decide) hopens rfl,
      undeclaredLine_of_not_end (end?_of_opens hopens rfl), hif, if_pos rfl]
    simp only [ifLine, ifBranch, guarded, hstart, if_true, Guarded.outcome]
    refine ⟨?_, trivial, trivial⟩
    rw [controlLines, filter_cons_of_pos (by simp), ← controlLines,
      controlLines_of_plain (beginComment_plain start)]
    rfl
  | whileLoop =>
    have hif : isIf (lineRead p head) = false := startsWithCondition_of_opens hopens rfl
    have hwhile : isWhile (lineRead p head) := hhead
    rw [step_of_opens (by decide) hopens rfl,
      undeclaredLine_of_not_end (end?_of_opens hopens rfl), hif, if_neg Bool.false_ne_true, hwhile,
      if_pos rfl]
    simp only [whileLine, hstart, if_true]
    exact ⟨rfl, trivial, trivial⟩

/-- **A line that starts with `End` closes the innermost block**, unless an `Else` goes on with it. -/
theorem step_stop_of_reads (name : Text) {f : Frame} (h : f.Reads p)
    (hblocks : s.blocks = f.kind :: stack) (hnext : f.kind = .ifBlock → NoElse ahead) :
    controlLines (step p name s f.stop ahead).lines = [f.endLine p] ∧
      (step p name s f.stop ahead).state.blocks = stack ∧ (step p name s f.stop ahead).taken = 0 := by
  obtain ⟨kind, head, start, stop⟩ := f
  obtain ⟨-, -, hstop, -⟩ := h
  obtain ⟨extra, hextra⟩ := isSome_iff_exists.mp hstop
  have hopens := opens_of_end? hextra
  dsimp only at hextra hopens hblocks hnext ⊢
  have hstep : step p name s stop ahead =
      endLine p name { s with blocks := stack } kind (lineRead p stop) extra ahead := by
    rw [step_of_opens (by decide) hopens rfl, undeclaredLine, hblocks, hextra]
  rw [hstep]
  simp only [Frame.endLine, hextra, getD_some]
  cases kind with
  | whileLoop => exact ⟨rfl, rfl, rfl⟩
  | ifBlock =>
    have helse : ∀ otherwise : Guarded, elseOr p name (lineRead p stop).indent ahead otherwise =
        { otherwise with notes := Note.lookAhead 1 ahead ++ otherwise.notes } := by
      intro otherwise
      unfold elseOr
      cases ahead with
      | nil => rfl
      | cons line ahead =>
        dsimp only
        rw [hnext rfl line rfl, if_neg Bool.false_ne_true]
    rw [endLine, helse]
    exact ⟨rfl, rfl, rfl⟩

end

/-! ### All calls -/

theorem NoElse.append {lines : List Text} (h : NoElse lines) (hrest : NoElse rest) :
    NoElse (lines ++ rest) := by
  cases lines with
  | nil => exact hrest
  | cons line lines => exact h

/-- **The calls do what they have to do**, one after the other. -/
theorem Nest.passes : ∀ (nest : Nest) {stack : List Block} {rest : List Text} {f : Feed},
    nest.Proper p stack → NoElse rest → f.state.blocks = stack → f.ahead = nest.lines ++ rest →
      f.Passes p name (nest.calls p stack) stack rest
  | .done, stack, rest, f, _, _, hblocks, hahead => .refl hblocks hahead
  | .other line next, stack, rest, f, ⟨hline, hnext⟩, hrest, hblocks, hahead => by
    rw [Nest.lines, cons_append] at hahead
    rw [← hblocks] at hline
    obtain ⟨hstack, htaken, hplain⟩ := step_of_inert name (next.lines ++ rest) hline
    have hcall : f.Passes p name [⟨line, [], stack⟩] stack (next.lines ++ rest) :=
      .single hahead (controlLines_of_plain hplain) (hstack.trans hblocks) (by rw [htaken]; rfl)
    exact hcall.trans fun g hg hlines => next.passes hnext hrest hg hlines
  | .block frame inner next, stack, rest, f, ⟨hframe, hinner, helse, hnext⟩, hrest, hblocks,
      hahead => by
    rw [Nest.lines, cons_append, cons_append, append_assoc, cons_append] at hahead
    obtain ⟨hcontrol, hopen, htaken⟩ := step_head_of_reads name f.state
      (inner.lines ++ frame.stop :: (next.lines ++ rest)) hframe
    have hhead : f.Passes p name [⟨frame.head, [frame.headLine p], frame.kind :: stack⟩]
        (frame.kind :: stack) (inner.lines ++ frame.stop :: (next.lines ++ rest)) :=
      .single hahead hcontrol (by rw [hopen, hblocks]) (by rw [htaken]; rfl)
    refine hhead.trans fun g hg hlines => ?_
    have hstop : NoElse (frame.stop :: (next.lines ++ rest)) := by
      intro line hline
      obtain rfl := mem_some_iff.mp hline
      exact hframe.notElse
    refine (inner.passes hinner hstop hg hlines).trans fun g hg hlines => ?_
    have hafter : frame.kind = .ifBlock → NoElse (next.lines ++ rest) := fun hkind =>
      (helse hkind).append hrest
    obtain ⟨hcontrol, hclosed, htaken⟩ := step_stop_of_reads name hframe hg hafter
    have hend : g.Passes p name [⟨frame.stop, [frame.endLine p], stack⟩] stack (next.lines ++ rest) :=
      .single hlines hcontrol hclosed (by rw [htaken]; rfl)
    exact hend.trans fun g hg hlines => next.passes hnext hrest hg hlines

/-- **An `End` line closes the block that it belongs to.** In a body whose blocks stand out by their
lines each call does to the control flow what it has to do: a block is opened by its head and closed by
the `End` line that matches its `Begin`, whose indentation and ending the closing line has, and no other
line opens or closes a block. Whatever blocks were open before are open after it. -/
theorem calls_eq (p : Profile) (name : Text) (nest : Nest) (s : State) (h : nest.Proper p s.blocks)
    (body rest : List Text) (hrest : ∀ line ∈ rest.head?, isElse line = false) :
    let made := nest.calls p s.blocks
    let f : Feed := { state := s, body, ahead := nest.lines ++ rest }
    f.calls p name made.length = made ∧ ((Feed.next p name)^[made.length] f).ahead = rest ∧
      ((Feed.next p name)^[made.length] f).state.blocks = s.blocks := by
  intro made f
  have hpasses : f.Passes p name made s.blocks rest := nest.passes h hrest rfl rfl
  exact ⟨hpasses.made, hpasses.ahead, hpasses.blocks⟩

/-- An `If` block around a loop, after a `CASE` expression that no block is open around. -/
def caseBeforeBlocks : Nest :=
  .other "Set @b = CASE WHEN @a = 1 THEN 2".toList <| .other "ELSE 3".toList <| .other "END".toList <|
    .block ⟨.ifBlock, "If @a = 1".toList, "Begin -- first".toList, "End -- last".toList⟩
      (.other "/* Ends".toList <| .other "Begin */".toList <|
        .block ⟨.whileLoop, "\tWhile(@b < 9)".toList, "\tBegin".toList, "\tEnd".toList⟩
          (.other "Set @b = @b + 1".toList .done) .done)
      .done

theorem calls_eq_caseBeforeBlocks :
    caseBeforeBlocks.Proper Profile.standard [] ∧ isElse "Elsewhere".toList = false ∧
      Feed.calls Profile.standard [] 10 { ahead := caseBeforeBlocks.lines ++ ["Elsewhere".toList] } =
        [⟨"Set @b = CASE WHEN @a = 1 THEN 2".toList, [], []⟩, ⟨"ELSE 3".toList, [], []⟩,
          ⟨"END".toList, [], []⟩,
          ⟨"If @a = 1".toList, [⟨.ifHead, "If _a = 1 Then".toList⟩], [.ifBlock]⟩,
          ⟨"/* Ends".toList, [], [.ifBlock]⟩, ⟨"Begin */".toList, [], [.ifBlock]⟩,
          ⟨"\tWhile(@b < 9)".toList, [⟨.loopHead, "\tWhile(_b < 9) Loop".toList⟩],
            [.whileLoop, .ifBlock]⟩,
          ⟨"Set @b = @b + 1".toList, [], [.whileLoop, .ifBlock]⟩,
          ⟨"\tEnd".toList, [⟨.loopEnd, "\tEnd Loop;".toList⟩], [.ifBlock]⟩,
          ⟨"End -- last".toList, [⟨.ifEnd, "End If; -- last".toList⟩], []⟩] := by
  have hloop : Nest.Proper Profile.standard [.ifBlock]
      (.block ⟨.whileLoop, "\tWhile(@b < 9)".toList, "\tBegin".toList, "\tEnd".toList⟩
        (.other "Set @b = @b + 1".toList .done) .done) :=
    ⟨⟨by decide, by decide, by decide, by decide⟩,
      ⟨by decide, trivial⟩, nofun, trivial⟩
  have hproper : caseBeforeBlocks.Proper Profile.standard [] :=
    ⟨by decide, by decide, by decide,
      ⟨by decide, by decide, by decide, by decide⟩,
      ⟨by decide, by decide, hloop⟩, fun _ _ h => absurd h (by simp [Nest.lines]),
      trivial⟩
  have hrest : ∀ line ∈ ["Elsewhere".toList].head?, isElse line = false := by decide
  refine ⟨hproper, hrest _ rfl, ?_⟩
  exact (calls_eq Profile.standard [] caseBeforeBlocks {} hproper [] ["Elsewhere".toList] hrest).1.trans
    (by decide)

/-- **The `END` of a `CASE` expression closes the block around it**, and the `End` of the block closes
nothing. -/
theorem calls_case :
    Feed.calls Profile.standard [] 6 { ahead := ["If @a = 1", "Begin", "    Set @b = CASE",
        "        WHEN @a = 1 THEN 2", "    END", "    Print @b", "End"].map String.toList } =
      [⟨"If @a = 1".toList, [⟨.ifHead, "If _a = 1 Then".toList⟩], [.ifBlock]⟩,
        ⟨"    Set @b = CASE".toList, [], [.ifBlock]⟩,
        ⟨"        WHEN @a = 1 THEN 2".toList, [], [.ifBlock]⟩,
        ⟨"    END".toList, [⟨.ifEnd, "    End If;".toList⟩], []⟩,
        ⟨"    Print @b".toList, [], []⟩, ⟨"End".toList, [], []⟩] := by
  decide

end SqlRoutine.Body

import SqlRoutine.Proofs.Body.Nesting
import SqlRoutine.Proofs.Body.Statement
import SqlRoutine.Proofs.Code.Terminator

/-! # Single statements and blocks of one statement

An `If` without `Begin` guards a single statement. It is converted in the same call as the `If` itself,
by a path of its own, whereas the lines of a block are converted one after another. **Both come to the
same** for every statement that fits on one line (`single_alike_block`): the same state, the same lines
ahead, and the same body up to terminators and blank lines. What the path takes is the next line,
whatever it is.

There is no such path for a `While`: without `Begin` it opens a loop that nothing closes. -/

namespace SqlRoutine.Body

open Code List Text

variable {f g : Feed} {statement : Statement} {keyword : Text}

variable {p : Profile} {name : Text} {s s' : State} {line head : Text}
  {lines ahead rest : List Text}

/-! ### Bodies up to terminators and blank lines -/

/-- **The statements of a body**: its lines that are not blank, without their terminators. -/
def statements (body : List Text) : List (Text × Text) :=
  (body.filter (!·.isBlank)).map unterminated

theorem statements_append (a b : List Text) : statements (a ++ b) = statements a ++ statements b := by
  rw [statements, filter_append, map_append]
  rfl

theorem statements_appendLine (body : List Text) (line : Text) :
    statements (appendLine body line) = statements body ++ statements [tidy line] := by
  cases hblank : line.isBlank with
  | false => rw [appendLine_of_not_blank hblank, statements_append]
  | true =>
    have hline : statements [tidy line] = [] := by simp [statements, tidy_isBlank, hblank]
    have hempty : statements [[]] = [] := rfl
    rw [hline, append_nil]
    unfold appendLine
    dsimp only
    rw [tidy_isBlank, hblank, if_pos rfl]
    split
    · rfl
    · split_ifs
      · rfl
      · rw [statements_append, hempty, append_nil]

theorem statements_appendLines (body lines : List Text) :
    statements (appendLines body lines) = statements body ++ statements (lines.map tidy) := by
  induction lines generalizing body with
  | nil => exact (append_nil _).symm
  | cons line lines ih =>
    rw [appendLines, foldl_cons, ← appendLines, ih, statements_appendLine, append_assoc,
      ← statements_append]
    rfl

theorem isBlank_addTerminator_eq (t : Text) : (addTerminator t).isBlank = t.isBlank := by
  cases h : t.isBlank with
  | false => exact isBlank_addTerminator h
  | true =>
    have hnone : commentFrom false t = [] := by
      rw [← append_nil t, commentFrom_append (isBare_of_isBlank h)]
      rfl
    unfold addTerminator
    rw [splitComment_of_none hnone]
    dsimp only
    rw [if_pos h, h]

theorem statements_addTerminator (t : Text) :
    statements [tidy (addTerminator t)] = statements [tidy t] := by
  have hform : unterminated (tidy (addTerminator t)) = unterminated (tidy t) := by
    unfold tidy
    rw [unterminated_collapseTerminators_expandTabs, unterminated_addTerminator,
      ← unterminated_collapseTerminators_expandTabs]
  simp only [statements, filter_cons, tidy_isBlank, isBlank_addTerminator_eq]
  split_ifs
  · exact congrArg (fun form => [form]) hform
  · rfl

theorem statements_map_addTerminator : ∀ lines : List Text,
    statements ((lines.map addTerminator).map tidy) = statements (lines.map tidy)
  | [] => rfl
  | line :: lines => by
    rw [map_cons, map_cons, map_cons, ← singleton_append, statements_append,
      statements_addTerminator, statements_map_addTerminator lines, ← statements_append,
      singleton_append]

/-- **Two feeds that differ in terminators and blank lines only**, as far as they have got, and go on
alike. -/
structure Feed.Alike (f g : Feed) : Prop where
  state : f.state = g.state
  ahead : f.ahead = g.ahead
  locals : f.locals = g.locals
  statements : Body.statements f.body = Body.statements g.body

theorem Feed.Alike.next {f g : Feed} (h : f.Alike g) : (f.next p name).Alike (g.next p name) := by
  cases hf : f.ahead with
  | nil =>
    rw [Feed.next_nil hf, Feed.next_nil (h.ahead.symm.trans hf)]
    exact h
  | cons line ahead =>
    rw [Feed.next_cons hf, Feed.next_cons (h.ahead.symm.trans hf), h.state]
    refine ⟨rfl, rfl, ?_, ?_⟩
    · exact congrArg (· ++ _) h.locals
    · rw [Feed.after, Feed.after, statements_appendLines, statements_appendLines, h.statements]

theorem Feed.Alike.iterate {f g : Feed} (h : f.Alike g) :
    ∀ n, ((Feed.next p name)^[n] f).Alike ((Feed.next p name)^[n] g)
  | 0 => h
  | n + 1 => by
    rw [Function.iterate_succ_apply, Function.iterate_succ_apply]
    exact h.next.iterate n

/-! ### Lines with a statement -/

/-- The first words of statements. -/
def statementKeywords : List Text :=
  ["Set".toList, "Print".toList, "SELECT".toList, "Goto".toList, "Break".toList, "Continue".toList,
    "Execute".toList, "Exec".toList]

/-- **A line with a statement starts with a word for it.** -/
theorem opens_of_ofLine? (h : Statement.ofLine? line = some statement) :
    ∃ keyword ∈ statementKeywords, opens keyword line := by
  have hword : ∀ {keyword rest : Text}, word? keyword line.trimStart = some rest →
      opens keyword line := by
    intro keyword rest hrest
    obtain ⟨rest', hrest', -⟩ := Option.bind_eq_some_iff.mp hrest
    exact opens_of_keyword? hrest'
  cases readFrom_of_ofLine? h with
  | assign hset => exact ⟨"Set".toList, by decide, opens_of_keyword? hset⟩
  | print hprint => exact ⟨"Print".toList, by decide, hword hprint⟩
  | rowCount hselect => exact ⟨"SELECT".toList, by decide, hword hselect⟩
  | select hselect => exact ⟨"SELECT".toList, by decide, opens_of_keyword? hselect⟩
  | gotoDone hgoto => exact ⟨"Goto".toList, by decide, opens_of_keyword? hgoto⟩
  | breakLoop hbreak => exact ⟨"Break".toList, by decide, opens_of_keyword? hbreak⟩
  | continueLoop hcontinue => exact ⟨"Continue".toList, by decide, opens_of_keyword? hcontinue⟩
  | call hexecute =>
    obtain ⟨keyword, hmem, hkeyword⟩ := exists_of_findSome?_eq_some hexecute
    have hsubset : ["Execute".toList, "Exec".toList] ⊆ statementKeywords := by decide
    exact ⟨keyword, hsubset hmem, opens_of_keyword? hkeyword⟩

theorem ne_nil_of_mem_statementKeywords (hmem : keyword ∈ statementKeywords) : keyword ≠ [] := by
  rintro rfl
  exact absurd hmem (by decide)

theorem differ_of_mem_statementKeywords {other : Text} (hmem : keyword ∈ statementKeywords)
    (h : (statementKeywords.all (differ · other))) : differ keyword other :=
  all_eq_true.mp h _ hmem

/-- The statement does not go on after its line: a `SELECT` without a table finds none ahead. -/
def Statement.isComplete (ahead : List Text) : Statement → Bool
  | .select _ _ _ clause _ => !clause.isEmpty || !fromAhead ahead
  | _ => true

/-- What lies ahead of a complete statement makes no difference. -/
theorem Statement.value_convert_of_complete {ahead ahead' : List Text}
    (h : statement.isComplete ahead) (h' : statement.isComplete ahead') :
    (statement.convert p ahead).value = (statement.convert p ahead').value := by
  cases statement with
  | select indent modifiers items clause comment =>
    simp only [Statement.isComplete, Bool.or_eq_true, Bool.not_eq_true'] at h h'
    simp only [Statement.convert, convertSelect, Noted.value_bind]
    split
    · rfl
    · simp only [Noted.value_bind]
      cases hclause : clause.isEmpty with
      | false => rfl
      | true =>
        rw [hclause] at h h'
        rw [h.resolve_left (by decide), h'.resolve_left (by decide)]
  | _ => rfl

/-- The lines that a text adds: none if it is empty. -/
def unlessEmpty (t : Text) : List Text := if t.isEmpty then [] else [t]

/-- **A line with a statement is converted by itself**, and changes no state. -/
theorem step_of_statement (name : Text) (s : State)
    (h : Statement.ofLine? (lineRead p line) = some statement) :
    (step p name s line ahead).Gives s (unlessEmpty (statement.convert p ahead).value) 0 := by
  obtain ⟨keyword, hmem, hopens⟩ := opens_of_ofLine? h
  have hdeclare : differ keyword "Declare".toList :=
    differ_of_mem_statementKeywords hmem (by decide)
  have hend : differ keyword "End".toList :=
    differ_of_mem_statementKeywords hmem (by decide)
  have hif : differ keyword "If".toList :=
    differ_of_mem_statementKeywords hmem (by decide)
  have hwhile : differ keyword "While".toList :=
    differ_of_mem_statementKeywords hmem (by decide)
  rw [step_of_opens (ne_nil_of_mem_statementKeywords hmem) hopens hdeclare,
    undeclaredLine_of_not_end (end?_of_opens hopens hend), isIf,
    startsWithCondition_of_opens hopens hif, isWhile, startsWithCondition_of_opens hopens hwhile]
  simp only [Bool.false_eq_true, if_false, plainLine, h]
  refine ⟨rfl, ?_, rfl, rfl⟩
  unfold unlessEmpty
  split_ifs <;> rfl

theorem texts_guardedStatement_of_statement
    (h : Statement.ofLine? (lineRead p line) = some statement) :
    texts (guardedStatement p line ahead).lines =
      (unlessEmpty (statement.convert p ahead).value).map addTerminator := by
  obtain ⟨keyword, hmem, hopens⟩ := opens_of_ofLine? h
  rw [(lineRead_of_opens (ne_nil_of_mem_statementKeywords hmem) hopens).2] at h
  unfold guardedStatement unlessEmpty
  simp only [h]
  split_ifs <;> rfl

/-! ### The lines around a statement -/

/-- **An `If` without `Begin` takes the next line, whatever it is**, and an `Else` after it. -/
theorem step_single (name : Text) (s : State) (hif : isIf (lineRead p head))
    (hbegin : isBegin line = false) :
    let w := (lineRead p head).indent
    let tail := elseOr p name w rest (endIf w)
    (step p name s head (line :: rest)).Gives (Guarded.outcome s tail).state
      ((condition p (lineRead p head) "Then".toList).value ::
        (texts (guardedStatement p line rest).lines ++ texts tail.lines)) (tail.taken + 1) := by
  have hopens := opens_of_startsWithCondition hif
  rw [step_of_opens (by decide) hopens rfl, undeclaredLine_of_not_end (end?_of_opens hopens rfl), hif,
    if_pos rfl]
  simp only [ifLine, ifBranch, guarded, hbegin, Bool.false_eq_true, if_false]
  refine ⟨rfl, ?_, rfl, ?_⟩
  · simp [Guarded.outcome, Guarded.andThen, texts, guardedStatement]
  · simp [Guarded.outcome, Guarded.andThen, guardedStatement, Nat.add_comm]

/-- An `If` with `Begin` opens a block. -/
theorem step_ifBlock (name : Text) (s : State) (hif : isIf (lineRead p head)) (w : Indentation) :
    (step p name s head ((w.text ++ "Begin".toList) :: ahead)).Gives (s.push .ifBlock)
      [(condition p (lineRead p head) "Then".toList).value] 1 := by
  have hopens := opens_of_startsWithCondition hif
  rw [step_of_opens (by decide) hopens rfl, undeclaredLine_of_not_end (end?_of_opens hopens rfl), hif,
    if_pos rfl]
  simp only [ifLine, ifBranch, guarded, isBegin_line, if_true, beginComment_line]
  exact ⟨rfl, rfl, rfl, rfl⟩

/-- **A `While` opens a loop** with or without `Begin`. -/
theorem step_loop (name : Text) (s : State) (hwhile : isWhile (lineRead p head)) (next : Text) :
    (step p name s head (next :: ahead)).Gives (s.push .whileLoop)
      [(condition p (lineRead p head) "Loop".toList).value] (if isBegin next then 1 else 0) := by
  have hopens := opens_of_startsWithCondition hwhile
  have hif : isIf (lineRead p head) = false := startsWithCondition_of_opens hopens rfl
  rw [step_of_opens (by decide) hopens rfl, undeclaredLine_of_not_end (end?_of_opens hopens rfl), hif,
    if_neg Bool.false_ne_true, hwhile, if_pos rfl]
  exact ⟨rfl, rfl, rfl, rfl⟩

theorem fromAhead_end (w : Indentation) : fromAhead ((w.text ++ "End".toList) :: rest) = false := by
  unfold fromAhead trim
  dsimp only
  rw [w.trimStart_line rfl]
  rfl

theorem endIf_gives (w : Indentation) :
    (endLine p name s .ifBlock (w.text ++ "End".toList) [] rest).Gives
      (Guarded.outcome s (elseOr p name w.text rest (endIf w.text))).state
      (texts (elseOr p name w.text rest (endIf w.text)).lines)
      (elseOr p name w.text rest (endIf w.text)).taken := by
  rw [endLine, w.indent_line rfl, append_nil]
  exact ⟨rfl, rfl, rfl, rfl⟩

theorem endLoop_gives (w : Indentation) :
    (endLine p name s .whileLoop (w.text ++ "End".toList) [] rest).Gives s
      [w.text ++ "End Loop;".toList] 0 := by
  rw [endLine, w.indent_line rfl, append_nil]
  exact ⟨rfl, rfl, rfl, rfl⟩

/-- The three calls for a block of one statement. -/
theorem block_extends {w : Indentation} {b : Block} {opening : Text}
    {taken : ℕ} (hahead : f.ahead = head :: (enclosed w [line] ++ rest))
    (hhead : ∀ ahead, (step p name f.state head ((w.text ++ "Begin".toList) :: ahead)).Gives
      (f.state.push b) [opening] 1) (hline : Statement.ofLine? (lineRead p line) = some statement)
    (hstop : (step p name (f.state.push b) (w.text ++ "End".toList) rest).Gives s' lines taken) :
    f.Extends ((Feed.next p name)^[3] f) s' (opening ::
      (unlessEmpty (statement.convert p ((w.text ++ "End".toList) :: rest)).value ++ lines))
      (rest.drop taken) := by
  have hopened := (hhead _).extends_next hahead
  have hmiddle := (step_of_statement name _ hline).extends_next hopened.ahead
  rw [hopened.state] at hmiddle
  rw [← hmiddle.state] at hstop
  exact hopened.trans (hmiddle.trans (hstop.extends_next hmiddle.ahead))

/-! ### Single statements against blocks -/

section

variable {w : Indentation} {statement : Statement}
  (hend : Expression.literal p (w.text ++ "End".toList) = w.text ++ "End".toList)
  (hline : Statement.ofLine? (lineRead p line) = some statement) (hbegin : isBegin line = false)
include hline

include hend hbegin in
theorem single_alike_block_of_if (hf : f.ahead = head :: line :: rest)
    (hg : g.ahead = head :: (enclosed w [line] ++ rest)) (hstate : f.state = g.state)
    (hlocals : f.locals = g.locals) (hbody : f.body = g.body)
    (hindent : (lineRead p head).indent = w.text) (hvalue : (statement.convert p rest).value =
      (statement.convert p ((w.text ++ "End".toList) :: rest)).value)
    (hif : isIf (lineRead p head)) : (f.next p name).Alike ((Feed.next p name)^[3] g) := by
  have hsingle := (step_single name f.state hif hbegin).extends_next hf
  rw [hindent, texts_guardedStatement_of_statement hline, hvalue] at hsingle
  have hblock := block_extends hg (fun _ => step_ifBlock name g.state hif w) hline
    (step_end hend .ifBlock (endIf_gives w))
  refine ⟨?_, hsingle.ahead.trans hblock.ahead.symm, ?_, ?_⟩
  · rw [hsingle.state, hblock.state, hstate]
  · rw [hsingle.locals, hblock.locals, hlocals]
  · rw [hsingle.body, hblock.body, statements_appendLines, statements_appendLines, hbody]
    simp only [map_cons, map_append, ← singleton_append (l := _ ++ _),
      statements_append, statements_map_addTerminator]

include hbegin in
theorem single_of_while (hf : f.ahead = head :: line :: rest)
    (hwhile : isWhile (lineRead p head)) :
    f.Extends ((Feed.next p name)^[2] f) (f.state.push .whileLoop)
      ((condition p (lineRead p head) "Loop".toList).value ::
        unlessEmpty (statement.convert p rest).value) rest := by
  have hopened := (step_loop name f.state hwhile line).extends_next hf
  rw [hbegin, if_neg Bool.false_ne_true] at hopened
  have hmiddle := (step_of_statement name _ hline).extends_next hopened.ahead
  rw [hopened.state] at hmiddle
  exact hopened.trans hmiddle

include hend in
theorem block_of_while (hg : g.ahead = head :: (enclosed w [line] ++ rest))
    (hwhile : isWhile (lineRead p head)) :
    g.Extends ((Feed.next p name)^[3] g) g.state
      ((condition p (lineRead p head) "Loop".toList).value ::
        (unlessEmpty (statement.convert p ((w.text ++ "End".toList) :: rest)).value ++
          [w.text ++ "End Loop;".toList])) rest := by
  refine block_extends hg (fun ahead => ?_) hline (step_end hend .whileLoop (endLoop_gives w))
  have hopened : (step p name g.state head ((w.text ++ "Begin".toList) :: ahead)).Gives _ _ _ :=
    step_loop name g.state hwhile _
  rwa [isBegin_line, if_pos rfl] at hopened

end

/-- **A single statement and a block of one statement come to the same** under an `If`, however long
the conversion goes on: if `n` calls follow the one for the `If` and its statement, and the three for the
lines of the block, then the feeds differ in terminators and blank lines only. The statement is any that
is read off one line and not continued on the next, and an `Else` may come after it.

Under a `While` they do not: the loop around a single statement has no end in the body and stays open. -/
theorem single_alike_block (p : Profile) (name : Text) (w : Indentation) (head line : Text)
    (statement : Statement) (s : State) (body rest : List Text)
    (hindent : (lineRead p head).indent = w.text)
    (hend : Expression.literal p (w.text ++ "End".toList) = w.text ++ "End".toList)
    (hline : Statement.ofLine? (lineRead p line) = some statement) (hbegin : isBegin line = false)
    (hcomplete : statement.isComplete rest = true) :
    let single : Feed := { state := s, body, ahead := head :: line :: rest }
    let block : Feed := { state := s, body, ahead := head :: (enclosed w [line] ++ rest) }
    (isIf (lineRead p head) = true →
      ∀ n, ((Feed.next p name)^[n + 1] single).Alike ((Feed.next p name)^[n + 3] block)) ∧
    (isWhile (lineRead p head) = true →
      let f := (Feed.next p name)^[2] single
      let g := (Feed.next p name)^[3] block
      f.ahead = rest ∧ g.ahead = rest ∧ f.state = s.push .whileLoop ∧ g.state = s ∧
        statements g.body = statements f.body ++ statements [tidy (w.text ++ "End Loop;".toList)]) := by
  intro single block
  have hvalue : (statement.convert p rest).value =
      (statement.convert p ((w.text ++ "End".toList) :: rest)).value := by
    refine Statement.value_convert_of_complete hcomplete ?_
    cases statement with
    | select indent modifiers items clause comment =>
      rw [Statement.isComplete, fromAhead_end, Bool.not_false, Bool.or_true]
    | _ => rfl
  refine ⟨fun hif n => ?_, fun hwhile => ?_⟩
  · rw [Function.iterate_add_apply, Function.iterate_add_apply]
    have hfirst : (single.next p name).Alike ((Feed.next p name)^[3] block) :=
      single_alike_block_of_if hend hline hbegin rfl rfl rfl rfl rfl hindent hvalue hif
    exact hfirst.iterate n
  · have hsingle : single.Extends ((Feed.next p name)^[2] single) _ _ rest :=
      single_of_while hline hbegin rfl hwhile
    have hblock : block.Extends ((Feed.next p name)^[3] block) _ _ rest :=
      block_of_while hend hline rfl hwhile
    refine ⟨hsingle.ahead, hblock.ahead, hsingle.state, hblock.state, ?_⟩
    rw [hblock.body, ← List.cons_append, appendLines_append, statements_appendLines, hsingle.body,
      hvalue]
    rfl

theorem single_alike_block_select :
    let line := "\t\tSELECT @n = Count(*) FROM T_Jobs -- jobs".toList
    let statement : Statement :=
      .select "\t\t".toList [] [("n".toList, "Count(*)".toList)] "FROM T_Jobs".toList "-- jobs".toList
    Text.indent (lineRead Profile.standard "\tIf @n = 0 -- none".toList) = "\t".toList ∧
      Expression.literal Profile.standard "\tEnd".toList = "\tEnd".toList ∧
      Statement.ofLine? (lineRead Profile.standard line) = some statement ∧ isBegin line = false ∧
      statement.isComplete ["\tElse".toList, "\t\tBreak".toList] = true ∧
      isIf (lineRead Profile.standard "\tIf @n = 0 -- none".toList) = true ∧
      ((Feed.next Profile.standard [])^[1] { ahead :=
          ["\tIf @n = 0 -- none".toList, line, "\tElse".toList, "\t\tBreak".toList] }).Alike
        ((Feed.next Profile.standard [])^[3] { ahead :=
          ["\tIf @n = 0 -- none".toList, "\tBegin".toList, line, "\tEnd".toList, "\tElse".toList,
            "\t\tBreak".toList] }) := by
  intro line statement
  have hindent : Text.indent (lineRead Profile.standard "\tIf @n = 0 -- none".toList) = "\t".toList := by
    decide
  have hend : Expression.literal Profile.standard "\tEnd".toList = "\tEnd".toList := by decide
  have hline : Statement.ofLine? (lineRead Profile.standard line) = some statement := by decide
  have hbegin : isBegin line = false := by decide
  have hcomplete : statement.isComplete ["\tElse".toList, "\t\tBreak".toList] = true := by decide
  have hif : isIf (lineRead Profile.standard "\tIf @n = 0 -- none".toList) = true := by decide
  exact ⟨hindent, hend, hline, hbegin, hcomplete, hif,
    (single_alike_block Profile.standard [] ⟨"\t".toList, by decide⟩ _ line statement {} [] _ hindent hend
      hline hbegin hcomplete).1 hif 0⟩

end SqlRoutine.Body

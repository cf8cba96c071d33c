import SqlRoutine.Proofs.Body.Bracketing
import SqlRoutine.Proofs.Body.Terminator.Declare

/-! # A semicolon after the code of a line

In a source line a statement may end in a semicolon, and in a converted body it does. **The semicolon of
the source changes nothing where the line absorbs it** (`Statement.Absorbs`, `listAbsorbs`), and in all
other cases something else is added (`step_terminated_iff`): it is left in the middle of the line, before
a comment, an `INTO` or the arguments of a call, or it stands for an item that cannot be read. -/

namespace SqlRoutine.Body

open Expression List Option

/-! ### What a line adds -/

/-- **The two outcomes add the same** lines to every body, and the same local variables. -/
structure Outcome.AddsSame (o o' : Outcome) : Prop where
  lines : ∀ body, appendLines body (texts o.lines) = appendLines body (texts o'.lines)
  locals : o.locals = o'.locals

/-- The lines are written, each as it is tidied up. -/
def Outcome.Visible (o : Outcome) : Prop := ∀ line ∈ texts o.lines, line.isBlank = false

theorem Outcome.addsSame_iff {o o' : Outcome} (h : o.Visible) (h' : o'.Visible) :
    o.AddsSame o' ↔ (texts o.lines).map tidy = (texts o'.lines).map tidy ∧ o.locals = o'.locals := by
  constructor
  · rintro ⟨hlines, hlocals⟩
    refine ⟨?_, hlocals⟩
    have hnil := hlines []
    rwa [appendLines_of_not_blank h, appendLines_of_not_blank h'] at hnil
  · rintro ⟨hlines, hlocals⟩
    refine ⟨fun body => ?_, hlocals⟩
    rw [appendLines_of_not_blank h, appendLines_of_not_blank h', hlines]

/-! ### Renamed lines -/

section

variable {p : Profile} (hp : p.functionNames = Profile.builtInFunctionNames)
include hp

theorem literal_tail (l : CodeLine) :
    literal p l.tail = l.blanks ++ literal p l.comment :=
  literal_indented hp l.isBlank l.comment

/-- **The line after the renaming** of functions and types. -/
def CodeLine.renamed (l : CodeLine) : CodeLine where
  code := literal p l.code
  blanks := l.blanks
  comment := literal p l.comment
  endsInCode := literal_endsInCode hp l.endsInCode
  isBlank := l.isBlank
  isComment := by
    rcases l.isComment with h | ⟨u, h⟩
    · rw [h, literal_nil hp]
      exact .inl rfl
    · have hdashes : ∀ c ∈ ['-', '-'], isWord c = false :=
        forall_mem_cons.mpr ⟨rfl, forall_mem_singleton.mpr rfl⟩
      rw [h]
      exact .inr ⟨_, literal_append_signs hp hdashes u⟩
  oneLine := by
    rw [← literal_tail hp l, ← literal_append_trailer hp l.isTrailer_tail]
    exact literal_oneLine hp l.oneLine

theorem literal_codeLine (l : CodeLine) : literal p l.source = (l.renamed hp).source := by
  rw [CodeLine.source, literal_append_trailer hp l.isTrailer_tail, literal_tail hp]
  rfl

theorem literal_terminated (l : CodeLine) : literal p l.terminated = (l.renamed hp).terminated := by
  have hsemicolon : literal p (';' :: l.tail) = ';' :: literal p l.tail :=
    literal_append_signs hp (forall_mem_singleton.mpr rfl) l.tail
  rw [CodeLine.terminated, literal_append_trailer hp l.isTrailer_terminated, hsemicolon,
    literal_tail hp]
  rfl

end

theorem CodeLine.isBlank_source (l : CodeLine) : l.source.isBlank = false := by
  rw [CodeLine.source, Text.isBlank_append, Code.endsInCode_isBlank l.endsInCode, Bool.false_and]

theorem CodeLine.isBlank_terminated (l : CodeLine) : l.terminated.isBlank = false := by
  rw [CodeLine.terminated, Text.isBlank_append, Code.endsInCode_isBlank l.endsInCode, Bool.false_and]

/-! ### Statements -/

section

variable {p : Profile} {line : Text} {ahead : List Text} {st : Statement}

theorem visible_unlessEmpty {value : Text} (h : value = [] ∨ value.isBlank = false) :
    ∀ line ∈ unlessEmpty value, line.isBlank = false := by
  rcases h with rfl | h
  · exact nofun
  · intro line hline
    unfold unlessEmpty at hline
    split_ifs at hline
    · cases hline
    · rwa [mem_singleton.mp hline]

/-- A text that is empty or visible is as good as its tidy form. -/
theorem map_tidy_unlessEmpty {value value' : Text} (h : value = [] ∨ value.isBlank = false)
    (h' : value' = [] ∨ value'.isBlank = false) :
    (unlessEmpty value).map tidy = (unlessEmpty value').map tidy ↔ tidy value = tidy value' := by
  have hnil : tidy [] = [] := rfl
  have hempty : unlessEmpty [] = [] := rfl
  have hne : ∀ {value : Text}, value.isBlank = false → tidy value ≠ [] ∧ unlessEmpty value = [value] := by
    intro value hvalue
    have hblank := tidy_isBlank value
    rw [hvalue] at hblank
    refine ⟨fun htidy => ?_, if_neg fun hempty => ?_⟩
    · rw [htidy] at hblank
      cases hblank
    · rw [List.isEmpty_iff.mp hempty] at hvalue
      cases hvalue
  rcases h with rfl | h <;> rcases h' with rfl | h'
  · simp
  · simp [hnil, hempty, hne h', (hne h').1.symm]
  · simp [hnil, hempty, hne h]
  · simp [hne h, hne h']

theorem value_cases (ahead : List Text) (h : Statement.ofLine? (literal p line) = some st)
    (hline : (literal p line).isBlank = false) :
    (st.convert p ahead).value = [] ∨ (st.convert p ahead).value.isBlank = false :=
  (statement_cases p ahead h hline).imp And.left And.left

/-- **A statement absorbs the semicolon or is changed by it.** -/
theorem addsSame_statement (hp : p.functionNames = Profile.builtInFunctionNames) (name : Text) (s : State)
    {l : CodeLine} (h : Statement.ofLine? (literal p l.source) = some st)
    (hcomment : ∀ c ∈ st.comment?, c = literal p l.comment)
    (hassign : ∀ indent target value comment, st = .assign indent target value comment →
      value.isBlank = false) :
    (step p name s l.terminated ahead).AddsSame (step p name s l.source ahead) ↔
      st.Absorbs p ahead (l.renamed hp) := by
  have hread : lineRead p l.source = literal p l.source := by
    rw [lineRead, l.isBlank_source, if_neg Bool.false_ne_true]
  have hread' : lineRead p l.terminated = literal p l.terminated := by
    rw [lineRead, l.isBlank_terminated, if_neg Bool.false_ne_true]
  have hvisible := literal_isBlank hp l.isBlank_source
  have hvisible' := literal_isBlank hp l.isBlank_terminated
  have hrenamed : Statement.ofLine? (l.renamed hp).source = some st := (literal_codeLine hp l) ▸ h
  obtain ⟨st', h', hgains⟩ := ofLine?_terminated hrenamed hcomment
  rw [← literal_terminated hp] at h'
  have hstep : (step p name s l.source ahead).Gives s (unlessEmpty (st.convert p ahead).value) 0 :=
    step_of_statement name s (hread ▸ h)
  have hstep' : (step p name s l.terminated ahead).Gives s (unlessEmpty (st'.convert p ahead).value) 0 :=
    step_of_statement name s (hread' ▸ h')
  have hvalue := value_cases ahead h hvisible
  have hvalue' := value_cases ahead h' hvisible'
  rw [Outcome.addsSame_iff (by rw [Outcome.Visible, hstep'.lines]; exact visible_unlessEmpty hvalue')
    (by rw [Outcome.Visible, hstep.lines]; exact visible_unlessEmpty hvalue), hstep.lines, hstep'.lines,
    hstep.locals, hstep'.locals, map_tidy_unlessEmpty hvalue' hvalue, hgains.tidy_eq_iff hcomment hassign]
  exact and_iff_left rfl

/-! ### Declarations -/

theorem step_of_declare {d : Declared} (name : Text) (s : State) (ahead : List Text)
    (hline : line.isBlank = false) (h : (declare? p (literal p line)).value = some d) :
    texts (step p name s line ahead).lines = d.lines ∧ (step p name s line ahead).locals = d.locals := by
  have hdeclare : declare? p (literal p line) =
      ⟨some d, (declare? p (literal p line)).notes⟩ := by
    rw [← h]
  rw [step, hline, if_neg Bool.false_ne_true]
  dsimp only
  rw [hdeclare]
  refine ⟨?_, rfl⟩
  rw [texts, List.map_map]
  exact List.map_id' _

/-- A list of variables that cannot be read is written like any other line, and declares nothing. -/
theorem step_of_unreadable (name : Text) (s : State) (ahead : List Text) (hline : line.isBlank = false)
    (hvisible : (literal p line).isBlank = false)
    (hopens : Text.opens "Declare".toList (literal p line))
    (h : (declare? p (literal p line)).value = none) :
    (step p name s line ahead).Visible ∧ texts (step p name s line ahead).lines ≠ [] ∧
      (step p name s line ahead).locals = [] := by
  have hdeclare : declare? p (literal p line) =
      ⟨none, (declare? p (literal p line)).notes⟩ := by
    rw [← h]
  have hstatement : Statement.ofLine? (literal p line) = none := by
    refine eq_none_iff_forall_ne_some.mpr fun st hst => ?_
    obtain ⟨keyword, hmem, hkeyword⟩ := opens_of_ofLine? hst
    have hnone := Text.keyword?_of_opens hkeyword
      (differ_of_mem_statementKeywords hmem (by decide) : Text.differ keyword "Declare".toList)
    rw [Text.opens, hnone] at hopens
    cases hopens
  have hlines : (step p name s line ahead).lines = (otherLine p s (literal p line)).lines ∧
      (step p name s line ahead).locals = [] := by
    have hlocals := undeclaredLine_locals p name s (literal p line) ahead
    rw [step, hline, if_neg Bool.false_ne_true]
    dsimp only
    rw [hdeclare]
    refine ⟨?_, hlocals⟩
    rw [undeclaredLine_of_not_end (end?_of_opens hopens rfl), isIf, startsWithCondition_of_opens hopens rfl,
      isWhile, startsWithCondition_of_opens hopens rfl]
    simp only [Bool.false_eq_true, if_false, plainLine, hstatement]
  obtain ⟨hne, hblank⟩ := otherLine_lines s hvisible
  rw [Outcome.Visible, hlines.1]
  refine ⟨fun t ht => ?_, by simpa [texts] using hne, hlines.2⟩
  obtain ⟨l, hl, rfl⟩ := List.mem_map.mp ht
  exact hblank l hl

theorem declare?_locals {d : Declared} (h : (declare? p line).value = some d) :
    (∀ t ∈ d.lines, t.isBlank = false) ∧ (d.locals = [] → d.lines = []) := by
  rw [declare?_value] at h
  obtain ⟨l, -, h⟩ := bind_eq_some_iff.mp h
  obtain ⟨list, -, rfl⟩ := map_eq_some_iff.mp h
  refine ⟨(declareVariables_cases l.indent list l.comment).1, fun hnil => ?_⟩
  rw [declareVariables_value] at hnil ⊢
  rw [map_eq_nil_iff.mp hnil]
  rfl

/-- **A declaration absorbs the semicolon or is changed by it.** -/
theorem addsSame_declaration (hp : p.functionNames = Profile.builtInFunctionNames) (name : Text) (s : State)
    {l : CodeLine} {d : DeclareLine} (h : declareLine? (literal p l.source) = some d)
    (hcomment : d.comment = literal p l.comment)
    (hread : (declare? p (literal p l.source)).value ≠ none) :
    (step p name s l.terminated ahead).AddsSame (step p name s l.source ahead) ↔
      listAbsorbs (literal p l.source) := by
  obtain ⟨declared, hdeclared⟩ := ne_none_iff_exists'.mp hread
  obtain ⟨hlines, hlocals⟩ := step_of_declare name s ahead l.isBlank_source hdeclared
  obtain ⟨hvisible, hnothing⟩ := declare?_locals hdeclared
  have hsource : (step p name s l.source ahead).Visible := by rwa [Outcome.Visible, hlines]
  have hcomments : ∀ line, declareLine? (literal p l.source) = some line →
      line.comment = literal p l.comment := by
    intro line hline
    rw [h] at hline
    rw [← Option.some.inj hline, hcomment]
  rw [literal_codeLine hp] at hdeclared hcomments
  have hgains := declare?_terminated hdeclared hcomments
  rw [← literal_codeLine hp, ← literal_terminated hp] at hgains
  cases hread' : (declare? p (literal p l.terminated)).value with
  | some declared' =>
    obtain ⟨hlines', hlocals'⟩ := step_of_declare name s ahead l.isBlank_terminated hread'
    rw [Outcome.addsSame_iff (by rw [Outcome.Visible, hlines']; exact (declare?_locals hread').1) hsource,
      hlines, hlines', hlocals, hlocals']
    split_ifs at hgains with habsorbs
    · obtain ⟨d', hd', hsame, htidy⟩ := hgains
      obtain rfl := Option.some.inj (hread'.symm.trans hd')
      exact iff_of_true ⟨htidy, hsame⟩ habsorbs
    · exact iff_of_false (fun hsame => hgains _ hread' hsame.2) habsorbs
  | none =>
    -- the line is written as it stands, which no declaration without local variables is
    have habsorbs : ¬listAbsorbs (literal p l.source) := by
      intro habsorbs
      rw [if_pos habsorbs] at hgains
      obtain ⟨d', hd', -⟩ := hgains
      rw [hread'] at hd'
      cases hd'
    have hopens : Text.opens "Declare".toList (literal p l.terminated) := by
      obtain ⟨rest, hrest, -⟩ := bind_eq_some_iff.mp h
      rw [literal_codeLine hp] at hrest
      rw [literal_terminated hp, CodeLine.opens_terminated (by decide)]
      exact Text.opens_of_keyword? hrest
    obtain ⟨hvisible', hne, hlocals'⟩ := step_of_unreadable name s ahead l.isBlank_terminated
      (literal_isBlank hp l.isBlank_terminated) hopens hread'
    rw [Outcome.addsSame_iff hvisible' hsource, hlines, hlocals, hlocals']
    refine iff_of_false (fun ⟨hsame, hnil⟩ => ?_) habsorbs
    rw [hnothing hnil.symm] at hsame
    exact hne (map_eq_nil_iff.mp hsame)

end

/-- **A semicolon after the code of a line** leaves what the line adds unchanged exactly where the
statement or the declaration absorbs it, whatever comes before and after the line. -/
theorem step_terminated_iff {p : Profile} (hp : p.functionNames = Profile.builtInFunctionNames) (l : CodeLine)
    (name : Text) (s : State) (ahead : List Text) :
    (∀ st, Statement.ofLine? (Expression.literal p l.source) = some st →
      (∀ c ∈ st.comment?, c = Expression.literal p l.comment) →
      (∀ indent target value comment, st = .assign indent target value comment → value.isBlank = false) →
        ((step p name s l.terminated ahead).AddsSame (step p name s l.source ahead) ↔
          st.Absorbs p ahead (l.renamed hp))) ∧
    ∀ d, declareLine? (Expression.literal p l.source) = some d →
      d.comment = Expression.literal p l.comment →
      (declare? p (Expression.literal p l.source)).value ≠ none →
        ((step p name s l.terminated ahead).AddsSame (step p name s l.source ahead) ↔
          listAbsorbs (Expression.literal p l.source) = true) :=
  ⟨fun _ h hcomment hassign => addsSame_statement hp name s h hcomment hassign,
    fun _ h hcomment hread => addsSame_declaration hp name s h hcomment hread⟩

/-- `Set @x = 1 -- c`. -/
def commentedAssignment : CodeLine where
  code := "Set @x = 1".toList
  blanks := [' ']
  comment := "-- c".toList
  endsInCode := by decide
  isBlank := by decide
  isComment := .inr ⟨" c".toList, rfl⟩
  oneLine := by decide

/-- `Declare @i int, @n int = 5 -- c`. -/
def commentedDeclaration : CodeLine where
  code := "Declare @i int, @n int = 5".toList
  blanks := [' ']
  comment := "-- c".toList
  endsInCode := by decide
  isBlank := by decide
  isComment := .inr ⟨" c".toList, rfl⟩
  oneLine := by decide

/-- Before a comment, the semicolon of an assignment stays in addition to the one that is written, but
that of a declaration is absorbed. -/
theorem step_terminated_commented :
    let set := commentedAssignment
    let declare := commentedDeclaration
    texts (step .standard [] {} set.terminated []).lines = ["_x := 1;; -- c".toList] ∧
    ¬(step .standard [] {} set.terminated []).AddsSame (step .standard [] {} set.source []) ∧
    (step .standard [] {} declare.terminated []).AddsSame (step .standard [] {} declare.source []) := by
  intro set declare
  have hset := (step_terminated_iff (p := .standard) rfl set [] {} []).1
    (.assign [] "x".toList "1".toList "-- c".toList) (by decide) (by decide)
    (by
      rintro _ _ _ _ ⟨⟩
      decide)
  obtain ⟨d, hd, hcomment⟩ : ∃ d, declareLine? (Expression.literal .standard declare.source) = some d ∧
      d.comment = Expression.literal .standard declare.comment := by
    refine Option.map_eq_some_iff.mp (?_ : Option.map DeclareLine.comment _ = _)
    decide
  have hdeclare := (step_terminated_iff (p := .standard) rfl declare [] {} []).2 d hd hcomment
    (by decide)
  refine ⟨by decide, fun hsame => ?_, hdeclare.mpr (by decide)⟩
  cases hset.mp hsame

end SqlRoutine.Body

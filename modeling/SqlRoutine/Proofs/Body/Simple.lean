import SqlRoutine.Body.Statement
import SqlRoutine.Proofs.Code.Quoting
import SqlRoutine.Proofs.Expression.Convert
import SqlRoutine.Proofs.Expression.Literal

/-! # Simple statements

The statements that a line can hold by itself: assignments, `Print`, calls, `Goto Done`, `Break` and
`Continue`. `SimpleLine.source` prints them for SQL Server, `SimpleLine.render` for PL/pgSQL. What is
read from a printed line, after the built-in renames, is the statement (`ofLine?_renamed`), and it is
converted into what is rendered (`convert_read`). -/

namespace SqlRoutine.Body

open Code Expression List Option Text

/-! ### Parts of a statement -/

/-- The blanks before a line. -/
structure Indentation where
  text : Text
  blank : text.isBlank

/-- A piece of code on one line, without an inline comment. -/
structure Phrase where
  text : Text
  oneLine : '\n' ∉ text
  noComment : (splitComment text).2 = []

/-- The name of a variable, without the sign before it. -/
structure VariableName where
  text : Text
  notEmpty : text ≠ []
  word : text.all isWord

/-- The name of a called routine. -/
structure Target where
  text : Text
  notEmpty : text ≠ []
  allowed : text.all isTargetChar

/-- The parameters of a call, with the blanks before them. **Parameters that start with a parenthesis
are left out**: the name before it is renamed if it is the name of a function. -/
structure Parameters extends Phrase where
  separate : text.head?.all isBlank
  notOpen : text.trimStart.head? ≠ some '('

/-- **A simple statement.** The jumps may end in a semicolon. -/
inductive Simple where
  | assign (target : VariableName) (value : Phrase) (notBlank : value.text.isBlank = false)
  | print (value : Phrase)
  | call (result : Option VariableName) (target : Target) (parameters : Parameters)
  | gotoDone (terminated : Bool)
  | breakLoop (terminated : Bool)
  | continueLoop (terminated : Bool)

/-- A semicolon, or nothing. -/
def terminator (terminated : Bool) : Text := if terminated then [';'] else []

namespace Simple

/-- The first word of the statement. -/
def keyword : Simple → Text
  | .assign .. => "Set".toList
  | .print _ => "Print".toList
  | .call .. => "Exec".toList
  | .gotoDone _ => "Goto".toList
  | .breakLoop _ => "Break".toList
  | .continueLoop _ => "Continue".toList

/-- What follows the first word, where the parts of the statement have been changed by `f`. -/
def afterKeyword (f : Text → Text) : Simple → Text
  | .assign target value _ => " @".toList ++ (f target.text ++ (" = ".toList ++ f value.text))
  | .print value => ' ' :: f value.text
  | .call none target parameters => ' ' :: (f target.text ++ f parameters.text)
  | .call (some result) target parameters =>
    " @".toList ++ (f result.text ++ (" = ".toList ++ (f target.text ++ f parameters.text)))
  | .gotoDone terminated => " Done".toList ++ terminator terminated
  | .breakLoop terminated => terminator terminated
  | .continueLoop terminated => terminator terminated

/-- The statement for SQL Server. -/
def source (s : Simple) : Text := s.keyword ++ s.afterKeyword id

/-- The statement for SQL Server after functions and types have been renamed. -/
def renamed (p : Profile) (s : Simple) : Text :=
  s.keyword ++ s.afterKeyword (Expression.literal p)

/-- **The statement for PL/pgSQL.** -/
def render (p : Profile) : Simple → Text
  | .assign target value _ =>
    '_' :: Expression.literal p target.text ++ " := ".toList ++
      (convert p (Expression.literal p value.text).trim).value ++ [';']
  | .print value =>
    "RAISE INFO '%', ".toList ++
      (convert p (Expression.literal p value.text).trim).value ++ [';']
  | .call _ target parameters =>
    "Call ".toList ++ callTarget p (Expression.literal p target.text) ++ " (".toList ++
      (convertParameters p (Expression.literal p parameters.text)).value ++ ");".toList
  | .gotoDone _ => "Return;".toList
  | .breakLoop _ => "Exit;".toList
  | .continueLoop _ => "Continue;".toList

end Simple

/-- **A line with a simple statement.** -/
structure SimpleLine where
  indent : Indentation
  statement : Simple

namespace SimpleLine

/-- The line for SQL Server. -/
def source (l : SimpleLine) : Text := l.indent.text ++ l.statement.source

/-- The line for PL/pgSQL. -/
def render (p : Profile) (l : SimpleLine) : Text := l.indent.text ++ l.statement.render p

end SimpleLine

/-! ### The renamed line -/

variable {p : Profile}

theorem VariableName.isToken (v : VariableName) : isToken v.text :=
  isToken_iff.mpr fun c hc =>
    tokenChar_of_isWord (List.all_eq_true.mp v.word c hc)

theorem isTargetChar_iff {c : Char} :
    isTargetChar c ↔ isBlank c = false ∧ c ≠ '(' ∧ c ≠ '@' := by
  simp [isTargetChar, and_assoc]

theorem Target.isToken (t : Target) : isToken t.text := by
  refine isToken_iff.mpr fun c hc => ?_
  obtain ⟨hblank, hopen, -⟩ := isTargetChar_iff.mp (List.all_eq_true.mp t.allowed c hc)
  exact ⟨hblank, hopen⟩

section

variable (hp : p.functionNames = Profile.builtInFunctionNames)
include hp

theorem literal_assignment (v : VariableName) (t : Text) :
    Expression.literal p (v.text ++ (" = ".toList ++ t)) =
      Expression.literal p v.text ++ (" = ".toList ++ Expression.literal p t) := by
  have hsign := literal_passed hp (b := []) (s := " = ".toList) rfl
    (by decide) rfl t
  rw [nil_append] at hsign
  have hseparate : Separate (" = ".toList ++ t) :=
    ⟨rfl, fun h => absurd (Option.some.inj h) (by decide)⟩
  rw [literal_append hp v.isToken hseparate, hsign]

theorem literal_source (l : SimpleLine) :
    Expression.literal p l.source = l.indent.text ++ l.statement.renamed p := by
  have hpassed : ∀ (s t : Text), avoids ruleStarts s →
      s.getLast?.any isWord = false → Expression.literal p (l.indent.text ++ (s ++ t)) =
        l.indent.text ++ (s ++ Expression.literal p t) := by
    intro s t hs hend
    have h := literal_passed hp l.indent.blank hs hend t
    rwa [append_assoc, append_assoc] at h
  have hcall : ∀ (target : Target) (parameters : Parameters),
      Expression.literal p (target.text ++ parameters.text) =
        Expression.literal p target.text ++ Expression.literal p parameters.text :=
    fun target parameters =>
      literal_append hp target.isToken ⟨parameters.separate, parameters.notOpen⟩
  obtain ⟨w, s⟩ := l
  unfold SimpleLine.source Simple.source Simple.renamed
  dsimp only at hpassed ⊢
  cases s with
  | assign target value _ =>
    have h := hpassed "Set @".toList (target.text ++ (" = ".toList ++ value.text))
      (by decide) rfl
    rw [literal_assignment hp] at h
    exact h
  | print value => exact hpassed "Print ".toList value.text (by decide) rfl
  | call result target parameters =>
    cases result with
    | none =>
      have h := hpassed "Exec ".toList (target.text ++ parameters.text) (by decide) rfl
      rw [hcall] at h
      exact h
    | some result =>
      have h := hpassed "Exec @".toList (result.text ++ (" = ".toList ++
        (target.text ++ parameters.text))) (by decide) rfl
      rw [literal_assignment hp, hcall] at h
      exact h
  | gotoDone terminated =>
    cases terminated <;> exact literal_avoids hp w.blank (by decide)
  | breakLoop terminated =>
    cases terminated <;> exact literal_avoids hp w.blank (by decide)
  | continueLoop terminated =>
    cases terminated <;> exact literal_avoids hp w.blank (by decide)

end

/-! ### First words -/

/-- The first words of simple statements. -/
def simpleKeywords : List Text :=
  ["Set".toList, "Print".toList, "Exec".toList, "Goto".toList, "Break".toList, "Continue".toList]

theorem Simple.keyword_mem : ∀ s : Simple, s.keyword ∈ simpleKeywords
  | .assign .. => .head _
  | .print _ => .tail _ (.head _)
  | .call .. => .tail _ (.tail _ (.head _))
  | .gotoDone _ => .tail _ (.tail _ (.tail _ (.head _)))
  | .breakLoop _ => .tail _ (.tail _ (.tail _ (.tail _ (.head _))))
  | .continueLoop _ => .tail _ (.tail _ (.tail _ (.tail _ (.tail _ (.head _)))))

/-- The keyword starts with a visible character. -/
def isVisibleWord (keyword : Text) : Bool := keyword.head?.any fun c => !isBlank c

theorem indent_and_trimStart {w : Text} (hw : w.isBlank) (keyword : Text)
    (hkeyword : isVisibleWord keyword) (t : Text) :
    indent (w ++ (keyword ++ t)) = w ∧ trimStart (w ++ (keyword ++ t)) = keyword ++ t := by
  cases keyword with
  | nil => cases hkeyword
  | cons c cs =>
    rw [isVisibleWord, head?_cons, any_some, Bool.not_eq_true'] at hkeyword
    rw [cons_append, indent_append hw hkeyword, trimStart_append hw,
      trimStart_of_head hkeyword]
    exact ⟨rfl, rfl⟩

theorem opens_append {w keyword : Text} (hw : w.isBlank)
    (hkeyword : isVisibleWord keyword) (t : Text) :
    opens keyword (w ++ (keyword ++ t)) := by
  have hread : keyword? keyword (trimStart (w ++ (keyword ++ t))) = some t := by
    rw [(indent_and_trimStart hw keyword hkeyword t).2]
    exact keyword?_append rfl t
  exact opens_of_keyword? hread

theorem Simple.opens (s : Simple) {w : Text} (hw : w.isBlank) (t : Text) :
    opens s.keyword (w ++ (s.keyword ++ t)) :=
  opens_append hw (by cases s <;> rfl) t

theorem Simple.differ {other : Text} (h : (simpleKeywords.all (differ · other)))
    (s : Simple) : differ s.keyword other :=
  List.all_eq_true.mp h _ s.keyword_mem

/-! ### Reading -/

/-- The statement that is read from the line. -/
def SimpleLine.read (p : Profile) (l : SimpleLine) : Statement :=
  match l.statement with
  | .assign target value _ =>
    .assign l.indent.text (Expression.literal p target.text)
      (trimStart (Expression.literal p value.text)) []
  | .print value => .print l.indent.text (trimStart (Expression.literal p value.text)) []
  | .call _ target parameters =>
    .call l.indent.text (Expression.literal p target.text)
      (trimStart (Expression.literal p parameters.text)) []
  | .gotoDone _ => .gotoDone l.indent.text
  | .breakLoop _ => .breakLoop l.indent.text
  | .continueLoop terminated =>
    .continueLoop (l.indent.text ++ ("Continue".toList ++ terminator terminated))

section

variable (hp : p.functionNames = Profile.builtInFunctionNames)
include hp

theorem Phrase.noComment_literal (t : Phrase) :
    splitComment (trimStart (Expression.literal p t.text)) =
      (trimStart (Expression.literal p t.text), []) := by
  have h := t.noComment
  rw [splitComment_snd] at h
  refine splitComment_of_none ?_
  rw [commentFrom_trimStart]
  exact literal_noComment hp h

theorem Phrase.restOfLine?_literal (t : Phrase) :
    restOfLine? (trimStart (Expression.literal p t.text)) =
      some (trimStart (Expression.literal p t.text)) :=
  restOfLine?_of_oneLine fun h =>
    literal_oneLine hp t.oneLine (trimStart_subset _ h)

theorem VariableName.atName?_literal (v : VariableName) {t : Text}
    (ht : t.head?.all (fun c => !isWord c)) :
    atName? ('@' :: (Expression.literal p v.text ++ t)) =
      some (Expression.literal p v.text, t) := by
  have hword : (Expression.literal p v.text).all isWord :=
    literal_all hp (fun _ => id) (fun _ => tokenChar_of_isWord) v.word
  exact name?_append (literal_ne_nil hp v.isToken v.notEmpty) hword ht

theorem Target.allowed_literal (t : Target) :
    (Expression.literal p t.text).all isTargetChar := by
  refine literal_all hp (fun c hc => ?_) (fun c hc => ?_) t.allowed
  · obtain ⟨hblank, hopen⟩ := tokenChar_of_isWord hc
    refine isTargetChar_iff.mpr ⟨hblank, hopen, ?_⟩
    rintro rfl
    cases hc
  · obtain ⟨hblank, hopen, -⟩ := isTargetChar_iff.mp hc
    exact ⟨hblank, hopen⟩

theorem Target.literal_eq (t : Target) :
    ∃ c cs, Expression.literal p t.text = c :: cs ∧ isBlank c = false ∧ c ≠ '@' := by
  obtain ⟨c, cs, h⟩ := exists_cons_of_ne_nil
    (literal_ne_nil hp t.isToken t.notEmpty)
  have hall := t.allowed_literal hp
  rw [h] at hall
  obtain ⟨hblank, -, hat⟩ := isTargetChar_iff.mp (List.all_eq_true.mp hall c mem_cons_self)
  exact ⟨c, cs, h, hblank, hat⟩

theorem Parameters.stops_literal (t : Parameters) :
    (Expression.literal p t.text).head?.all (fun c => !isTargetChar c) := by
  have hblank := (literal_separate hp ⟨t.separate, t.notOpen⟩).blank
  cases h : (Expression.literal p t.text).head? with
  | none => rfl
  | some c =>
    rw [h, all_some] at hblank
    simp [isTargetChar, hblank]

/-- A variable that receives the result of a call is left out. -/
theorem afterResult_renamed (result : Option VariableName) (target : Target)
    (parameters : Parameters) :
    (blanks? ((Simple.call result target parameters).afterKeyword (Expression.literal p))).map
        afterResult =
      some (Expression.literal p target.text ++ Expression.literal p parameters.text) := by
  obtain ⟨c, cs, htarget, hblank, hat⟩ := target.literal_eq hp
  have htrim : trimStart (' ' :: (c :: cs ++ Expression.literal p parameters.text)) =
      c :: cs ++ Expression.literal p parameters.text :=
    trimStart_of_head hblank
  cases result with
  | none =>
    have hblanks : ∀ t : Text, blanks? (' ' :: t) = some (trimStart (' ' :: t)) :=
      fun _ => rfl
    have hname : atName? (c :: cs ++ Expression.literal p parameters.text) = none := by
      simp [atName?, char?, hat]
    unfold Simple.afterKeyword
    simp only [htarget, hblanks, htrim, map_some, afterResult, hname, bind_none]
  | some result =>
    have hblanks : ∀ t : Text, blanks? (" @".toList ++ t) = some ('@' :: t) := fun _ => rfl
    have hsign : ∀ t : Text, char? '=' (trimStart (" = ".toList ++ t)) = some (' ' :: t) :=
      fun _ => rfl
    have hname := result.atName?_literal hp (t := " = ".toList ++
      (c :: cs ++ Expression.literal p parameters.text)) rfl
    unfold Simple.afterKeyword
    simp only [htarget, hblanks, map_some, afterResult, hname, bind_some, hsign, htrim]

end

section

variable {w : Text} (hw : w.isBlank)
include hw

theorem gotoDone?_renamed (terminated : Bool) :
    gotoDone? (w ++ (Simple.gotoDone terminated).renamed p) = some (.gotoDone w) := by
  obtain ⟨hindent, htrim⟩ := indent_and_trimStart hw "Goto".toList rfl
    (" Done".toList ++ terminator terminated)
  unfold gotoDone? Simple.renamed Simple.keyword Simple.afterKeyword
  rw [hindent, htrim, keyword?_append rfl]
  cases terminated <;> rfl

theorem breakLoop?_renamed (terminated : Bool) :
    breakLoop? (w ++ (Simple.breakLoop terminated).renamed p) = some (.breakLoop w) := by
  obtain ⟨hindent, htrim⟩ := indent_and_trimStart hw "Break".toList rfl
    (terminator terminated)
  unfold breakLoop? Simple.renamed Simple.keyword Simple.afterKeyword
  rw [hindent, htrim, keyword?_append rfl]
  cases terminated <;> rfl

theorem continueLoop?_renamed (terminated : Bool) :
    continueLoop? (w ++ (Simple.continueLoop terminated).renamed p) =
      some (.continueLoop (w ++ ("Continue".toList ++ terminator terminated))) := by
  obtain ⟨-, htrim⟩ := indent_and_trimStart hw "Continue".toList rfl
    (terminator terminated)
  unfold continueLoop? Simple.renamed Simple.keyword Simple.afterKeyword
  rw [htrim, keyword?_append rfl]
  cases terminated <;> rfl

variable (hp : p.functionNames = Profile.builtInFunctionNames)
include hp

theorem assign?_renamed (target : VariableName) (value : Phrase)
    {notBlank : value.text.isBlank = false} :
    assign? (w ++ (Simple.assign target value notBlank).renamed p) =
      some (.assign w (Expression.literal p target.text)
        (trimStart (Expression.literal p value.text)) []) := by
  obtain ⟨hindent, htrim⟩ := indent_and_trimStart hw "Set".toList rfl
    (" @".toList ++ (Expression.literal p target.text ++ (" = ".toList ++
      Expression.literal p value.text)))
  have hblanks : ∀ t : Text, blanks? (" @".toList ++ t) = some ('@' :: t) := fun _ => rfl
  have hsign : ∀ t : Text, char? '=' (trimStart (" = ".toList ++ t)) = some (' ' :: t) :=
    fun _ => rfl
  have hvalue : ∀ t : Text, trimStart (' ' :: t) = trimStart t := fun _ => rfl
  unfold assign? Simple.renamed Simple.keyword Simple.afterKeyword
  rw [hindent, htrim, keyword?_append rfl]
  simp only [bind_eq_bind, bind_some, hblanks,
    target.atName?_literal hp (t := " = ".toList ++ _) rfl, hsign, hvalue,
    value.restOfLine?_literal hp, value.noComment_literal hp]
  rfl

theorem print?_renamed (value : Phrase) :
    print? (w ++ (Simple.print value).renamed p) =
      some (.print w (trimStart (Expression.literal p value.text)) []) := by
  obtain ⟨hindent, htrim⟩ := indent_and_trimStart hw "Print".toList rfl
    (' ' :: Expression.literal p value.text)
  have hvalue : ∀ t : Text, trimStart (' ' :: t) = trimStart t := fun _ => rfl
  have hend : ∀ t : Text, atWordEnd (' ' :: t) := fun _ => rfl
  unfold print? Simple.renamed Simple.keyword Simple.afterKeyword
  rw [hindent, htrim, word?, keyword?_append rfl]
  simp only [bind_eq_bind, bind_some, hend, if_true, hvalue,
    value.restOfLine?_literal hp, value.noComment_literal hp]
  rfl

theorem call?_renamed (result : Option VariableName) (target : Target) (parameters : Parameters) :
    call? (w ++ (Simple.call result target parameters).renamed p) =
      some (.call w (Expression.literal p target.text)
        (trimStart (Expression.literal p parameters.text)) []) := by
  obtain ⟨hindent, htrim⟩ := indent_and_trimStart hw "Exec".toList rfl
    ((Simple.call result target parameters).afterKeyword (Expression.literal p))
  obtain ⟨rest, hblanks, hafter⟩ := map_eq_some_iff.mp
    (afterResult_renamed hp result target parameters)
  have hkeyword : ∀ t : Text, t.head?.all isBlank →
      anyKeyword? ["Execute".toList, "Exec".toList] ("Exec".toList ++ t) = some t := by
    intro t ht
    have hplain := isPlainWord_iff.mp
      (by decide : isPlainWord "Execute".toList)
    have hlong : keyword? "Execute".toList ("Exec".toList ++ t) = none :=
      stops_keyword?_of_isBlank (fun c hc => (hplain.2 c hc).1) ht "Exec".toList
    rw [anyKeyword?, findSome?_cons, hlong, findSome?_cons, keyword?_append rfl]
  obtain ⟨htake, hdrop⟩ := run_append (target.allowed_literal hp)
    (parameters.stops_literal hp)
  unfold call? Simple.renamed Simple.keyword
  rw [hindent, htrim, hkeyword _ (by cases result <;> rfl)]
  have hne : (Expression.literal p target.text).isEmpty = false :=
    isEmpty_eq_false_iff.mpr (literal_ne_nil hp target.isToken target.notEmpty)
  simp only [bind_eq_bind, bind_some, hblanks, hafter, htake, hdrop, hne,
    Bool.false_eq_true, if_false, parameters.toPhrase.restOfLine?_literal hp,
    parameters.toPhrase.noComment_literal hp]
  rfl

end

section

variable {line : Text}

theorem assign?_none (h : keyword? "Set".toList line.trimStart = none) : assign? line = none := by
  unfold assign?; rw [h]; rfl

theorem print?_none (h : keyword? "Print".toList line.trimStart = none) : print? line = none := by
  unfold print? word?; rw [h]; rfl

theorem rowCount?_none (h : keyword? "SELECT".toList line.trimStart = none) :
    rowCount? line = none := by
  unfold rowCount? word?; rw [h]; rfl

theorem select?_none (h : keyword? "SELECT".toList line.trimStart = none) : select? line = none := by
  unfold select? selectLine?; rw [h]; rfl

theorem gotoDone?_none (h : keyword? "Goto".toList line.trimStart = none) :
    gotoDone? line = none := by
  unfold gotoDone?; rw [h]; rfl

theorem breakLoop?_none (h : keyword? "Break".toList line.trimStart = none) :
    breakLoop? line = none := by
  unfold breakLoop?; rw [h]; rfl

theorem continueLoop?_none (h : keyword? "Continue".toList line.trimStart = none) :
    continueLoop? line = none := by
  unfold continueLoop?; rw [h]; rfl

end

/-- **From the renamed line the statement is read.** -/
theorem ofLine?_renamed (hp : p.functionNames = Profile.builtInFunctionNames) (l : SimpleLine) :
    Statement.ofLine? (l.indent.text ++ l.statement.renamed p) = some (l.read p) := by
  have hother : ∀ keyword : Text, differ l.statement.keyword keyword →
      keyword? keyword (trimStart (l.indent.text ++ l.statement.renamed p)) = none :=
    fun keyword h => keyword?_of_opens (l.statement.opens l.indent.blank _) h
  obtain ⟨w, s⟩ := l
  unfold Statement.ofLine? SimpleLine.read
  dsimp only at hother ⊢
  cases s with
  | assign target value _ => rw [assign?_renamed w.blank hp]; rfl
  | print value => rw [assign?_none (hother _ rfl), print?_renamed w.blank hp]; rfl
  | call result target parameters =>
    rw [assign?_none (hother _ rfl), print?_none (hother _ rfl), rowCount?_none (hother _ rfl),
      select?_none (hother _ rfl), gotoDone?_none (hother _ rfl), breakLoop?_none (hother _ rfl),
      continueLoop?_none (hother _ rfl), call?_renamed w.blank hp]
    rfl
  | gotoDone terminated =>
    rw [assign?_none (hother _ rfl), print?_none (hother _ rfl), rowCount?_none (hother _ rfl),
      select?_none (hother _ rfl), gotoDone?_renamed w.blank]
    rfl
  | breakLoop terminated =>
    rw [assign?_none (hother _ rfl), print?_none (hother _ rfl), rowCount?_none (hother _ rfl),
      select?_none (hother _ rfl), gotoDone?_none (hother _ rfl), breakLoop?_renamed w.blank]
    rfl
  | continueLoop terminated =>
    rw [assign?_none (hother _ rfl), print?_none (hother _ rfl), rowCount?_none (hother _ rfl),
      select?_none (hother _ rfl), gotoDone?_none (hother _ rfl), breakLoop?_none (hother _ rfl),
      continueLoop?_renamed w.blank]
    rfl

theorem withComment_nil (t : Text) : withComment t [] = t := rfl

theorem convertParameters_trimStart (t : Text) :
    convertParameters p t.trimStart = convertParameters p t := by
  unfold convertParameters bareParameters
  rw [trim_trimStart]

theorem addTerminator_continue {w : Text} (hw : w.isBlank) (terminated : Bool) :
    addTerminator (w ++ ("Continue".toList ++ terminator terminated)) =
      w ++ "Continue;".toList := by
  have hcomment : commentFrom false (w ++ ("Continue".toList ++ terminator terminated)) = [] := by
    rw [commentFrom_append (isBare_of_isBlank hw)]
    cases terminated <;> rfl
  have hblank : Text.isBlank (w ++ ("Continue".toList ++ terminator terminated)) = false := by
    rw [isBlank_append, hw]
    cases terminated <;> rfl
  have hend : endsWith (w ++ ("Continue".toList ++ terminator terminated)) [';'] = terminated := by
    unfold endsWith
    rw [reverse_append]
    cases terminated <;> rfl
  unfold addTerminator
  rw [splitComment_of_none hcomment]
  dsimp only
  rw [hblank, if_neg Bool.false_ne_true, withComment_nil, hend]
  cases terminated
  · rw [if_neg Bool.false_ne_true, append_assoc]
    rfl
  · rfl

/-- **The statement is converted into what is rendered**, whatever comes after it. -/
theorem convert_read (hp : p.functionNames = Profile.builtInFunctionNames) (l : SimpleLine)
    (ahead : List Text) : ((l.read p).convert p ahead).value = l.render p := by
  obtain ⟨w, s⟩ := l
  unfold SimpleLine.read SimpleLine.render Simple.render
  cases s with
  | assign target value notBlank =>
    have hvalue : Text.isBlank (trimStart (Expression.literal p value.text)) = false := by
      rw [isBlank_trimStart]
      exact literal_isBlank hp notBlank
    have hsign : " := ".toList = " :=".toList ++ [' '] := rfl
    simp only [Statement.convert, hvalue, Bool.false_eq_true, if_false, Noted.value_bind,
      Noted.value_pure, withComment_nil, trim_trimStart, hsign, append_assoc,
      cons_append, nil_append]
  | print value =>
    simp only [Statement.convert, Noted.value_bind, Noted.value_pure, withComment_nil,
      trim_trimStart, append_assoc]
  | call result target parameters =>
    simp only [Statement.convert, Noted.value_bind, Noted.value_pure, withComment_nil,
      convertParameters_trimStart, append_assoc]
  | gotoDone terminated => simp only [Statement.convert, Noted.value_pure]
  | breakLoop terminated => simp only [Statement.convert, Noted.value_pure]
  | continueLoop terminated =>
    simp only [Statement.convert, Noted.value_pure, addTerminator_continue w.blank]

end SqlRoutine.Body

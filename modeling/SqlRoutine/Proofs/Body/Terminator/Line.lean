import SqlRoutine.Body.Statement
import SqlRoutine.Proofs.Text.Opening

/-! # Lines with a semicolon after their code

A `CodeLine` is a line whose code ends in neither a blank nor a semicolon, with blanks and perhaps a
comment after it. When a semicolon is set right after the code, the same statement is read with the
semicolon at the end of what was read last (`Statement.Gains`). This module shows it for assignments,
messages, row counts and jumps. -/

namespace SqlRoutine.Code

open List Text

theorem splitComment_dashes {m : Text} (hm : commentFrom false m = [])
    (hquoted : endsQuoted false m = false) (hlast : m.getLast? ≠ some '-') (u : Text) :
    splitComment (m ++ '-' :: '-' :: u) = (m.trimEnd, '-' :: '-' :: u) := by
  have hdashes : splitAtDashes false ('-' :: '-' :: u) = ([], '-' :: '-' :: u) := rfl
  rw [splitComment, splitAtDashes_append hm fun h => absurd h hlast, hquoted, hdashes, append_nil]

theorem trimEnd_of_isBlank {t : Text} (h : t.isBlank) : t.trimEnd = [] :=
  rdropWhile_eq_nil_iff.mpr (isBlank_eq_true_iff.mp h)

theorem trimEnd_of_endsInCode {t b : Text} (ht : endsInCode t) (hb : b.isBlank) :
    trimEnd (t ++ b) = t := by
  obtain ⟨x, c, rfl, hc⟩ := endsInCode_iff.mp ht
  rw [append_assoc, singleton_append, trimEnd_append_cons x (Bool.or_eq_false_iff.mp hc).2,
    trimEnd_of_isBlank hb]

theorem getLast?_ne_dash {t b : Text} (hb : b.isBlank) :
    (t ++ ';' :: b).getLast? ≠ some '-' := by
  intro hlast
  rw [getLast?_append, getLast?_cons] at hlast
  cases hlast' : b.getLast? with
  | none =>
    rw [hlast'] at hlast
    cases hlast
  | some c =>
    rw [hlast'] at hlast
    obtain rfl := Option.some.inj hlast
    have hblank := isBlank_eq_true_iff.mp hb _ (mem_of_getLast? hlast')
    cases hblank

theorem endsInCode_trimStart {t : Text} (h : endsInCode t) : endsInCode t.trimStart := by
  refine endsInCode_suffix h (dropWhile_suffix _) fun hnil => ?_
  have hblank := isBlank_trimStart t
  rw [hnil, endsInCode_isBlank h] at hblank
  cases hblank

theorem ne_nil_of_endsInCode {t : Text} (h : endsInCode t) : t ≠ [] := by
  rintro rfl
  cases h

/-- **The comment after a semicolon is the same**, if it is the comment of the text without it. The text
may start with blanks. -/
theorem splitComment_terminated {r b c : Text} (hr : r = [] ∨ endsInCode r)
    (hb : b.isBlank) (hc : c = [] ∨ ∃ u, c = '-' :: '-' :: u)
    (h : (splitComment (trimStart (r ++ (b ++ c)))).2 = c) :
    ∃ w w' : Text, w.isBlank ∧ w'.isBlank ∧ (w ≠ [] → c = []) ∧
      splitComment (trimStart (r ++ (b ++ c))) = (r.trimStart ++ w, c) ∧
      splitComment (trimStart (r ++ ';' :: (b ++ c))) = (r.trimStart ++ ';' :: w', c) := by
  have hbare := isBare_of_isBlank hb
  have hbare' : isBare (';' :: b) := hbare
  -- the semicolon and the blanks after a text without a comment
  have hmore : ∀ {v : Text}, commentFrom false v = [] → commentFrom false (v ++ ';' :: b) = [] :=
    fun hv => commentFrom_append_of_isBare hbare' hv
  have hend : ∀ v : Text, trimEnd (v ++ ';' :: b) = v ++ [';'] := by
    intro v
    rw [trimEnd_append_cons v rfl, trimEnd_of_isBlank hb]
  rcases hr with rfl | hr
  · have hterminated : trimStart ([] ++ ';' :: (b ++ c)) = [] ++ ';' :: b ++ c :=
      trimStart_of_head rfl
    rw [nil_append, trimStart_append hb, hterminated]
    rcases hc with rfl | ⟨u, rfl⟩
    · refine ⟨[], b, rfl, hb, nofun, rfl, ?_⟩
      rw [append_nil, splitComment_of_none (hmore (v := []) rfl)]
      rfl
    · refine ⟨[], [], rfl, rfl, nofun, rfl, ?_⟩
      rw [splitComment_dashes (hmore (v := []) rfl) (endsQuoted_append_of_isBare hbare' [] false)
        (getLast?_ne_dash hb), hend]
      rfl
  · have hstart := fun z => (indent_and_trimStart_append (endsInCode_isBlank hr) z).2
    have hv := endsInCode_trimStart hr
    rw [hstart] at h
    rw [hstart, hstart]
    generalize r.trimStart = v at h hv
    rw [splitComment_snd] at h
    have hsplit : v ++ ';' :: (b ++ c) = v ++ ';' :: b ++ c := by simp
    rw [hsplit]
    rcases hc with rfl | ⟨u, rfl⟩
    · rw [append_nil] at h
      refine ⟨b, b, hb, hb, fun _ => rfl, ?_, ?_⟩
      · rw [append_nil, splitComment_of_none h]
      · rw [append_nil, splitComment_of_none (hmore (commentFrom_of_append h))]
    · have happend := splitAtDashes_fst_append_snd false (v ++ (b ++ '-' :: '-' :: u))
      have hcode : splitAtDashes false (v ++ (b ++ '-' :: '-' :: u)) = (v ++ b, '-' :: '-' :: u) := by
        refine Prod.ext ?_ h
        unfold commentFrom at h
        rw [h] at happend
        exact append_cancel_right (happend.trans (append_assoc v b _).symm)
      obtain ⟨-, hnone, hquoted, hlast, -⟩ := splitAtDashes_spec hcode (by simp)
      have hvnone := commentFrom_of_append hnone
      rw [endsQuoted_append_of_isBare hbare] at hquoted
      refine ⟨[], [], rfl, rfl, nofun, ?_, ?_⟩
      · rw [← append_assoc, splitComment_dashes hnone
          ((endsQuoted_append_of_isBare hbare v false).trans hquoted) hlast,
          trimEnd_of_endsInCode hv hb, append_nil]
      · rw [splitComment_dashes (hmore hvnone)
          ((endsQuoted_append_of_isBare hbare' v false).trans hquoted) (getLast?_ne_dash hb), hend]

end SqlRoutine.Code

namespace SqlRoutine.Body

open Code List Option Text

/-! ### Lines of code -/

/-- **A line of code** that does not end in a semicolon, with blanks and perhaps a comment after it. -/
structure CodeLine where
  code : Text
  blanks : Text
  comment : Text
  endsInCode : endsInCode code
  isBlank : blanks.isBlank
  isComment : comment = [] ∨ ∃ u, comment = '-' :: '-' :: u
  oneLine : '\n' ∉ code ++ (blanks ++ comment)

namespace CodeLine

variable (l : CodeLine)

/-- What follows the code. -/
def tail : Text := l.blanks ++ l.comment

/-- The line as it stands. -/
def source : Text := l.code ++ l.tail

/-- **The line with a semicolon** right after the code. -/
def terminated : Text := l.code ++ ';' :: l.tail

theorem isTrailer_tail : isTrailer l.tail := by
  rw [tail, isTrailer_append l.isBlank]
  rcases l.isComment with h | ⟨u, h⟩
  · rw [h]
    rfl
  · rw [h]
    rfl

theorem isTrailer_terminated : isTrailer (';' :: l.tail) := rfl

theorem trimStart_tail : l.tail.trimStart = l.comment := by
  rw [tail, trimStart_append l.isBlank]
  rcases l.isComment with h | ⟨u, h⟩ <;> rw [h] <;> rfl

/-- The line without the blanks before it. -/
def start : Text := l.code.trimStart

theorem trimStart_source : l.source.trimStart = l.start ++ l.tail :=
  (indent_and_trimStart_append (endsInCode_isBlank l.endsInCode) _).2

theorem trimStart_terminated : l.terminated.trimStart = l.start ++ ';' :: l.tail :=
  (indent_and_trimStart_append (endsInCode_isBlank l.endsInCode) _).2

theorem indent_source : l.source.indent = l.code.indent :=
  (indent_and_trimStart_append (endsInCode_isBlank l.endsInCode) _).1

theorem indent_terminated : l.terminated.indent = l.code.indent :=
  (indent_and_trimStart_append (endsInCode_isBlank l.endsInCode) _).1

theorem endsInCode_of_suffix {r : Text} (h : r <:+ l.start) : r = [] ∨ Code.endsInCode r := by
  by_cases hr : r = []
  · exact .inl hr
  · exact .inr (endsInCode_suffix l.endsInCode (h.trans (dropWhile_suffix _)) hr)

theorem oneLine_of_suffix {r : Text} (h : r <:+ l.start) : '\n' ∉ r ++ ';' :: l.tail := by
  have hline := l.oneLine
  have hr : r ⊆ l.code := (h.trans (dropWhile_suffix _)).subset
  simp only [mem_append, not_or, tail, mem_cons] at hline ⊢
  exact ⟨fun hin => hline.1 (hr hin), by decide, hline.2⟩

theorem restOfLine?_source {r : Text} (h : r <:+ l.start) :
    restOfLine? (trimStart (r ++ l.tail)) = some (trimStart (r ++ l.tail)) := by
  refine restOfLine?_of_oneLine fun hin => l.oneLine_of_suffix h ?_
  have hin := trimStart_subset _ hin
  simp only [mem_append, mem_cons] at hin ⊢
  exact hin.imp id .inr

theorem restOfLine?_terminated {r : Text} (h : r <:+ l.start) :
    restOfLine? (trimStart (r ++ ';' :: l.tail)) =
      some (trimStart (r ++ ';' :: l.tail)) :=
  restOfLine?_of_oneLine fun hin => l.oneLine_of_suffix h (trimStart_subset _ hin)

/-- What comes after an opening: its text and its comment, without and with the semicolon. -/
theorem splitComment_rest {r : Text} (h : r <:+ l.start)
    (hcomment : (splitComment (trimStart (r ++ l.tail))).2 = l.comment) :
    ∃ w w' : Text, w.isBlank ∧ w'.isBlank ∧ (w ≠ [] → l.comment = []) ∧
      splitComment (trimStart (r ++ l.tail)) = (r.trimStart ++ w, l.comment) ∧
      splitComment (trimStart (r ++ ';' :: l.tail)) = (r.trimStart ++ ';' :: w', l.comment) :=
  splitComment_terminated (l.endsInCode_of_suffix h) l.isBlank l.isComment hcomment

theorem comment_suffix {s : Text} (hcomment : (splitComment s).2 = l.comment) : l.comment <:+ s := by
  rw [← hcomment, splitComment_snd]
  exact ⟨_, splitAtDashes_fst_append_snd false s⟩

end CodeLine

/-! ### Statements that gain a semicolon -/

/-- **What is read of a line with a semicolon** in place of what is read without it. A value, a clause or
parameters that end in code gain the semicolon; so does the name of a routine that is called without
parameters. Where a blank stands for a missing value, the semicolon does instead. -/
inductive Statement.Gains (l : CodeLine) : Statement → Statement → Prop where
  | assign (indent target comment : Text) {v w w' : Text} (hv : v = [] ∨ endsInCode v)
      (hw : w.isBlank) (hw' : w'.isBlank) :
      Gains l (.assign indent target (v ++ w) comment) (.assign indent target (v ++ ';' :: w') comment)
  | print (indent comment : Text) {v w w' : Text} (hv : v = [] ∨ endsInCode v)
      (hw : w.isBlank) (hw' : w'.isBlank) :
      Gains l (.print indent (v ++ w) comment) (.print indent (v ++ ';' :: w') comment)
  | rowCount (indent target : Text) : Gains l (.rowCount indent target) (.rowCount indent target)
  | value (indent modifiers comment : Text) (items : List (Text × Text)) (target : Text) {value : Text}
      (hvalue : endsInCode value) :
      Gains l (.select indent modifiers (items ++ [(target, value)]) [] comment)
        (.select indent modifiers (items ++ [(target, value ++ [';'])]) [] comment)
  | noValue (indent modifiers : Text) (items : List (Text × Text)) (target : Text) {c : Char}
      (hc : SqlRoutine.isBlank c) :
      Gains l (.select indent modifiers (items ++ [(target, [c])]) [] [])
        (.select indent modifiers (items ++ [(target, [';'])]) [] [])
  | clause (indent modifiers comment : Text) (items : List (Text × Text)) {clause : Text}
      (hclause : endsInCode clause) :
      Gains l (.select indent modifiers items clause comment)
        (.select indent modifiers items (clause ++ [';']) comment)
  | gotoDone (indent : Text) : Gains l (.gotoDone indent) (.gotoDone indent)
  | breakLoop (indent : Text) : Gains l (.breakLoop indent) (.breakLoop indent)
  | continueLoop (hcomment : l.comment = []) (hdash : '-' ∉ l.code) :
      Gains l (.continueLoop l.source) (.continueLoop l.terminated)
  | parameters (indent target comment : Text) {v w w' : Text} (hv : endsInCode v)
      (hw : w.isBlank) (hw' : w'.isBlank) :
      Gains l (.call indent target (v ++ w) comment) (.call indent target (v ++ ';' :: w') comment)
  | target (indent target comment : Text) :
      Gains l (.call indent target [] comment) (.call indent (target ++ [';']) [] comment)

/-- The comment that a statement keeps, if its form has one. -/
def Statement.comment? : Statement → Option Text
  | .assign _ _ _ comment => some comment
  | .print _ _ comment => some comment
  | .select _ _ _ _ comment => some comment
  | .call _ _ _ comment => some comment
  | _ => none

/-! ### Assignments and messages -/

/-- The start of an assignment: its target, and what follows the equals sign. -/
def assignStart? (t : Text) : Option (Text × Text) :=
  ((keyword? "Set".toList t).bind fun t => (blanks? t).bind atName?).bind fun found =>
    (char? '=' found.2.trimStart).map (found.1, ·)

theorem opening_assignStart? : OpeningWith assignStart? :=
  ((opening_keyword? (by decide)).bindWith
    (openingWith_atName?.afterBlanks failsAtTrailer_atName?)).thenOpening
      (opening_sign rfl)

theorem assign?_eq (line : Text) : assign? line = (assignStart? line.trimStart).bind fun found =>
    (restOfLine? found.2.trimStart).map fun value =>
      .assign line.indent found.1 (splitComment value).1 (splitComment value).2 := by
  unfold assign? assignStart?
  simp only [bind_eq_bind, bind_assoc, map_eq_bind]
  rfl

section

variable {l : CodeLine} {st : Statement}

theorem assign?_terminated (h : assign? l.source = some st) (hcomment : ∀ c ∈ st.comment?, c = l.comment) :
    ∃ st', assign? l.terminated = some st' ∧ st.Gains l st' := by
  have hstops : ∀ {z}, isTrailer z → StopsWith z assignStart? := opening_assignStart?.stops
  rw [assign?_eq, l.trimStart_source, hstops l.isTrailer_tail] at h
  rw [assign?_eq, l.trimStart_terminated, hstops l.isTrailer_terminated, l.indent_terminated]
  rw [l.indent_source] at h
  cases hstart : assignStart? l.start with
  | none =>
    rw [hstart] at h
    cases h
  | some found =>
    obtain ⟨target, r⟩ := found
    have hsuffix : r <:+ l.start := opening_assignStart?.suffix hstart
    simp only [hstart, map_some, bind_some, l.restOfLine?_source hsuffix] at h
    obtain rfl := Option.some.inj h
    obtain ⟨w, w', hw, hw', -, hsplit, hsplit'⟩ := l.splitComment_rest hsuffix (hcomment _ rfl)
    simp only [map_some, bind_some, l.restOfLine?_terminated hsuffix, hsplit, hsplit']
    refine ⟨_, rfl, .assign _ _ _ ?_ hw hw'⟩
    exact l.endsInCode_of_suffix ((dropWhile_suffix _).trans hsuffix)

theorem print?_terminated (h : print? l.source = some st) (hcomment : ∀ c ∈ st.comment?, c = l.comment) :
    ∃ st', print? l.terminated = some st' ∧ st.Gains l st' := by
  have hopening : Opening (word? "Print".toList) := opening_word? (by decide)
  unfold print? at h ⊢
  rw [l.trimStart_source, hopening.stops l.isTrailer_tail, l.indent_source] at h
  rw [l.trimStart_terminated, hopening.stops l.isTrailer_terminated, l.indent_terminated]
  cases hstart : word? "Print".toList l.start with
  | none =>
    rw [hstart] at h
    cases h
  | some r =>
    have hsuffix : r <:+ l.start := hopening.suffix hstart
    simp only [hstart, map_some, bind_eq_bind, bind_some,
      l.restOfLine?_source hsuffix] at h
    obtain rfl := Option.some.inj h
    obtain ⟨w, w', hw, hw', -, hsplit, hsplit'⟩ := l.splitComment_rest hsuffix (hcomment _ rfl)
    simp only [map_some, bind_eq_bind, bind_some,
      l.restOfLine?_terminated hsuffix, hsplit, hsplit']
    refine ⟨_, rfl, .print _ _ ?_ hw hw'⟩
    exact l.endsInCode_of_suffix ((dropWhile_suffix _).trans hsuffix)

/-! ### Row counts -/

/-- The start of an assignment of the row count. -/
def rowCountStart? (t : Text) : Option (Text × Text) :=
  (atName? t).bind fun found => ((char? '=' found.2.trimStart).bind fun rest =>
    word? "@@rowcount".toList rest.trimStart).map (found.1, ·)

theorem opening_rowCountStart? : OpeningWith rowCountStart? := by
  have hcount : avoidsParting "@@rowcount".toList := by decide
  exact openingWith_atName?.thenOpening ((opening_sign rfl).bind
    ((opening_word? hcount).trimmed ((failsAtTrailer_keyword? (by decide) hcount).bind _)))

theorem rowCountTarget?_eq (t : Text) : rowCountTarget? t = (rowCountStart? t).map (·.1) := by
  unfold rowCountTarget? rowCountStart?
  simp only [bind_eq_bind, map_eq_bind, bind_assoc]
  rfl

theorem lastRowCountTarget?_terminated {z : Text} (hz : isTrailer z) (r : Text) :
    lastRowCountTarget? (r ++ ';' :: z) = lastRowCountTarget? (r ++ z) := by
  have hread : ∀ {z}, isTrailer z → ∀ t, rowCountTarget? (t ++ z) = rowCountTarget? t := by
    intro z hz t
    rw [rowCountTarget?_eq, rowCountTarget?_eq, opening_rowCountStart?.stops hz, Option.map_map]
    rfl
  induction r with
  | nil =>
    rw [nil_append, nil_append, lastRowCountTarget?, if_neg (by decide)]
    cases lastRowCountTarget? z <;> rfl
  | cons c r ih =>
    rw [cons_append, cons_append, lastRowCountTarget?, lastRowCountTarget?, ih,
      ← cons_append, ← cons_append, hread hz, hread (z := ';' :: z) rfl]

theorem rowCount?_terminated : rowCount? l.terminated = rowCount? l.source := by
  have hopening : Opening (word? "SELECT".toList) := opening_word? (by decide)
  unfold rowCount?
  rw [l.trimStart_source, l.trimStart_terminated, hopening.stops l.isTrailer_tail,
    hopening.stops l.isTrailer_terminated, l.indent_source, l.indent_terminated]
  cases word? "SELECT".toList l.start with
  | none => rfl
  | some r =>
    simp only [map_some, bind_eq_bind, bind_some,
      lastRowCountTarget?_terminated l.isTrailer_tail]

/-! ### Jumps -/

/-- A statement that has come to its end before the tail ends with the code, and there is no comment. -/
theorem CodeLine.atStatementEnd {r : Text} (h : r <:+ l.start)
    (hend : Text.atStatementEnd (r ++ l.tail)) :
    r = [] ∧ l.comment = [] ∧ Text.atStatementEnd (';' :: l.tail) := by
  rcases l.endsInCode_of_suffix h with rfl | hr
  · have hnone : l.comment = [] := by
      refine l.isComment.resolve_right ?_
      rintro ⟨u, hc⟩
      rw [nil_append, Text.atStatementEnd, l.trimStart_tail, hc] at hend
      cases hend
    refine ⟨rfl, hnone, ?_⟩
    have hblank : Text.isBlank l.tail := by
      rw [tail, hnone, append_nil]
      exact l.isBlank
    rw [Text.atStatementEnd, trimStart_of_head rfl]
    exact hblank
  · -- the code goes on, so that its end is not reached
    exfalso
    obtain ⟨b, c, u, hb, hc, rfl⟩ := exists_visible (endsInCode_isBlank hr)
    have hend' : Code.endsInCode (c :: u) :=
      endsInCode_suffix hr (suffix_append _ _) (by simp)
    rw [Text.atStatementEnd, append_assoc, trimStart_append hb, cons_append,
      trimStart_of_head hc] at hend
    split at hend
    · next rest heq =>
      obtain ⟨rfl, rfl⟩ := List.cons.inj heq
      have hu : u ≠ [] := by
        rintro rfl
        cases hend'
      have hvisible := endsInCode_isBlank (endsInCode_suffix hend' (suffix_cons _ u) hu)
      rw [isBlank_append, hvisible] at hend
      cases hend
    · cases hend

/-- A jump is read from its words up to the end of the statement. -/
theorem CodeLine.jump {scan : Text → Option Text} (hscan : Opening scan)
    (h : (scan l.source.trimStart).any Text.atStatementEnd) :
    scan l.start = some [] ∧ l.comment = [] ∧
      (scan l.terminated.trimStart).any Text.atStatementEnd := by
  rw [l.trimStart_source, hscan.stops l.isTrailer_tail] at h
  rw [l.trimStart_terminated, hscan.stops l.isTrailer_terminated]
  cases hread : scan l.start with
  | none =>
    rw [hread] at h
    cases h
  | some r =>
    rw [hread] at h
    obtain ⟨rfl, hcomment, hend⟩ := l.atStatementEnd (hscan.suffix hread) h
    exact ⟨rfl, hcomment, hend⟩

theorem bind_atStatementEnd (scanned : Option Text) (st : Statement) :
    (scanned.bind fun rest => if atStatementEnd rest then some st else none) =
      if scanned.any atStatementEnd then some st else none := by
  cases scanned <;> rfl

/-- The words of a jump to the end. -/
def gotoStart? (t : Text) : Option Text :=
  (keyword? "Goto".toList t).bind fun t => (blanks? t).bind (keyword? "Done".toList)

theorem opening_gotoStart? : Opening gotoStart? := by
  have hdone : avoidsParting "Done".toList := by decide
  exact (opening_keyword? (by decide)).bind ((opening_keyword? hdone).afterBlanks
    (failsAtTrailer_keyword? (by decide) hdone))

theorem gotoDone?_eq (line : Text) : gotoDone? line =
    if (gotoStart? line.trimStart).any atStatementEnd then some (.gotoDone line.indent) else none := by
  rw [← bind_atStatementEnd]
  unfold gotoDone? gotoStart?
  simp only [bind_eq_bind, bind_assoc]

theorem breakLoop?_eq (line : Text) : breakLoop? line =
    if (keyword? "Break".toList line.trimStart).any atStatementEnd then
      some (.breakLoop line.indent) else none :=
  bind_atStatementEnd ..

theorem continueLoop?_eq (line : Text) : continueLoop? line =
    if (keyword? "Continue".toList line.trimStart).any atStatementEnd then
      some (.continueLoop line) else none :=
  bind_atStatementEnd ..

theorem gotoDone?_terminated (h : gotoDone? l.source = some st) :
    ∃ st', gotoDone? l.terminated = some st' ∧ st.Gains l st' := by
  rw [gotoDone?_eq, ite_none_right_eq_some] at h
  obtain ⟨hjump, heq⟩ := h
  obtain ⟨-, -, hjump'⟩ := l.jump opening_gotoStart? hjump
  obtain rfl := Option.some.inj heq
  rw [gotoDone?_eq, if_pos hjump', l.indent_source, l.indent_terminated]
  exact ⟨_, rfl, .gotoDone _⟩

theorem breakLoop?_terminated (h : breakLoop? l.source = some st) :
    ∃ st', breakLoop? l.terminated = some st' ∧ st.Gains l st' := by
  rw [breakLoop?_eq, ite_none_right_eq_some] at h
  obtain ⟨hjump, heq⟩ := h
  obtain ⟨-, -, hjump'⟩ := l.jump (opening_keyword? (by decide)) hjump
  obtain rfl := Option.some.inj heq
  rw [breakLoop?_eq, if_pos hjump', l.indent_source, l.indent_terminated]
  exact ⟨_, rfl, .breakLoop _⟩

theorem continueLoop?_terminated (h : continueLoop? l.source = some st) :
    ∃ st', continueLoop? l.terminated = some st' ∧ st.Gains l st' := by
  rw [continueLoop?_eq, ite_none_right_eq_some] at h
  obtain ⟨hjump, heq⟩ := h
  obtain ⟨hstart, hcomment, hjump'⟩ := l.jump (opening_keyword? (by decide)) hjump
  obtain rfl := Option.some.inj heq
  have hdash : '-' ∉ l.code := by
    obtain ⟨m, hm, hcode⟩ := keyword?_eq_some_iff.mp hstart
    have hsplit : l.code.indent ++ l.start = l.code := takeWhile_append_dropWhile
    rw [← hsplit, hcode, append_nil, mem_append, not_or]
    refine ⟨fun hin => ?_, fun hin => ?_⟩
    · have hblank := mem_takeWhile_imp hin
      cases hblank
    · have hkey := List.mem_map_of_mem (f := letterKey) hin
      rw [hm] at hkey
      exact absurd hkey (by decide)
  rw [continueLoop?_eq, if_pos hjump']
  exact ⟨_, rfl, .continueLoop hcomment hdash⟩

end

end SqlRoutine.Body

import SqlRoutine.Body.Step
import SqlRoutine.Proofs.Body.Line
import SqlRoutine.Proofs.Body.Selection

/-! # Declarations

A `Declare` line lists variables with a type and perhaps a value. `DeclareList.source` prints such a
line for SQL Server. **Each variable is read from the printed line with its own type and value**
(`DeclareList.mapM_plainVariable?_pieces`), and each but the one for error codes becomes a local variable and, if it has a
value, an assignment, both in the order of the list (`DeclareList.locals`, `DeclareList.lines`). A line
with an item that cannot be read, or with a table variable, leaves no trace of the items before it
(`declare?_all_or_nothing`). -/

namespace SqlRoutine.Body

open Code Expression List Text

/-! ### Parts of a `Declare` line -/

/-- **A piece of a list**: on one line, balanced, and without a comma on its top level, a comment or a
semicolon at its end. -/
structure Piece where
  text : Text
  notEmpty : text ≠ []
  trimmed : text.trim = text
  oneLine : '\n' ∉ text
  balanced : Code.Level.after {} text = {}
  noComma : occurs commaHere {} none text = false
  noComment : occurs dashesHere {} none text = false
  notTerminated : text.getLast? ≠ some ';'

/-- The type of a variable. -/
structure DeclaredType extends Piece where
  noEquals : '=' ∉ text
  noQuote : quote ∉ text
  notTable : word? "table".toList text = none
  notAs : word? "As".toList text = none

/-- **A variable with its type** and perhaps a value. -/
structure Declaration where
  name : VariableName
  type : DeclaredType
  value : Option Piece

/-- **A `Declare` line.** -/
structure DeclareList where
  indent : Indentation
  first : Declaration
  others : List Declaration

namespace Declaration

/-- The value with the sign before it. -/
def valueText : Option Piece → Text
  | none => []
  | some value => " = ".toList ++ value.text

/-- The item of a list. -/
def text (d : Declaration) : Text :=
  '@' :: (d.name.text ++ (" ".toList ++ (d.type.text ++ valueText d.value)))

/-- What is read from the item. -/
def read (d : Declaration) : Variable := ⟨d.name.text, d.type.text, d.value.map Piece.text⟩

/-- The variable is kept: it is not the one for error codes. -/
def isKept (d : Declaration) : Bool := !isErrorVariable d.name.text

end Declaration

/-- Declarations as a list. -/
def declarationsText (items : List Declaration) : Text :=
  join ", ".toList (items.map Declaration.text)

namespace DeclareList

/-- All variables, in their order. -/
def items (l : DeclareList) : List Declaration := l.first :: l.others

/-- The line for SQL Server. -/
def source (l : DeclareList) : Text :=
  l.indent.text ++ ("Declare".toList ++ (' ' :: declarationsText l.items))

/-- The variables that are kept. -/
def kept (l : DeclareList) : List Declaration := l.items.filter Declaration.isKept

/-- **The local variables.** -/
def locals (p : Profile) (l : DeclareList) : List Text :=
  l.kept.map fun d => '_' :: d.name.text ++ ' ' :: dataType p d.type.text

/-- **The assignments**, of the variables that have a value. -/
def lines (p : Profile) (l : DeclareList) : List Text :=
  l.kept.filterMap fun d => d.value.map fun value =>
    l.indent.text ++ '_' :: d.name.text ++ " := ".toList ++
      (convert p value.text).value ++ [';']

end DeclareList

/-! ### One item -/

theorem Piece.isBlank_text (t : Piece) : t.text.isBlank = false :=
  isBlank_of_trimmed t.notEmpty t.trimmed

theorem Piece.trimStart_append (t : Piece) (u : Text) : trimStart (t.text ++ u) = t.text ++ u := by
  obtain ⟨c, cs, htext⟩ := exists_cons_of_ne_nil t.notEmpty
  obtain ⟨v, hv⟩ := head_of_trim (t.trimmed.trans htext)
  rw [htext, cons_append, trimStart_of_head (isBlank_of_trimStart hv)]

theorem Piece.trimEnd_text (t : Piece) : t.text.trimEnd = t.text := by
  have hstart := t.trimStart_append []
  rw [append_nil] at hstart
  have htrim := t.trimmed
  rwa [trim, hstart] at htrim

theorem Piece.dropStatementEnd_text (t : Piece) : dropStatementEnd t.text = t.text := by
  have hempty : t.text.isEmpty = false := by
    rw [isEmpty_eq_false_iff]
    exact t.notEmpty
  simp only [dropStatementEnd, t.trimEnd_text]
  split
  · next hlast => exact absurd hlast t.notTerminated
  · rw [hempty]
    rfl

namespace Declaration

variable (d : Declaration)

theorem head?_valueText (value : Option Piece) : (valueText value).head?.all isSeparator := by
  cases value <;> rfl

theorem typeAndValue?_text :
    typeAndValue? (d.type.text ++ valueText d.value) = some (d.type.text, d.value.map Piece.text) := by
  have hplain : ∀ {t : Text}, '=' ∉ t → t.all (· != '=') := fun h =>
    all_eq_true.mpr fun c hc => bne_iff_ne.mpr fun heq => h (heq ▸ hc)
  unfold typeAndValue?
  cases hvalue : d.value with
  | none =>
    obtain ⟨htake, hdrop⟩ := run_append (z := []) (hplain d.type.noEquals) rfl
    simp only [valueText, htake, hdrop, isEmpty_eq_false_iff.mpr d.type.notEmpty,
      d.type.dropStatementEnd_text, Bool.false_eq_true, if_false, Option.map_none]
  | some value =>
    have hsplit : d.type.text ++ valueText (some value) =
        (d.type.text ++ " ".toList) ++ '=' :: (" ".toList ++ value.text) := by
      simp [valueText]
    have htype : '=' ∉ d.type.text ++ " ".toList := by simp [d.type.noEquals]
    obtain ⟨htake, hdrop⟩ :=
      run_append (z := '=' :: (" ".toList ++ value.text)) (hplain htype) rfl
    have hread : value? (" ".toList ++ value.text) = some value.text := by
      have hstart := value.trimStart_append []
      rw [append_nil] at hstart
      rw [value?, isBlank_append, value.isBlank_text, Bool.and_false, if_neg Bool.false_ne_true,
        trimStart_append rfl, hstart, value.dropStatementEnd_text]
    have htrim : trimEndToOne (d.type.text ++ " ".toList) = d.type.text := by
      have hend : trimEnd (d.type.text ++ " ".toList) = d.type.text.trimEnd := by
        unfold trimEnd dropEndWhile
        rw [reverse_append]
        rfl
      rw [trimEndToOne, isBlank_append, d.type.isBlank_text, Bool.false_and,
        if_neg Bool.false_ne_true, hend, d.type.trimEnd_text]
    have hempty : (d.type.text ++ " ".toList).isEmpty = false := by simp
    simp only [hsplit, htake, hdrop, hempty, hread, htrim, Bool.false_eq_true, if_false, Option.map_some]

theorem typeStarts_text : typeStarts (" ".toList ++ (d.type.text ++ valueText d.value)) =
    [d.type.text ++ valueText d.value] := by
  generalize hafter : valueText d.value = after
  obtain ⟨c, cs, htext⟩ := exists_cons_of_ne_nil d.type.notEmpty
  obtain ⟨v, hv⟩ := head_of_trim (d.type.trimmed.trans htext)
  have hc : isBlank c = false := isBlank_of_trimStart hv
  have hblanks : afterBlanks (" ".toList ++ (d.type.text ++ after)) = [d.type.text ++ after] := by
    have hindent : indent (" ".toList ++ (d.type.text ++ after)) = " ".toList := by
      rw [htext]
      exact indent_append (b := " ".toList) rfl hc _
    unfold afterBlanks
    rw [hindent, trimStart_append rfl, d.type.trimStart_append]
    rfl
  have hnone : ((keyword? "As".toList (d.type.text ++ after)).map afterBlanks).getD [] = [] := by
    have hword : (word? "As".toList (d.type.text ++ after)).isSome = false := by
      rw [word?_apart (by decide) (.inl (hafter ▸ head?_valueText d.value)), d.type.notAs]
      rfl
    cases hread : keyword? "As".toList (d.type.text ++ after) with
    | none => rfl
    | some rest =>
      rw [word?, hread, Option.bind_some] at hword
      cases rest with
      | nil => cases hword
      | cons e rest =>
        -- The keyword is part of a longer word, so no blank comes after it.
        have he : isBlank e = false := by
          rw [← Bool.not_eq_true]
          intro he
          rw [atWordEnd, isWord_blank he] at hword
          cases hword
        rw [Option.map_some, Option.getD_some, afterBlanks, indent, takeWhile_cons, he]
        rfl
  rw [typeStarts, hblanks, flatMap_singleton, hnone]
  rfl

/-- **The variable is read from its item**, with any blanks before it. -/
theorem declared?_text {b : Text} (hb : b.isBlank) : declared? (b ++ d.text) = some d.read := by
  have hstart : trimStart (b ++ d.text) = d.text := by
    rw [trimStart_append hb, text, trimStart_of_head rfl]
  have hname : atName? d.text =
      some (d.name.text, " ".toList ++ (d.type.text ++ valueText d.value)) :=
    name?_append d.name.notEmpty d.name.word rfl
  unfold declared?
  simp only [hstart, hname, d.typeStarts_text, findSome?_cons, d.typeAndValue?_text,
    Option.bind_eq_bind, Option.bind_some]
  rfl

theorem text_eq : d.text = ("@".toList ++ (d.name.text ++ " ".toList)) ++
    (d.type.text ++ valueText d.value) := by
  simp [text]

theorem isPlain_start : ("@".toList ++ (d.name.text ++ " ".toList)).all isPlain := by
  rw [all_append, all_append, isPlain_of_isWord d.name.word]
  decide

theorem balanced_valueText (value : Option Piece) : Code.Level.after {} (valueText value) = {} := by
  cases value with
  | none => rfl
  | some value =>
    rw [valueText, Code.Level.after_append]
    exact value.balanced

theorem balanced : Code.Level.after {} d.text = {} := by
  rw [text_eq, Code.Level.after_append, Code.Level.after_of_isPlain d.isPlain_start,
    Code.Level.after_append, d.type.balanced, balanced_valueText]

theorem noComma : occurs commaHere {} none d.text = false := by
  have hvalue : occurs commaHere {} none (valueText d.value) = false := by
    cases d.value with
    | none => rfl
    | some value =>
      exact occurs_comma_append (t := " = ".toList) (by decide) value.noComma
  rw [text_eq]
  refine occurs_comma_append (occurs_comma_of_isPlain d.isPlain_start none) ?_
  rw [Code.Level.after_of_isPlain d.isPlain_start]
  refine occurs_comma_append d.type.noComma ?_
  rw [d.type.balanced]
  exact hvalue

theorem noComment : occurs dashesHere {} none d.text = false := by
  have hvalue : occurs dashesHere {} none (valueText d.value) = false := by
    cases d.value with
    | none => rfl
    | some value =>
      exact occurs_dashes_append (t := " = ".toList) (by decide) value.noComment (.inr rfl)
  have hstart : Apart ("@".toList ++ (d.name.text ++ " ".toList))
      (d.type.text ++ valueText d.value) := by
    refine .inr ?_
    rw [← append_assoc, getLast?_append]
    rfl
  rw [text_eq]
  refine occurs_dashes_append (occurs_dashes_of_isPlain d.isPlain_start none) ?_ hstart
  rw [Code.Level.after_of_isPlain d.isPlain_start]
  refine occurs_dashes_append d.type.noComment ?_ (.inl (head?_valueText d.value))
  rw [d.type.balanced]
  exact hvalue

theorem oneLine : '\n' ∉ d.text := by
  have hname : '\n' ∉ d.name.text := fun hmem =>
    absurd (all_eq_true.mp d.name.word _ hmem) (by decide)
  have hvalue : '\n' ∉ valueText d.value := by
    cases d.value with
    | none => exact not_mem_nil
    | some value => simp [valueText, value.oneLine]
  simp [text, hname, d.type.oneLine, hvalue]

theorem isTable_read : d.read.isTable = false := by
  rw [Variable.isTable, read, d.type.notTable]
  rfl

end Declaration

/-! ### The list -/

theorem declarationsText_cons (d next : Declaration) (others : List Declaration) :
    declarationsText (d :: next :: others) =
      d.text ++ (", ".toList ++ declarationsText (next :: others)) := by
  simp [declarationsText, join]

/-- The pieces of the list: the blank after a comma belongs to the next piece. -/
theorem splitCommas_declarationsText (others : List Declaration) (d : Declaration) {b : Text}
    (hb : b.isBlank) : splitCommas (b ++ declarationsText (d :: others)) =
      (b ++ d.text) :: others.map fun d => " ".toList ++ d.text := by
  have hplain := isPlain_of_isBlank hb
  have hpiece : occurs commaHere {} none (b ++ d.text) = false := by
    refine occurs_comma_append (occurs_comma_of_isPlain hplain none) ?_
    rw [Code.Level.after_of_isPlain hplain]
    exact d.noComma
  induction others generalizing d b with
  | nil => exact splitCommas_of_none hpiece
  | cons next others ih =>
    have hlevel : Code.Level.after {} (b ++ d.text) = {} := by
      rw [Code.Level.after_append, Code.Level.after_of_isPlain hplain, d.balanced]
    have hsplit : b ++ declarationsText (d :: next :: others) =
        (b ++ d.text) ++ ',' :: (" ".toList ++ declarationsText (next :: others)) := by
      rw [declarationsText_cons]
      simp
    have hnext : occurs commaHere {} none (" ".toList ++ next.text) = false :=
      occurs_comma_append (by decide) next.noComma
    rw [hsplit, splitCommas_append hpiece hlevel,
      ih next (b := " ".toList) rfl (by decide) hnext]
    rfl

theorem noComment_declarationsText (others : List Declaration) (d : Declaration) :
    occurs dashesHere {} none (declarationsText (d :: others)) = false := by
  induction others generalizing d with
  | nil => exact d.noComment
  | cons next others ih =>
    rw [declarationsText_cons]
    refine occurs_dashes_append d.noComment ?_ (.inl rfl)
    rw [d.balanced]
    exact occurs_dashes_append (by decide) (ih next) (.inr rfl)

theorem oneLine_declarationsText (others : List Declaration) (d : Declaration) :
    '\n' ∉ declarationsText (d :: others) := by
  induction others generalizing d with
  | nil => exact d.oneLine
  | cons next others ih =>
    rw [declarationsText_cons]
    simp [d.oneLine, ih next]

/-! ### All items or none -/

/-- The variables, if all items are. -/
def Items.variables? : Items → Option (List Variable)
  | .allVariables list => some list
  | _ => none

/-- Reads an item that declares a variable but no table. -/
def plainVariable? (item : Text) : Option Variable := (declared? item).filter fun v => !v.isTable

theorem variables?_readItems (items : List Text) :
    (readItems items).variables? = items.mapM plainVariable? := by
  induction items with
  | nil => rfl
  | cons item items ih =>
    rw [readItems, mapM_cons, plainVariable?]
    cases declared? item with
    | none => rfl
    | some v =>
      cases htable : v.isTable with
      | true =>
        have hnone : Option.filter (fun v => !v.isTable) (some v) = none := by simp [htable]
        simp only [hnone, htable, if_true]
        rfl
      | false =>
        simp only [htable, Option.filter_some, Bool.not_false, if_true, Bool.false_eq_true, if_false,
          Option.bind_eq_bind, Option.bind_some, ← ih]
        cases readItems items <;> rfl

/-- **A `Declare` line is converted when all of its items are plain variables**, from them alone. -/
theorem declare?_value (p : Profile) (line : Text) :
    (declare? p line).value = (declareLine? line).bind fun l =>
      (l.items.mapM plainVariable?).map fun list =>
        (declareVariables p l.indent l.comment list).value := by
  unfold declare?
  cases declareLine? line with
  | none => rfl
  | some l =>
    rw [Option.bind_some, ← variables?_readItems]
    dsimp only
    cases readItems l.items <;> rfl

theorem mapM_eq_none_iff {α β : Type} {f : α → Option β} {list : List α} :
    list.mapM f = none ↔ ∃ a ∈ list, f a = none := by
  induction list with
  | nil => simp
  | cons a list ih =>
    rw [mapM_cons]
    cases h : f a with
    | none => simp [h]
    | some b => cases hlist : list.mapM f <;> simp_all

/-- **A line that is not converted** is no `Declare` line, or has an item that cannot be read or declares
a table. -/
theorem declare?_eq_none_iff {p : Profile} {line : Text} : (declare? p line).value = none ↔
    ∀ l, declareLine? line = some l → ∃ item ∈ l.items, (declared? item).all Variable.isTable := by
  have hitem : ∀ item, plainVariable? item = none ↔ (declared? item).all Variable.isTable := by
    intro item
    rw [plainVariable?]
    cases declared? item <;> simp
  rw [declare?_value]
  cases declareLine? line with
  | none => simp
  | some l => simp [mapM_eq_none_iff, hitem]

/-- The variable is not the one for error codes. -/
def Variable.isKept (v : Variable) : Bool := !isErrorVariable v.name

/-- The local variable. -/
def Variable.entry (p : Profile) (v : Variable) : Text :=
  '_' :: v.name ++ ' ' :: dataType p v.type.trim

/-- The assignment of the value. -/
def Variable.assignment? (p : Profile) (indent : Text) (v : Variable) : Option Text :=
  v.value.map fun value => indent ++ '_' :: v.name ++ " := ".toList ++
    (convert p value.trim).value ++ [';']

/-- The comment stands after the first line. -/
def commentFirst (comment : Text) : List Text → List Text
  | [] => []
  | line :: lines => withComment line comment :: lines

theorem commentFirst_nil (lines : List Text) : commentFirst [] lines = lines := by
  cases lines with
  | nil => rfl
  | cons line lines => rw [commentFirst, withComment_nil]

/-- **What the variables become**, each by itself, and the comment. -/
theorem declareVariables_value (p : Profile) (indent comment : Text) (list : List Variable) :
    (declareVariables p indent comment list).value =
      ⟨(list.filter Variable.isKept).map (Variable.entry p),
        commentFirst comment ((list.filter Variable.isKept).filterMap (Variable.assignment? p indent))⟩ := by
  induction list generalizing comment with
  | nil => rfl
  | cons v list ih =>
    rw [declareVariables]
    cases herror : isErrorVariable v.name with
    | true => simp [Variable.isKept, herror, ih]
    | false =>
      have hkept : Variable.isKept v := by rw [Variable.isKept, herror]; rfl
      rw [if_neg Bool.false_ne_true, filter_cons_of_pos hkept]
      cases hvalue : v.value with
      | none => simp [ih, Variable.assignment?, Variable.entry, hvalue]
      | some value =>
        simp [ih, commentFirst_nil, Variable.assignment?, Variable.entry, hvalue]
        rfl

namespace DeclareList

variable (l : DeclareList)

/-- The items of the line, each but the first with a blank before it. -/
def pieces : List Text := l.first.text :: l.others.map fun d => " ".toList ++ d.text

/-- **The line is read as a `Declare` line** with these items and no comment. -/
theorem declareLine?_source : declareLine? l.source = some ⟨l.indent.text, l.pieces, []⟩ := by
  have htext : ∃ rest, declarationsText l.items = '@' :: rest := by
    obtain ⟨indent, first, others⟩ := l
    cases others with
    | nil => exact ⟨_, rfl⟩
    | cons next others => exact ⟨_, declarationsText_cons first next others⟩
  obtain ⟨rest, hrest⟩ := htext
  obtain ⟨hindent, hstart⟩ := indent_and_trimStart l.indent.blank "Declare".toList rfl
    (' ' :: declarationsText l.items)
  have hkeyword : keyword? "Declare".toList
      ("Declare".toList ++ (' ' :: declarationsText l.items)) =
        some (' ' :: declarationsText l.items) := keyword?_append rfl _
  have hblanks : blanks? (' ' :: declarationsText l.items) = some (declarationsText l.items) := by
    rw [hrest]
    rfl
  have hsign : char? '@' (declarationsText l.items) = some rest := by
    rw [hrest, char?_cons_self]
  have hline : restOfLine? (declarationsText l.items) = some (declarationsText l.items) :=
    restOfLine?_of_oneLine (oneLine_declarationsText l.others l.first)
  have hcomment : splitComment (declarationsText l.items) = (declarationsText l.items, []) :=
    splitComment_of_none (commentFrom_of_none
      (noComment_declarationsText l.others l.first))
  have hsplit : splitCommas (declarationsText l.items) = l.pieces :=
    splitCommas_declarationsText l.others l.first (b := []) rfl
  have hfilter : l.pieces.filter (fun item => !item.isBlank) = l.pieces := by
    have hblank : ∀ (b : Text) (d : Declaration), Text.isBlank (b ++ d.text) = false := by
      intro b d
      rw [isBlank_append, Declaration.text, isBlank_cons]
      exact Bool.and_false _
    refine filter_eq_self.mpr fun item hitem => ?_
    rcases mem_cons.mp hitem with rfl | hitem
    · rw [show l.first.text = [] ++ l.first.text from rfl, hblank]
      rfl
    · obtain ⟨d, -, rfl⟩ := mem_map.mp hitem
      rw [hblank]
      rfl
  unfold declareLine?
  simp only [source, hindent, hstart, hkeyword, hblanks, hsign, hline, hcomment, hsplit, hfilter,
    Option.bind_eq_bind, Option.bind_some]
  rfl

/-- **Each variable is read from the line** with its own type and value. -/
theorem mapM_plainVariable?_pieces : l.pieces.mapM plainVariable? = some (l.items.map Declaration.read) := by
  have hread : ∀ (b : Text) (d : Declaration), b.isBlank →
      plainVariable? (b ++ d.text) = some d.read := by
    intro b d hb
    rw [plainVariable?, d.declared?_text hb, Option.filter_some, d.isTable_read]
    rfl
  have hothers : ∀ others : List Declaration,
      (others.map fun d => " ".toList ++ d.text).mapM plainVariable? =
        some (others.map Declaration.read) := by
    intro others
    induction others with
    | nil => rfl
    | cons d others ih =>
      rw [map_cons, mapM_cons, hread _ d rfl, ih]
      rfl
  rw [pieces, mapM_cons, hothers]
  have hfirst := hread [] l.first rfl
  rw [nil_append] at hfirst
  rw [hfirst]
  rfl

theorem declare?_source (p : Profile) :
    (declare? p l.source).value = some ⟨l.locals p, l.lines p⟩ := by
  have hkept : (l.items.map Declaration.read).filter Variable.isKept = l.kept.map Declaration.read := by
    rw [filter_map]
    rfl
  have hentry : Variable.entry p ∘ Declaration.read =
      fun d => '_' :: d.name.text ++ ' ' :: dataType p d.type.text := by
    funext d
    simp [Variable.entry, Declaration.read, d.type.trimmed]
  have hassignment : Variable.assignment? p l.indent.text ∘ Declaration.read =
      fun d => d.value.map fun value => l.indent.text ++ '_' :: d.name.text ++ " := ".toList ++
        (convert p value.text).value ++ [';'] := by
    funext d
    cases hvalue : d.value with
    | none => simp [Variable.assignment?, Declaration.read, hvalue]
    | some value => simp [Variable.assignment?, Declaration.read, hvalue, value.trimmed]
  rw [declare?_value, declareLine?_source, Option.bind_some, mapM_plainVariable?_pieces,
    Option.map_some, declareVariables_value, commentFirst_nil, hkept, map_map, filterMap_map, hentry,
    hassignment]
  rfl

theorem isBlank_lines (p : Profile) : ∀ line ∈ l.lines p, line.isBlank = false := by
  intro line hline
  obtain ⟨d, -, hd⟩ := mem_filterMap.mp hline
  obtain ⟨value, -, rfl⟩ := Option.map_eq_some_iff.mp hd
  refine isBlank_eq_false_iff.mpr ⟨';', by simp, rfl⟩

end DeclareList

/-! ### Lines that are left to the other rules -/

theorem plainLine_locals (p : Profile) (s : State) (line : Text) (ahead : List Text) :
    (plainLine p s line ahead).locals = [] := by
  unfold plainLine otherLine
  split
  · rfl
  · dsimp only
    split
    · rfl
    · split
      · rfl
      · split_ifs <;> rfl

theorem undeclaredLine_locals (p : Profile) (name : Text) (s : State) (line : Text)
    (ahead : List Text) : (undeclaredLine p name s line ahead).locals = [] := by
  unfold undeclaredLine
  split
  · next block _ _ _ _ => cases block <;> rfl
  · split_ifs
    · rfl
    · rfl
    · exact plainLine_locals p s line ahead

/-- **A `Declare` line is converted as a whole or not at all.** From a printed line come the local
variable of each variable that is kept and the assignment of each that has a value, in their order. A
line with a single item that is no plain variable is not converted, and what is added for it comes from
the other rules, which declare nothing. -/
theorem declare?_all_or_nothing (p : Profile) :
    (∀ l : DeclareList, (declare? p l.source).value = some ⟨l.locals p, l.lines p⟩ ∧
      ∀ body, appendLines body (l.lines p) = body ++ (l.lines p).map tidy) ∧
    ∀ line, ((declare? p line).value = none ↔ ∀ l, declareLine? line = some l →
        ∃ item ∈ l.items, (declared? item).all Variable.isTable = true) ∧
      ∀ name s source ahead, source.isBlank = false → Expression.literal p source = line →
        (declare? p line).value = none →
          (step p name s source ahead).locals = [] ∧
            (step p name s source ahead).lines = (undeclaredLine p name s line ahead).lines := by
  refine ⟨fun l => ⟨l.declare?_source p, appendLines_of_not_blank (l.isBlank_lines p)⟩, fun line =>
    ⟨declare?_eq_none_iff, ?_⟩⟩
  rintro name s source ahead hblank rfl hnone
  have hdeclare : declare? p (Expression.literal p source) =
      ⟨none, (declare? p (Expression.literal p source)).notes⟩ := by
    rw [← hnone]
  rw [step, hblank, if_neg Bool.false_ne_true]
  dsimp only
  rw [hdeclare]
  exact ⟨undeclaredLine_locals p name s _ ahead, rfl⟩

/-- ` Declare @i int = 5, @MYERROR int, @s varchar(10) = 'a,--('`. -/
def mixedDeclareList : DeclareList where
  indent := ⟨" ".toList, by decide⟩
  first :=
    { name := ⟨"i".toList, by decide, by decide⟩
      type := ⟨⟨"int".toList, by decide, by decide, by decide, by decide,
        by decide, by decide, by decide⟩, by decide, by decide, by decide,
        by decide⟩
      value := some ⟨['5'], by decide, by decide, by decide, by decide,
        by decide, by decide, by decide⟩ }
  others :=
    [{ name := ⟨errorVariable.map Char.toUpper, by decide, by decide⟩
       type := ⟨⟨"int".toList, by decide, by decide, by decide, by decide,
         by decide, by decide, by decide⟩, by decide, by decide, by decide,
         by decide⟩
       value := none },
     { name := ⟨"s".toList, by decide, by decide⟩
       type := ⟨⟨"varchar(10)".toList, by decide, by decide, by decide, by decide,
         by decide, by decide, by decide⟩, by decide, by decide, by decide,
         by decide⟩
       value := some ⟨"'a,--('".toList, by decide, by decide, by decide, by decide,
         by decide, by decide, by decide⟩ }]

/-- A list with the variable for error codes and a value that looks like a list and a comment is converted
item by item; a list whose last item declares a table is left to the other rules. -/
theorem declare?_mixed :
    let line := " Declare @i int = 5, @MYERROR int".toList ++ ", @s varchar(10) = 'a,--('".toList
    let withTable := "Declare @i int = 5, @t table (x int)".toList
    (declare? .standard line).value = some ⟨["_i int".toList, "_s text".toList],
      [" _i := 5;".toList, " _s := 'a,--(';".toList]⟩ ∧
    (declare? .standard withTable).value = none ∧
    (step .standard [] {} withTable []).locals = [] ∧
      texts (step .standard [] {} withTable []).lines = ["Declare _i int = 5, _t table (x int)".toList] := by
  intro line withTable
  obtain ⟨hall, hnone⟩ := declare?_all_or_nothing .standard
  have hsource : mixedDeclareList.source = line := by decide
  have hvalue := (hall mixedDeclareList).1
  rw [hsource] at hvalue
  have hliteral : Expression.literal .standard withTable = withTable := by decide
  have htable : (declare? .standard withTable).value = none := by
    refine (hnone withTable).1.mpr fun l hl => ⟨" @t table (x int)".toList, ?_, by decide⟩
    have hread : (declareLine? withTable).map DeclareLine.items =
        some ["@i int = 5".toList, " @t table (x int)".toList] := by decide
    rw [hl] at hread
    rw [Option.some.inj hread]
    simp
  obtain ⟨hlocals, hlines⟩ := (hnone withTable).2 [] {} withTable [] (by decide) hliteral htable
  refine ⟨hvalue.trans (by decide), htable, hlocals, ?_⟩
  rw [hlines]
  decide

end SqlRoutine.Body

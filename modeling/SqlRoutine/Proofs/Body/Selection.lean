import SqlRoutine.Proofs.Body.Simple
import SqlRoutine.Proofs.Code.Level

/-! # Assignments by `SELECT`

A `SELECT` that assigns variables has modifiers, a list of targets with their values, and a clause that
starts with `FROM`. `Selection.source` prints it for SQL Server and `Selection.render` for PL/pgSQL,
where the values stand in one list and the targets in another. **Each value that is read from a printed
line belongs to its own target** (`select?_source`), and the conversion of the line is what is rendered:
the targets that are kept in their order, with their values at the same places (`convert_selection`). -/

namespace SqlRoutine.Body

open Code List Text

variable {b t w : Text}

/-! ### Parts of a `SELECT` -/

/-- The word after the list. -/
def fromWord : Text := "FROM".toList

/-- **A value in a list of assignments**: it has no comma and no `FROM` outside quotes and parentheses. -/
structure Operand where
  text : Text
  notEmpty : text ≠ []
  trimmed : text.trim = text
  oneLine : '\n' ∉ text
  isSealed : Sealed fromWord text
  noComma : occurs commaHere {} none text = false

/-- A target and its value. -/
structure Assignment where
  target : VariableName
  notFrom : ¬Spells fromWord target.text
  value : Operand

/-- The count after `TOP`. -/
structure RowLimit where
  text : Text
  notEmpty : text ≠ []
  digits : text.all Char.isDigit

/-- What may stand before the list. -/
structure Modifiers where
  distinct : Bool := false
  top : Option RowLimit := none

/-- What may stand after the list. -/
structure Clause where
  text : Text
  isFrom : (word? fromWord text).isSome
  trimmed : text.trim = text
  oneLine : '\n' ∉ text
  noComment : occurs dashesHere {} none text = false

/-- **A `SELECT` that assigns variables.** -/
structure Selection where
  indent : Indentation
  modifiers : Modifiers
  first : Assignment
  others : List Assignment
  clause : Option Clause

namespace Assignment

/-- The assignment in a list. -/
def text (a : Assignment) : Text := '@' :: (a.target.text ++ (" = ".toList ++ a.value.text))

/-- What is read from the assignment. -/
def pair (a : Assignment) : Text × Text := (a.target.text, a.value.text)

/-- The assignment is kept: its target is not the variable for error codes. -/
def isKept (a : Assignment) : Bool := !isErrorVariable a.target.text

/-- The target in PL/pgSQL. -/
def localName (a : Assignment) : Text := '_' :: a.target.text

/-- The value in PL/pgSQL. -/
def converted (p : Profile) (a : Assignment) : Text := (Expression.convert p a.value.text).value

end Assignment

/-- The modifier for the number of rows, with a blank after it. -/
def limitText : Option RowLimit → Text
  | none => []
  | some count => "TOP ".toList ++ (count.text ++ [' '])

/-- The modifiers, each with a blank after it. -/
def Modifiers.text (m : Modifiers) : Text :=
  (if m.distinct then "DISTINCT ".toList else []) ++ limitText m.top

/-- Assignments as a list. -/
def listText (items : List Assignment) : Text := join ", ".toList (items.map Assignment.text)

namespace Selection

/-- All assignments, in their order. -/
def items (s : Selection) : List Assignment := s.first :: s.others

/-- The text of the clause. -/
def clauseText (s : Selection) : Text := (s.clause.map Clause.text).getD []

/-- The list with the clause. -/
def code (s : Selection) : Text :=
  listText s.items ++
    match s.clause with
    | none => []
    | some clause => ' ' :: clause.text

/-- The line for SQL Server. -/
def source (s : Selection) : Text :=
  s.indent.text ++ ("SELECT".toList ++ (' ' :: (s.modifiers.text ++ s.code)))

/-- The statement that is read from the line. -/
def read (s : Selection) : Statement :=
  .select s.indent.text s.modifiers.text (s.items.map Assignment.pair) s.clauseText []

/-- The assignments whose target is kept. -/
def kept (s : Selection) : List Assignment := s.items.filter Assignment.isKept

/-- The values and then the targets, both in the order of the assignments. -/
def into (p : Profile) (s : Selection) : Text :=
  s.indent.text ++ "SELECT ".toList ++ s.modifiers.text ++
    join ", ".toList (s.kept.map (Assignment.converted p)) ++ " INTO ".toList ++
      join ", ".toList (s.kept.map Assignment.localName)

/-- **The line for PL/pgSQL.** If no target is kept, nothing is. -/
def render (p : Profile) (s : Selection) : Text :=
  match s.kept, s.clause with
  | [], _ => []
  | _, some clause => s.into p ++ ' ' :: (Expression.convert p clause.text).value
  | [a], none =>
    if s.modifiers.text = [] then
      s.indent.text ++ a.localName ++ " := ".toList ++ a.converted p ++ [';']
    else s.into p ++ [';']
  | _, none => s.into p ++ [';']

end Selection

/-! ### The list -/

theorem isBlank_of_trimmed (hne : t ≠ []) (h : t.trim = t) : t.isBlank = false := by
  rw [← Bool.not_eq_true]
  intro hblank
  rw [trim_of_isBlank hblank] at h
  exact hne h.symm

theorem trim_between (hne : t ≠ []) (h : t.trim = t) (hb : b.isBlank)
    (hw : w.isBlank) : trim (b ++ (t ++ w)) = t := by
  obtain ⟨c, u, rfl⟩ := exists_cons_of_ne_nil hne
  obtain ⟨v, hv⟩ := head_of_trim h
  have hc : isBlank c = false := isBlank_of_trimStart hv
  have hend : trimEnd (c :: u ++ w) = trimEnd (c :: u) := by
    unfold trimEnd dropEndWhile
    rw [reverse_append, dropWhile_append_of_pos fun d hd =>
      isBlank_eq_true_iff.mp hw d (mem_reverse.mp hd)]
  have hstart : trimStart (c :: u ++ w) = c :: u ++ w := trimStart_of_head hc
  rw [trim, trimStart_of_head hc] at h
  rw [trim, trimStart_append hb, hstart, hend, h]

theorem isIdentifier_fromWord : isIdentifier fromWord := by
  decide

namespace Assignment

variable (a : Assignment)

theorem text_eq : a.text = ("@".toList ++ (a.target.text ++ " = ".toList)) ++ a.value.text := by
  simp [text]

theorem isSealed : Sealed fromWord a.text := by
  have hat : Sealed fromWord "@".toList := ⟨by decide, by decide, by decide⟩
  have hequals : Sealed fromWord " = ".toList := ⟨by decide, by decide, by decide⟩
  have hname := sealed_name a.target.word a.notFrom
  have hword := isIdentifier_fromWord
  have hapart : Apart ("@".toList ++ (a.target.text ++ " = ".toList)) a.value.text := by
    refine .inr ?_
    rw [← append_assoc, getLast?_append]
    rfl
  rw [text_eq]
  exact .append hword (.append hword hat (.append hword hname hequals (.inl rfl)) (.inr rfl))
    a.value.isSealed hapart

theorem noComma : occurs commaHere {} none a.text = false := by
  have hplain : ("@".toList ++ (a.target.text ++ " = ".toList)).all isPlain := by
    rw [all_append, all_append, isPlain_of_isWord a.target.word]
    decide
  rw [text_eq]
  refine occurs_comma_append (occurs_comma_of_isPlain hplain none) ?_
  rw [Code.Level.after_of_isPlain hplain]
  exact a.value.noComma

theorem oneLine : '\n' ∉ a.text := by
  have hname : '\n' ∉ a.target.text := fun hmem =>
    absurd (all_eq_true.mp a.target.word _ hmem) (by decide)
  simp [text, hname, a.value.oneLine]

/-- **The target and the value are read from the assignment**, with any blanks around it. -/
theorem item?_text (hb : b.isBlank) (hw : w.isBlank) :
    item? (b ++ (a.text ++ w)) = some a.pair := by
  have hstart : trimStart (b ++ (a.text ++ w)) =
      '@' :: (a.target.text ++ (" = ".toList ++ a.value.text ++ w)) := by
    rw [trimStart_append hb, text, cons_append, trimStart_of_head (by decide)]
    simp
  have hname : atName? ('@' :: (a.target.text ++ (" = ".toList ++ a.value.text ++ w))) =
      some (a.target.text, " = ".toList ++ a.value.text ++ w) :=
    name?_append a.target.notEmpty a.target.word rfl
  have hequals : char? '=' (trimStart (" = ".toList ++ a.value.text ++ w)) =
      some (" ".toList ++ (a.value.text ++ w)) := rfl
  have hblank : Text.isBlank (" ".toList ++ (a.value.text ++ w)) = false := by
    rw [isBlank_append, isBlank_append, isBlank_of_trimmed a.value.notEmpty a.value.trimmed]
    rfl
  unfold item?
  simp only [hstart, hname, hequals, hblank, Option.bind_eq_bind, Option.bind_some, Bool.false_eq_true,
    if_false, trim_between a.value.notEmpty a.value.trimmed (b := " ".toList) rfl hw, pair]

theorem noComma_between (hb : b.isBlank) (hw : w.isBlank) :
    occurs commaHere {} none (b ++ (a.text ++ w)) = false := by
  have hb := isPlain_of_isBlank hb
  have hw := isPlain_of_isBlank hw
  refine occurs_comma_append (occurs_comma_of_isPlain hb none) ?_
  rw [Code.Level.after_of_isPlain hb]
  refine occurs_comma_append a.noComma ?_
  exact occurs_comma_of_isPlain hw none

theorem balanced_after (hb : b.isBlank) : Code.Level.after {} (b ++ a.text) = {} := by
  rw [Code.Level.after_append, Code.Level.after_of_isPlain (isPlain_of_isBlank hb),
    a.isSealed.balanced]

end Assignment

theorem listText_cons (a next : Assignment) (others : List Assignment) :
    listText (a :: next :: others) = a.text ++ (", ".toList ++ listText (next :: others)) := by
  simp [listText, join]

/-- **Each target is read with its own value** from the pieces of the list. -/
theorem mapM_item?_listText (others : List Assignment) (a : Assignment)
    (hb : b.isBlank) (hw : w.isBlank) :
    (splitCommas (b ++ (listText (a :: others) ++ w))).mapM item? =
      some ((a :: others).map Assignment.pair) := by
  -- the blank after a comma belongs to the next piece, so the blanks before the list vary
  induction others generalizing a b with
  | nil =>
    have hpiece : splitCommas (b ++ (a.text ++ w)) = [b ++ (a.text ++ w)] :=
      splitCommas_of_none (a.noComma_between hb hw)
    rw [show listText [a] = a.text from rfl, hpiece, mapM_cons, a.item?_text hb hw]
    rfl
  | cons next others ih =>
    have hfirst : occurs commaHere {} none (b ++ a.text) = false := by
      have h := a.noComma_between hb (w := []) rfl
      rwa [append_nil] at h
    have hitem : item? (b ++ a.text) = some a.pair := by
      have h := a.item?_text hb (w := []) rfl
      rwa [append_nil] at h
    have hsplit : b ++ (listText (a :: next :: others) ++ w) =
        (b ++ a.text) ++ ',' :: (" ".toList ++ (listText (next :: others) ++ w)) := by
      rw [listText_cons]
      simp
    rw [hsplit, splitCommas_append hfirst (a.balanced_after hb), mapM_cons, hitem,
      ih next rfl]
    rfl

theorem sealed_listText (others : List Assignment) (a : Assignment) :
    Sealed fromWord (listText (a :: others)) := by
  have hword := isIdentifier_fromWord
  have hcomma : Sealed fromWord ", ".toList := ⟨by decide, by decide, by decide⟩
  induction others generalizing a with
  | nil => exact a.isSealed
  | cons next others ih =>
    rw [listText_cons]
    exact .append hword a.isSealed (.append hword hcomma (ih next) (.inr rfl)) (.inl rfl)

theorem oneLine_listText (others : List Assignment) (a : Assignment) :
    '\n' ∉ listText (a :: others) := by
  induction others generalizing a with
  | nil => exact a.oneLine
  | cons next others ih =>
    rw [listText_cons]
    simp [a.oneLine, ih next]

/-! ### Reading -/

theorem ascii_digit : ∀ k < 128, (Char.ofNat k).isDigit →
    isBlank (Char.ofNat k) = false ∧ isDecimal (Char.ofNat k) ∧ Char.ofNat k ≠ '(' := by
  decide

theorem of_isDigit {c : Char} (h : c.isDigit) :
    isBlank c = false ∧ isDecimal c ∧ c ≠ '(' := by
  have hle : c.val.toNat ≤ 57 := (Bool.and_eq_true_iff.mp h).2 |> of_decide_eq_true
  have hascii := ascii_digit c.toNat (Nat.lt_of_le_of_lt hle (by decide))
  rw [Char.ofNat_toNat] at hascii
  exact hascii h

theorem RowLimit.top?_text (count : RowLimit) (rest : Text) :
    top? ("TOP ".toList ++ (count.text ++ ' ' :: '@' :: rest)) = some ('@' :: rest) := by
  obtain ⟨c, cs, htext⟩ := exists_cons_of_ne_nil count.notEmpty
  have hdigit : ∀ d ∈ count.text, d.isDigit := all_eq_true.mp count.digits
  have hc := of_isDigit (hdigit c (by simp [htext]))
  have hdecimal : count.text.all isDecimal :=
    all_eq_true.mpr fun d hd => (of_isDigit (hdigit d hd)).2.1
  have hkeyword : keyword? "TOP".toList ("TOP ".toList ++ (count.text ++ ' ' :: '@' :: rest)) =
      some (' ' :: (count.text ++ ' ' :: '@' :: rest)) := rfl
  have hstart : trimStart (' ' :: (count.text ++ ' ' :: '@' :: rest)) =
      count.text ++ ' ' :: '@' :: rest := by
    rw [htext]
    exact trimStart_of_head hc.1
  have hcount : DataType.digits? (count.text ++ ' ' :: '@' :: rest) =
      some (count.text, ' ' :: '@' :: rest) := by
    obtain ⟨htake, hdrop⟩ := run_append (z := ' ' :: '@' :: rest) hdecimal rfl
    unfold DataType.digits?
    rw [htake, hdrop, htext]
  unfold top?
  simp only [hkeyword, hstart, Option.bind_eq_bind, Option.bind_some]
  split
  · next inner hopen =>
    rw [htext, cons_append] at hopen
    exact absurd (List.cons.inj hopen).1 hc.2.2
  · rw [hcount]
    rfl

theorem limitText_read (top : Option RowLimit) (rest : Text) :
    let t := limitText top ++ '@' :: rest
    (top? t).getD t = '@' :: rest ∧ trimStart t = t ∧ distinct? t = none := by
  cases top with
  | none => exact ⟨rfl, rfl, rfl⟩
  | some count =>
    have htext : limitText (some count) ++ '@' :: rest =
        "TOP ".toList ++ (count.text ++ ' ' :: '@' :: rest) := by
      simp [limitText]
    refine ⟨?_, rfl, rfl⟩
    rw [htext, count.top?_text rest]
    rfl

/-- **All modifiers are read**, and nothing else. -/
theorem Modifiers.afterModifiers_text (m : Modifiers) (rest : Text) :
    afterModifiers (m.text ++ '@' :: rest) = '@' :: rest := by
  obtain ⟨htop, hstart, hnone⟩ := limitText_read m.top rest
  unfold text afterModifiers
  cases m.distinct with
  | false =>
    rw [if_neg Bool.false_ne_true, nil_append, hnone]
    exact htop
  | true =>
    have hread : distinct? ("DISTINCT ".toList ++ (limitText m.top ++ '@' :: rest)) =
        some (limitText m.top ++ '@' :: rest) := congrArg some hstart
    rw [if_pos rfl, append_assoc, hread]
    exact htop

theorem Modifiers.trimStart_text (m : Modifiers) (rest : Text) :
    trimStart (m.text ++ '@' :: rest) = m.text ++ '@' :: rest := by
  unfold text
  cases m.distinct with
  | false => exact (limitText_read m.top rest).2.1
  | true => rfl

theorem Clause.isEmpty_text (clause : Clause) : clause.text.isEmpty = false := by
  have hfrom := clause.isFrom
  cases htext : clause.text with
  | nil =>
    rw [htext] at hfrom
    cases hfrom
  | cons c cs => rfl

/-- The word of the clause is found after the blank before it. -/
theorem Clause.found (clause : Clause) (prev : Option Char) (position : ℕ) :
    topLevelWordFrom fromWord false 0 prev position (' ' :: clause.text) =
      some (position + 1) := by
  have hword := isIdentifier_fromWord
  have hblank : wordHere fromWord {} prev (' ' :: clause.text) = false := by
    rw [wordHere, word?_sign ' ' clause.text hword rfl rfl]
    simp
  have hfrom := clause.isFrom
  have hstart := topLevelWordFrom_level {} ' ' clause.text hword prev position
  rw [hblank, if_neg Bool.false_ne_true] at hstart
  refine hstart.trans ?_
  cases htext : clause.text with
  | nil =>
    rw [htext] at hfrom
    cases hfrom
  | cons c cs =>
    rw [htext] at hfrom
    have hhere : wordHere fromWord {} (some ' ') (c :: cs) := by
      rw [wordHere, hfrom]
      rfl
    exact (topLevelWordFrom_level {} c cs hword (some ' ') _).trans (if_pos hhere)

namespace Selection

variable (s : Selection)

theorem exists_code : ∃ rest, s.code = '@' :: (s.first.target.text ++ (" = ".toList ++ rest)) := by
  obtain ⟨others, hlist⟩ : ∃ others, listText s.items = s.first.text ++ others := by
    unfold items
    cases s.others with
    | nil => exact ⟨[], (append_nil _).symm⟩
    | cons next others => exact ⟨_, listText_cons s.first next others⟩
  unfold code
  rw [hlist, append_assoc, Assignment.text, cons_append, append_assoc, append_assoc]
  exact ⟨_, rfl⟩

theorem oneLine_code : '\n' ∉ s.code := by
  have hlist : '\n' ∉ listText s.items := oneLine_listText s.others s.first
  unfold code
  cases hclause : s.clause with
  | none => simpa using hlist
  | some clause => simpa using ⟨hlist, clause.oneLine⟩

theorem splitComment_code : splitComment s.code = (s.code, []) := by
  have hlist := sealed_listText s.others s.first
  refine splitComment_of_none ?_
  unfold code
  cases hclause : s.clause with
  | none =>
    rw [append_nil]
    exact commentFrom_of_none hlist.noComment
  | some clause =>
    have hpassed := commentFrom_passed (u := ' ' :: clause.text) hlist.noComment fun _ => .inl rfl
    have hspace : commentFrom false (' ' :: clause.text) = commentFrom false clause.text :=
      commentFrom_append (m := " ".toList) rfl false clause.text
    rw [hlist.balanced] at hpassed
    exact hpassed.trans (hspace.trans (commentFrom_of_none clause.noComment))

/-- **The clause starts where the list ends.** -/
theorem topLevelWord?_code :
    let position := (topLevelWord? fromWord s.code).getD s.code.length
    ∃ w : Text, w.isBlank ∧ s.code.take position = listText s.items ++ w ∧
      trim (s.code.drop position) = s.clauseText := by
  have hword := isIdentifier_fromWord
  have hlist := sealed_listText s.others s.first
  have hpassed : ∀ u : Text, u.head?.all isSeparator →
      topLevelWord? fromWord (listText s.items ++ u) =
        topLevelWordFrom fromWord false 0 ((listText s.items).getLast?.or none)
          (listText s.items).length u := by
    intro u hu
    have h := topLevelWordFrom_passed hword (u := u) hlist.noWord (fun _ => .inl hu) 0
    rwa [hlist.balanced, Nat.zero_add] at h
  unfold code clauseText
  cases hclause : s.clause with
  | none =>
    refine ⟨[], rfl, ?_⟩
    rw [hpassed [] rfl, topLevelWordFrom, Option.getD_none, take_length, drop_length]
    exact ⟨rfl, rfl⟩
  | some clause =>
    refine ⟨" ".toList, rfl, ?_⟩
    have hfound : topLevelWord? fromWord (listText s.items ++ ' ' :: clause.text) =
        some ((listText s.items).length + 1) := by
      rw [hpassed (' ' :: clause.text) rfl]
      exact clause.found _ _
    have hlength : (listText s.items).length + 1 = (listText s.items ++ " ".toList).length := by simp
    have happend : listText s.items ++ ' ' :: clause.text =
        (listText s.items ++ " ".toList) ++ clause.text := by simp
    dsimp only
    rw [hfound, Option.getD_some, hlength, happend, take_left, drop_left]
    exact ⟨rfl, clause.trimmed⟩

theorem selectList?_code : selectList? s.code = some s.code := by
  obtain ⟨rest, hcode⟩ := s.exists_code
  have hname : atName? s.code = some (s.first.target.text, " = ".toList ++ rest) := by
    rw [hcode]
    exact name?_append s.first.target.notEmpty s.first.target.word rfl
  have hequals : char? '=' (trimStart (" = ".toList ++ rest)) = some (' ' :: rest) := rfl
  have hsplit : s.code = ('@' :: (s.first.target.text ++ " =".toList)) ++ ' ' :: rest := by
    rw [hcode]
    simp
  have hline : restOfLine? (' ' :: rest) = some (' ' :: rest) := by
    refine restOfLine?_of_oneLine fun hmem => s.oneLine_code ?_
    rw [hsplit]
    exact mem_append_right _ hmem
  have hread : readBefore (' ' :: rest) s.code ++ ' ' :: rest = s.code := by
    rw [hsplit, readBefore_append]
  unfold selectList?
  simp only [hname, hequals, hline, Option.bind_eq_bind, Option.bind_some]
  exact congrArg some hread

/-- **The parts of the line.** -/
theorem selectLine?_source : ∃ w : Text, w.isBlank ∧ selectLine? s.source =
    some ⟨s.indent.text, s.modifiers.text, splitCommas (listText s.items ++ w), s.clauseText,
      []⟩ := by
  obtain ⟨w, hw, htake, hdrop⟩ := s.topLevelWord?_code
  obtain ⟨rest, hcode⟩ := s.exists_code
  obtain ⟨hindent, htrim⟩ := indent_and_trimStart s.indent.blank "SELECT".toList rfl
    (' ' :: (s.modifiers.text ++ s.code))
  have hkeyword : ∀ t : Text, keyword? "SELECT".toList ("SELECT".toList ++ t) = some t := fun t =>
    keyword?_append rfl t
  have hblanks : blanks? (' ' :: (s.modifiers.text ++ s.code)) =
      some (s.modifiers.text ++ s.code) := by
    rw [hcode]
    exact congrArg some (s.modifiers.trimStart_text _)
  have hafter : afterModifiers (s.modifiers.text ++ s.code) = s.code := by
    rw [hcode, s.modifiers.afterModifiers_text]
  refine ⟨w, hw, ?_⟩
  unfold selectLine? source
  simp only [hindent, htrim, hkeyword, hblanks, hafter, s.selectList?_code, Option.bind_eq_bind,
    Option.bind_some, readBefore_append, s.splitComment_code]
  exact congrArg some (by rw [← htake, ← hdrop]; rfl)

/-- **Each value that is read from the line belongs to its own target.** -/
theorem select?_source : select? s.source = some s.read := by
  obtain ⟨w, hw, hline⟩ := s.selectLine?_source
  have hitems : (splitCommas (listText s.items ++ w)).mapM item? =
      some (s.items.map Assignment.pair) :=
    mapM_item?_listText s.others s.first (b := []) rfl hw
  unfold select?
  simp only [hline, hitems, Option.bind_eq_bind, Option.bind_some]
  rfl

end Selection

theorem Selection.ofLine?_source (s : Selection) :
    Statement.ofLine? s.source = (rowCount? s.source).or (some s.read) := by
  have hopens : opens "SELECT".toList s.source := opens_append s.indent.blank rfl _
  have hset := keyword?_of_opens hopens (l := "Set".toList) rfl
  have hprint := keyword?_of_opens hopens (l := "Print".toList) rfl
  rw [Statement.ofLine?, assign?_none hset, print?_none hprint, s.select?_source]
  cases rowCount? s.source <;> rfl

/-! ### Row counts -/

/-- The variable that holds the number of rows. -/
def rowCountName : Text := "@@rowcount".toList

/-- The text mentions the number of rows, be it in quotes. -/
def mentionsRowCount : Text → Bool
  | [] => false
  | c :: cs => (keyword? rowCountName (c :: cs)).isSome || mentionsRowCount cs

theorem mentionsRowCount_of_keyword? {rest : Text} (h : keyword? rowCountName t = some rest) :
    mentionsRowCount t := by
  cases t with
  | nil => cases h
  | cons c cs => rw [mentionsRowCount, h, Option.isSome_some, Bool.true_or]

theorem mentionsRowCount_of_suffix {u : Text} (hu : u <:+ t) (h : mentionsRowCount u) :
    mentionsRowCount t := by
  obtain ⟨r, rfl⟩ := hu
  induction r with
  | nil => exact h
  | cons c r ih => rw [cons_append, mentionsRowCount, ih, Bool.or_true]

theorem mentionsRowCount_of_target {target : Text} (h : rowCountTarget? t = some target) :
    mentionsRowCount t := by
  unfold rowCountTarget? at h
  simp only [Option.bind_eq_bind, Option.bind_eq_some_iff] at h
  obtain ⟨⟨name, rest⟩, hname, value, hequals, after, hcount, -⟩ := h
  obtain ⟨r, hr, -⟩ := Option.bind_eq_some_iff.mp hcount
  obtain ⟨ht, -⟩ := atName?_spec hname
  have hrest : rest <:+ t := ⟨'@' :: name, by rw [ht]; rfl⟩
  have hvalue : '=' :: value <:+ rest := by
    rw [← char?_eq_some_iff.mp hequals]
    exact dropWhile_suffix _
  have hmention : mentionsRowCount value.trimStart := mentionsRowCount_of_keyword? hr
  have hsuffix : value.trimStart <:+ t :=
    (((dropWhile_suffix _).trans (suffix_cons '=' value)).trans hvalue).trans hrest
  exact mentionsRowCount_of_suffix hsuffix hmention

theorem lastRowCountTarget?_none (h : mentionsRowCount t = false) : lastRowCountTarget? t = none := by
  induction t with
  | nil => rfl
  | cons c cs ih =>
    have hrest : mentionsRowCount cs = false := by
      rw [← Bool.not_eq_true] at h ⊢
      exact fun hcs => h (mentionsRowCount_of_suffix (suffix_cons c cs) hcs)
    have hhere : rowCountTarget? (c :: cs) = none := by
      refine Option.eq_none_iff_forall_ne_some.mpr fun target htarget => ?_
      rw [mentionsRowCount_of_target htarget] at h
      cases h
    rw [lastRowCountTarget?, ih hrest, hhere, ite_self]

theorem rowCount?_none_of_mentions {line : Text} (h : mentionsRowCount line = false) :
    rowCount? line = none := by
  unfold rowCount?
  cases hword : word? "SELECT".toList line.trimStart with
  | none => rfl
  | some rest =>
    have hsuffix : rest <:+ line := by
      obtain ⟨r, hr, hend⟩ := Option.bind_eq_some_iff.mp hword
      obtain ⟨m, -, hm⟩ := keyword?_eq_some_iff.mp hr
      have hrest : r = rest := by
        split_ifs at hend
        exact Option.some.inj hend
      have htrim : rest <:+ line.trimStart := ⟨m, by rw [hm, hrest]⟩
      exact htrim.trans (dropWhile_suffix _)
    have hrest : mentionsRowCount rest = false := by
      rw [← Bool.not_eq_true] at h ⊢
      exact fun hmem => h (mentionsRowCount_of_suffix hsuffix hmem)
    simp only [Option.bind_eq_bind, Option.bind_some, lastRowCountTarget?_none hrest, Option.bind_none]

/-! ### Writing -/

theorem convertItems_pairs (p : Profile) (items : List Assignment) :
    (convertItems p (items.map Assignment.pair)).value =
      (items.filter Assignment.isKept).map fun a => (a.localName, a.converted p) := by
  induction items with
  | nil => rfl
  | cons a items ih =>
    rw [map_cons, Assignment.pair, convertItems]
    cases herror : isErrorVariable a.target.text with
    | true =>
      rw [if_pos rfl, ih, filter_cons_of_neg (by simp [Assignment.isKept, herror])]
    | false =>
      rw [if_neg Bool.false_ne_true, filter_cons_of_pos (by simp [Assignment.isKept, herror]),
        map_cons, ← ih]
      rfl

theorem Selection.selectInto_kept (p : Profile) (s : Selection) :
    selectInto s.indent.text s.modifiers.text (s.kept.map fun a => (a.localName, a.converted p)) =
      s.into p := by
  have hvalues : (s.kept.map fun a => (a.localName, a.converted p)).map (·.2) =
      s.kept.map (Assignment.converted p) := by
    simp only [map_map, Function.comp_def]
  have htargets : (s.kept.map fun a => (a.localName, a.converted p)).map (·.1) =
      s.kept.map Assignment.localName := by
    simp only [map_map, Function.comp_def]
  rw [selectInto, into, hvalues, htargets]

/-- **The conversion of the statement is what is rendered.** -/
theorem Selection.convert_read (p : Profile) (s : Selection) {ahead : List Text}
    (hnext : fromAhead ahead = false) : (s.read.convert p ahead).value = s.render p := by
  have hinto := s.selectInto_kept p
  have hkept : (convertItems p (s.items.map Assignment.pair)).value =
      s.kept.map fun a => (a.localName, a.converted p) := convertItems_pairs p s.items
  unfold read Statement.convert convertSelect render
  rw [Noted.value_bind, hkept]
  cases hlist : s.kept with
  | nil => rfl
  | cons a others =>
    rw [hlist, map_cons] at hinto
    rw [map_cons]
    simp only [Noted.value_bind, hnext, Bool.false_eq_true, if_false, withComment_nil, hinto]
    cases hclause : s.clause with
    | some clause =>
      have htext : s.clauseText = clause.text := by rw [clauseText, hclause]; rfl
      have hempty : clause.text.isEmpty = false := clause.isEmpty_text
      simp [htext, hempty]
    | none =>
      have htext : s.clauseText = [] := by rw [clauseText, hclause]; rfl
      cases others with
      | nil =>
        by_cases hmodifiers : s.modifiers.text = []
        · simp [htext, hmodifiers]
        · simp [htext, hmodifiers]
      | cons b others => simp [htext]

/-- **A `SELECT` assigns to each target that is kept its own value.** Its line is read as the
assignments of which it is made, and the targets that are kept are written in their order, with their
values in the same order. -/
theorem convert_selection (p : Profile) (s : Selection) (ahead : List Text)
    (hnext : fromAhead ahead = false) : ∃ statement, select? s.source = some statement ∧
      (statement.convert p ahead).value = s.render p ∧
      (mentionsRowCount s.source = false → Statement.ofLine? s.source = some statement) := by
  refine ⟨s.read, s.select?_source, s.convert_read p hnext, fun hcount => ?_⟩
  rw [s.ofLine?_source, rowCount?_none_of_mentions hcount, Option.none_or]

/-- Values with commas, quotes, dashes and `FROM` inside them, and the variable for error codes between
two others. -/
def nestedSelection : Selection where
  indent := ⟨" ".toList, rfl⟩
  modifiers := ⟨true, some ⟨"5".toList, by decide, by decide⟩⟩
  first := ⟨⟨"a".toList, by decide, by decide⟩, by decide,
    ⟨"f('--', '(')".toList, by decide, by decide, by decide,
      ⟨by decide, by decide, by decide⟩, by decide⟩⟩
  others := [⟨⟨"MYERROR".toList, by decide, by decide⟩, by decide,
      ⟨"0".toList, by decide, by decide, by decide,
        ⟨by decide, by decide, by decide⟩, by decide⟩⟩,
    ⟨⟨"b".toList, by decide, by decide⟩, by decide,
      ⟨"(SELECT c FROM t)".toList, by decide, by decide, by decide,
        ⟨by decide, by decide, by decide⟩, by decide⟩⟩]
  clause := some ⟨"FROM u".toList, by decide, by decide, by decide, by decide⟩

theorem convert_selection_nested :
    let line := " SELECT DISTINCT TOP 5 @a = f('--', '(')".toList ++
      ", @MYERROR = 0, @b = (SELECT c FROM t) FROM u".toList
    fromAhead ["where c".toList] = false ∧ mentionsRowCount line = false ∧
      ∃ statement, Statement.ofLine? line = some statement ∧
        (statement.convert .standard ["where c".toList]).value =
          " SELECT DISTINCT TOP 5 f('--', '('), (SELECT c ".toList ++
            "FROM t) INTO _a, _b FROM u".toList := by
  intro line
  have hnext : fromAhead ["where c".toList] = false := by decide
  have hcount : mentionsRowCount line = false := by decide
  have hsource : nestedSelection.source = line := by decide
  obtain ⟨statement, -, hvalue, hread⟩ := convert_selection .standard nestedSelection _ hnext
  rw [hsource] at hread
  exact ⟨hnext, hcount, statement, hread hcount, hvalue.trans (by decide)⟩

end SqlRoutine.Body

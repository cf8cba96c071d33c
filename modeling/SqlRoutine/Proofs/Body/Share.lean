import SqlRoutine.Proofs.Body.Feed
import SqlRoutine.Proofs.Body.Line
import SqlRoutine.Proofs.Body.Statement
import SqlRoutine.Proofs.Code.Quoting
import SqlRoutine.Proofs.Expression.Blank

/-! # What becomes of each source line

A call of the conversion takes one source line, and perhaps some of the lines ahead. `shares` says for
each of them what it adds to the body and to the local variables. The shares together, with an `End If`
that may be put in at the end, are **everything that the call adds** (`step_told`), and **no line that
is not blank goes without a share** (`no_line_lost`), except for

* a `Begin` after `While`, and one after `If` or `Else` that has no comment;
* an `End` that closes an `If` block which goes on with `Else`: a comment on it is lost, whereas every
  other `End` keeps it;
* a `Declare` line and an assignment by `SELECT` of nothing but the variable for error codes, the latter
  without a comment. -/

namespace SqlRoutine.Body

open Code Expression List

variable {inserted lines : List Converted} {told : List Share} {next : List Text → Guarded}
  {statement : Statement} {indent source : Text}

variable {p : Profile} {name : Text} {line : Text} {ahead : List Text}

/-! ### Shares -/

/-- The part of a source line in a call. -/
inductive Part where
  /-- A line of control flow that is written: `If`, `While`, `Else`, or an `End`. -/
  | control
  /-- A `Begin` after `If` or `Else`. -/
  | ifBegin
  /-- A `Begin` after `While`. -/
  | loopBegin
  /-- An `End` of an `If` block that goes on with `Else`. -/
  | endBeforeElse
  | declaration
  /-- Any other line. -/
  | statement
  deriving DecidableEq, Repr

/-- **What becomes of a source line.** -/
structure Share where
  source : Text
  part : Part
  lines : List Converted := []
  locals : List Text := []
  deriving DecidableEq, Repr

/-- The shares of what follows an `If` or `Else`: a `Begin`, or a statement and what comes next. -/
def guardedShares (p : Profile) (next : List Text → List Share) : List Text → List Share
  | [] => []
  | line :: ahead =>
    if isBegin line then [{ source := line, part := .ifBegin, lines := beginComment line }]
    else { source := line, part := .statement, lines := (guardedStatement p line ahead).lines } ::
      next ahead

/-- An `Else` comes next. -/
def elseAhead (ahead : List Text) : Bool := ahead.head?.any isElse

/-- The shares of an `Else` that comes next, and of what follows it. -/
def elseShares (p : Profile) : List Text → List Share
  | [] => []
  | line :: ahead =>
    if isElse line then
      { source := line, part := .control, lines := (elseLine p line).lines } ::
        guardedShares p (fun _ => []) ahead
    else []

/-- The share of a `Begin` after `While`. -/
def loopShares : List Text → List Share
  | [] => []
  | line :: _ => if isBegin line then [{ source := line, part := .loopBegin }] else []

/-- The shares of an `End` that closes a block of the given kind. -/
def endShares (p : Profile) (source line extra : Text) (ahead : List Text) : Block → List Share
  | .whileLoop =>
    [{ source, part := .control, lines := [⟨.loopEnd, line.indent ++ "End Loop;".toList ++ extra⟩] }]
  | .ifBlock =>
    if elseAhead ahead then { source, part := .endBeforeElse } :: elseShares p ahead
    else [{ source, part := .control, lines := [⟨.ifEnd, line.indent ++ "End If;".toList ++ extra⟩] }]

/-- The shares of a line that neither declares variables nor ends a block. -/
def otherShares (p : Profile) (s : State) (source line : Text) (ahead : List Text) : List Share :=
  if isIf line then
    { source, part := .control, lines := [⟨.ifHead, (condition p line "Then".toList).value⟩] } ::
      guardedShares p (elseShares p) ahead
  else if isWhile line then
    { source, part := .control, lines := [⟨.loopHead, (condition p line "Loop".toList).value⟩] } ::
      loopShares ahead
  else [{ source, part := .statement, lines := (plainLine p s line ahead).lines }]

/-- The shares of a line that declares no variables. -/
def undeclaredShares (p : Profile) (s : State) (source line : Text) (ahead : List Text) : List Share :=
  match s.blocks, end? line with
  | block :: _, some extra => endShares p source line extra ahead block
  | _, _ => otherShares p s source line ahead

/-- **The shares of the lines that a call takes**: of the line that it is given, and of lines ahead. -/
def shares (p : Profile) (s : State) (source : Text) (ahead : List Text) : List Share :=
  let line := Expression.literal p source
  match (declare? p line).value with
  | some declared =>
    [{ source, part := .declaration, lines := declared.lines.map ({ text := · }),
       locals := declared.locals }]
  | none => undeclaredShares p s source line ahead

/-- **The property of the shares of every kind.** -/
structure EveryKind (p : Profile) (P : Share → Prop) : Prop where
  declaration : ∀ {line : Text} {declared : Declared},
    (declare? p (Expression.literal p line)).value = some declared →
      P { source := line, part := .declaration, lines := declared.lines.map ({ text := · }),
          locals := declared.locals }
  head : ∀ {line word : Text} {role : Role}, word ∈ ["Then".toList, "Loop".toList] →
    P { source := line, part := .control,
        lines := [⟨role, (condition p (Expression.literal p line) word).value⟩] }
  ifBegin : ∀ {line : Text}, isBegin line →
    P { source := line, part := .ifBegin, lines := beginComment line }
  loopBegin : ∀ {line : Text}, isBegin line → P { source := line, part := .loopBegin }
  guardedLine : ∀ {line : Text} {ahead : List Text},
    P { source := line, part := .statement, lines := (guardedStatement p line ahead).lines }
  elseHead : ∀ {line : Text}, P { source := line, part := .control, lines := (elseLine p line).lines }
  blockEnd : ∀ {line extra word : Text} {role : Role}, end? (Expression.literal p line) = some extra →
    word ∈ ["End If;".toList, "End Loop;".toList] →
      P { source := line, part := .control,
          lines := [⟨role, (Expression.literal p line).indent ++ word ++ extra⟩] }
  endBeforeElse : ∀ {line extra : Text}, end? (Expression.literal p line) = some extra →
    P { source := line, part := .endBeforeElse }
  plain : ∀ {s : State} {line : Text} {ahead : List Text},
    P { source := line, part := .statement,
        lines := (plainLine p s (Expression.literal p line) ahead).lines }

section EveryKind
variable {P : Share → Prop} (h : EveryKind p P)
include h

theorem EveryKind.guardedShares {next : List Text → List Share}
    (hnext : ∀ ahead, ∀ share ∈ next ahead, P share) : ∀ share ∈ guardedShares p next ahead, P share := by
  intro share hshare
  rcases ahead with _ | ⟨line, ahead⟩
  · cases hshare
  · rw [Body.guardedShares] at hshare
    split_ifs at hshare with hbegin
    · rw [mem_singleton.mp hshare]
      exact h.ifBegin hbegin
    · rcases mem_cons.mp hshare with rfl | hshare
      · exact h.guardedLine
      · exact hnext ahead share hshare

theorem EveryKind.elseShares : ∀ share ∈ elseShares p ahead, P share := by
  intro share hshare
  rcases ahead with _ | ⟨line, ahead⟩
  · cases hshare
  · rw [Body.elseShares] at hshare
    split_ifs at hshare
    · rcases mem_cons.mp hshare with rfl | hshare
      · exact h.elseHead
      · exact h.guardedShares (fun _ _ hnone => absurd hnone not_mem_nil) share hshare
    · cases hshare

theorem EveryKind.loopShares : ∀ share ∈ loopShares ahead, P share := by
  intro share hshare
  rcases ahead with _ | ⟨line, ahead⟩
  · cases hshare
  · rw [Body.loopShares] at hshare
    split_ifs at hshare with hbegin
    · rw [mem_singleton.mp hshare]
      exact h.loopBegin hbegin
    · cases hshare

theorem EveryKind.endShares {extra : Text} {block : Block}
    (hend : end? (Expression.literal p line) = some extra) :
    ∀ share ∈ endShares p line (Expression.literal p line) extra ahead block, P share := by
  intro share hshare
  cases block with
  | whileLoop =>
    rw [mem_singleton.mp hshare]
    exact h.blockEnd hend (by simp)
  | ifBlock =>
    rw [Body.endShares] at hshare
    split_ifs at hshare
    · rcases mem_cons.mp hshare with rfl | hshare
      · exact h.endBeforeElse hend
      · exact h.elseShares share hshare
    · rw [mem_singleton.mp hshare]
      exact h.blockEnd hend (by simp)

theorem EveryKind.otherShares (s : State) :
    ∀ share ∈ otherShares p s line (Expression.literal p line) ahead, P share := by
  intro share hshare
  unfold Body.otherShares at hshare
  split_ifs at hshare
  · rcases mem_cons.mp hshare with rfl | hshare
    · exact h.head (by simp)
    · exact h.guardedShares (fun _ => h.elseShares) share hshare
  · rcases mem_cons.mp hshare with rfl | hshare
    · exact h.head (by simp)
    · exact h.loopShares share hshare
  · rw [mem_singleton.mp hshare]
    exact h.plain

/-- **What the shares of every kind have, the shares of a call have.** -/
theorem EveryKind.shares (s : State) (line : Text) (ahead : List Text) :
    ∀ share ∈ shares p s line ahead, P share := by
  intro share hshare
  unfold Body.shares at hshare
  dsimp only at hshare
  split at hshare
  · next declared hdeclared =>
    rw [mem_singleton.mp hshare]
    exact h.declaration hdeclared
  · unfold undeclaredShares at hshare
    split at hshare
    · next block blocks extra hend => exact h.endShares hend share hshare
    · exact h.otherShares s share hshare

end EveryKind

/-! ### Lines without a share -/

/-- The line declares nothing but the variable for error codes. -/
def OnlyDeclaresError (line : Text) : Prop :=
  ∃ d list, declareLine? line = some d ∧ readItems d.items = .allVariables list ∧
    ∀ v ∈ list, isErrorVariable v.name

/-- The statement assigns nothing but the variable for error codes, and has no comment. -/
def Statement.OnlySelectsError (statement : Statement) : Prop :=
  ∃ indent modifiers items clause, statement = .select indent modifiers items clause [] ∧
    ∀ item ∈ items, isErrorVariable item.1

/-- The line is an assignment of nothing but the variable for error codes. -/
def IsDroppedStatement (line : Text) : Prop :=
  ∃ statement, Statement.ofLine? line = some statement ∧ statement.OnlySelectsError

/-- **The lines that go without a share.** -/
def Share.IsDropped (p : Profile) (share : Share) : Prop :=
  match share.part with
  | .control => False
  | .ifBegin => isBegin share.source ∧ (splitComment share.source).2 = []
  | .loopBegin => isBegin share.source
  | .endBeforeElse => (end? (Expression.literal p share.source)).isSome
  | .declaration => OnlyDeclaresError (Expression.literal p share.source)
  | .statement => IsDroppedStatement (Expression.literal p share.source)

/-- **A line that is not blank has a share**, unless it is one of those that go without, and all that it
adds shows. -/
def Share.Sound (p : Profile) (share : Share) : Prop :=
  share.source.isBlank = false →
    (∀ l ∈ share.lines, l.text.isBlank = false) ∧
      ((share.lines = [] ∧ share.locals = []) ↔ share.IsDropped p)

/-! ### Comments -/

theorem isBlank_commentFrom (quoted : Bool) : ∀ t : Text,
    commentFrom quoted t = [] ∨ (commentFrom quoted t).isBlank = false
  | [] => .inl rfl
  | c :: cs => by
    rw [commentFrom_cons]
    split_ifs with hquote hdashes
    · exact isBlank_commentFrom (!quoted) cs
    · rw [Bool.and_eq_true, startsWith_dashes] at hdashes
      rw [hdashes.2.1]
      exact .inr rfl
    · exact isBlank_commentFrom quoted cs

theorem isBlank_comment (t : Text) :
    (splitComment t).2 = [] ∨ (splitComment t).2.isBlank = false := by
  rw [splitComment_snd]
  exact isBlank_commentFrom false t

theorem isBlank_append_right (a : Text) {b : Text} (h : b.isBlank = false) :
    Text.isBlank (a ++ b) = false := by
  rw [Text.isBlank_append, h, Bool.and_false]

theorem isBlank_append_left {a : Text} (h : a.isBlank = false) (b : Text) :
    Text.isBlank (a ++ b) = false := by
  rw [Text.isBlank_append, h, Bool.false_and]

theorem sound_ifBegin (h : isBegin line) :
    Share.Sound p { source := line, part := .ifBegin, lines := beginComment line } := by
  intro _
  simp only [Share.IsDropped, h, true_and, and_true]
  unfold beginComment
  rcases isBlank_comment line with hnil | hblank
  · rw [hnil]
    simp
  · split
    · next hnil => simp [hnil]
    · next hne =>
      refine ⟨fun l hl => ?_, iff_of_false (by simp) hne⟩
      rw [mem_singleton.mp hl]
      exact isBlank_append_right _ hblank

/-! ### Statements -/

theorem convertItems_eq_nil_iff : ∀ items : List (Text × Text),
    (convertItems p items).value = [] ↔ ∀ item ∈ items, isErrorVariable item.1
  | [] => by simp [convertItems]
  | (target, value) :: items => by
    rw [convertItems]
    split_ifs with herror
    · rw [convertItems_eq_nil_iff items]
      simp [herror]
    · simp [herror]

/-- What a statement keeps of its line is not blank. -/
def Statement.Visible : Statement → Prop
  | .select _ _ _ _ comment => comment = [] ∨ comment.isBlank = false
  | .continueLoop line => line.isBlank = false
  | _ => True

theorem visible_of_ofLine? (h : Statement.ofLine? line = some statement)
    (hline : line.isBlank = false) : statement.Visible := by
  cases readFrom_of_ofLine? h with
  | @select rest list => exact isBlank_comment list
  | continueLoop => exact hline
  | _ => trivial

theorem isBlank_selectInto (indent modifiers : Text) (items : List (Text × Text)) :
    (selectInto indent modifiers items).isBlank = false := by
  have hword : Text.isBlank "SELECT ".toList = false := by decide
  unfold selectInto
  exact isBlank_append_left (isBlank_append_left (isBlank_append_left (isBlank_append_left
    (isBlank_append_right _ hword) _) _) _) _

/-- **An assignment by `SELECT` is dropped** if it has neither a target that is kept nor a comment, and
shows otherwise. -/
theorem convertSelect_cases {modifiers clause comment : Text} {items : List (Text × Text)}
    (hcomment : comment = [] ∨ comment.isBlank = false) :
    ((convertSelect p indent modifiers items clause comment ahead).value = [] ∧ comment = [] ∧
        ∀ item ∈ items, isErrorVariable item.1) ∨
      ((convertSelect p indent modifiers items clause comment ahead).value.isBlank = false ∧
        ¬(comment = [] ∧ ∀ item ∈ items, isErrorVariable item.1)) := by
  have hitems := convertItems_eq_nil_iff (p := p) items
  simp only [convertSelect, Noted.value_bind]
  rcases hkept : (convertItems p items).value with _ | ⟨⟨target, value⟩, others⟩
  · rw [hkept] at hitems
    rcases hcomment with rfl | hblank
    · exact .inl ⟨rfl, rfl, hitems.mp rfl⟩
    · have hne : comment ≠ [] := by rintro rfl; cases hblank
      refine .inr ⟨?_, fun h => hne h.1⟩
      simp only [Noted.value_pure, List.isEmpty_iff, if_neg hne]
      exact isBlank_append_right _ hblank
  · rw [hkept] at hitems
    refine .inr ⟨?_, fun h => absurd (hitems.mpr h.2) (cons_ne_nil _ _)⟩
    have hinto := isBlank_selectInto indent modifiers ((target, value) :: others)
    have hassign : Text.isBlank " := ".toList = false := by decide
    simp only [Noted.value_bind]
    split_ifs
    · exact isBlank_withComment (isBlank_append_left hinto _)
    · exact isBlank_withComment hinto
    · exact isBlank_withComment (isBlank_append_left (isBlank_append_left
        (isBlank_append_right _ hassign) _) _)
    · exact isBlank_withComment (isBlank_append_left hinto _)

/-- **The conversion of a statement shows**, unless it is dropped. -/
theorem Statement.convert_cases (h : statement.Visible) :
    ((statement.convert p ahead).value = [] ∧ statement.OnlySelectsError) ∨
      ((statement.convert p ahead).value.isBlank = false ∧ ¬statement.OnlySelectsError) := by
  have hother : ∀ {statement : Statement}, (∀ indent modifiers items clause,
      statement ≠ .select indent modifiers items clause []) → ¬statement.OnlySelectsError := by
    rintro statement hne ⟨indent, modifiers, items, clause, rfl, -⟩
    exact hne _ _ _ _ rfl
  cases statement with
  | assign indent target value comment =>
    refine .inr ⟨?_, hother (by simp)⟩
    have hstart : Text.isBlank " :=".toList = false := by decide
    simp only [Statement.convert]
    split_ifs
    · exact isBlank_append_right _ hstart
    · exact isBlank_withComment (isBlank_append_left (isBlank_append_left
        (isBlank_append_right _ hstart) _) _)
  | print indent value comment =>
    refine .inr ⟨?_, hother (by simp)⟩
    have hword : Text.isBlank "RAISE INFO '%', ".toList = false := by decide
    simp only [Statement.convert, Noted.value_bind, Noted.value_pure]
    exact isBlank_withComment (isBlank_append_left (isBlank_append_left
      (isBlank_append_right _ hword) _) _)
  | rowCount indent target =>
    refine .inr ⟨?_, hother (by simp)⟩
    have hword : Text.isBlank " = ROW_COUNT;".toList = false := by decide
    exact isBlank_append_right _ hword
  | select indent modifiers items clause comment =>
    have hiff : (Statement.select indent modifiers items clause comment).OnlySelectsError ↔
        comment = [] ∧ ∀ item ∈ items, isErrorVariable item.1 := by
      constructor
      · rintro ⟨_, _, _, _, heq, hall⟩
        cases heq
        exact ⟨rfl, hall⟩
      · rintro ⟨rfl, hall⟩
        exact ⟨_, _, _, _, rfl, hall⟩
    rw [hiff]
    exact convertSelect_cases h
  | gotoDone indent =>
    refine .inr ⟨?_, hother (by simp)⟩
    have hword : Text.isBlank "Return;".toList = false := by decide
    exact isBlank_append_right _ hword
  | breakLoop indent =>
    refine .inr ⟨?_, hother (by simp)⟩
    have hword : Text.isBlank "Exit;".toList = false := by decide
    exact isBlank_append_right _ hword
  | continueLoop line =>
    exact .inr ⟨isBlank_addTerminator h, hother (by simp)⟩
  | call indent target parameters comment =>
    refine .inr ⟨?_, hother (by simp)⟩
    have hword : Text.isBlank ");".toList = false := by decide
    simp only [Statement.convert, Noted.value_bind, Noted.value_pure]
    exact isBlank_withComment (isBlank_append_right _ hword)

/-- **The conversion of a line shows**, unless it is a statement that is dropped. -/
theorem statement_cases (p : Profile) (ahead : List Text)
    (h : Statement.ofLine? line = some statement) (hline : line.isBlank = false) :
    ((statement.convert p ahead).value = [] ∧ IsDroppedStatement line) ∨
      ((statement.convert p ahead).value.isBlank = false ∧ ¬IsDroppedStatement line) := by
  have hiff : IsDroppedStatement line ↔ statement.OnlySelectsError := by
    rw [IsDroppedStatement, h]
    simp
  rw [hiff]
  exact Statement.convert_cases (visible_of_ofLine? h hline)

theorem not_isDroppedStatement (h : Statement.ofLine? line = none) : ¬IsDroppedStatement line := by
  rintro ⟨statement, hread, -⟩
  rw [h] at hread
  cases hread

/-- The line of a statement, if it is not dropped. -/
theorem sound_value (write : Text → Text) {value : Text} {dropped : Prop}
    (hwrite : ∀ t : Text, t.isBlank = false → (write t).isBlank = false)
    (h : (value = [] ∧ dropped) ∨ (value.isBlank = false ∧ ¬dropped))
    (hlines : lines = if value.isEmpty then [] else [{ text := write value }]) :
    (∀ l ∈ lines, l.text.isBlank = false) ∧ (lines = [] ↔ dropped) := by
  rcases h with ⟨rfl, hdropped⟩ | ⟨hblank, hdropped⟩
  · rw [hlines]
    exact ⟨nofun, iff_of_true rfl hdropped⟩
  · have hne : value.isEmpty = false := by
      cases value with
      | nil => cases hblank
      | cons c t => rfl
    rw [hne] at hlines
    rw [hlines]
    refine ⟨fun l hl => ?_, iff_of_false (by simp) hdropped⟩
    rw [mem_singleton.mp hl]
    exact hwrite value hblank

theorem sound_guardedStatement (hp : p.KeepsText) : Share.Sound p
    { source := line, part := .statement, lines := (guardedStatement p line ahead).lines } := by
  intro hline
  have hliteral := isBlank_literal hp hline
  simp only [Share.IsDropped, and_true]
  cases hread : Statement.ofLine? (Expression.literal p line) with
  | none =>
    refine sound_value addTerminator (fun t => isBlank_addTerminator)
      (.inr ⟨isBlank_convert p hliteral, not_isDroppedStatement hread⟩) ?_
    simp only [guardedStatement, hread, Noted.value_bind]
  | some statement =>
    refine sound_value addTerminator (fun t => isBlank_addTerminator)
      (statement_cases p ahead hread hliteral) ?_
    simp only [guardedStatement, hread]

/-! ### Other lines -/

theorem isBlank_starred (t : Text) : Text.isBlank (String.ofList (' ' :: '*' :: t)).toList = false := by
  rw [String.toList_ofList]
  rfl

theorem isBlank_warning (pending : Pending) : ∀ w ∈ pending.warning, w.isBlank = false := by
  -- a string that starts with a star is not spelled out
  have hlong : ∀ t a b : Text,
      Text.isBlank ((String.ofList (' ' :: '*' :: t)).toList ++ a ++ b) = false :=
    fun t a b => isBlank_append_left (isBlank_append_left (isBlank_starred t) a) b
  rcases pending with ⟨query, table⟩
  cases query with
  | update =>
    simp only [Pending.warning, cons_append, nil_append, forall_mem_cons]
    exact ⟨rfl, hlong _ _ _, isBlank_starred _, hlong _ _ _, isBlank_starred _, isBlank_starred _,
      hlong _ _ _, rfl, rfl, nofun⟩
  | delete =>
    simp only [Pending.warning, cons_append, nil_append, forall_mem_cons]
    exact ⟨rfl, hlong _ _ _, isBlank_starred _, hlong _ _ _, isBlank_starred _, hlong _ _ _,
      isBlank_starred _, isBlank_starred _, isBlank_starred _, hlong _ _ _, rfl, rfl, nofun⟩

/-- A line that is no statement is written, perhaps with a warning. -/
theorem otherLine_lines (s : State) (hline : line.isBlank = false) :
    (otherLine p s line).lines ≠ [] ∧ ∀ l ∈ (otherLine p s line).lines, l.text.isBlank = false := by
  have hblank := isBlank_convert p hline
  unfold otherLine
  generalize convert p line = converted at hblank
  have hone : ∀ l ∈ [({ text := converted.value } : Converted)], l.text.isBlank = false := by
    intro l hl
    rw [mem_singleton.mp hl]
    exact hblank
  dsimp only
  split
  · exact ⟨cons_ne_nil _ _, hone⟩
  · split
    · exact ⟨cons_ne_nil _ _, hone⟩
    · next pending _ =>
      split_ifs
      · refine ⟨cons_ne_nil _ _, forall_mem_cons.mpr ⟨hblank, fun l hl => ?_⟩⟩
        obtain ⟨w, hw, rfl⟩ := mem_map.mp hl
        exact isBlank_append_right _ (isBlank_warning pending w hw)
      · exact ⟨cons_ne_nil _ _, hone⟩

theorem sound_plainLine (hp : p.KeepsText) (s : State) : Share.Sound p
    { source := line, part := .statement,
      lines := (plainLine p s (Expression.literal p line) ahead).lines } := by
  intro hline
  have hliteral := isBlank_literal hp hline
  simp only [Share.IsDropped, and_true]
  cases hread : Statement.ofLine? (Expression.literal p line) with
  | none =>
    obtain ⟨hne, hblank⟩ := otherLine_lines (p := p) s hliteral
    simp only [plainLine, hread]
    exact ⟨hblank, iff_of_false hne (not_isDroppedStatement hread)⟩
  | some statement =>
    refine sound_value id (fun t => id)
      (statement_cases p ahead hread hliteral) ?_
    simp only [plainLine, hread, id]

/-! ### Declarations -/

theorem declareVariables_cases (indent : Text) : ∀ (list : List Variable) (comment : Text),
    let declared := (declareVariables p indent comment list).value
    (∀ t ∈ declared.lines, t.isBlank = false) ∧
      ((declared.lines = [] ∧ declared.locals = []) ↔ ∀ v ∈ list, isErrorVariable v.name)
  | [], _ => by simp [declareVariables]
  | v :: list, comment => by
    rw [declareVariables]
    split_ifs with herror
    · simpa [herror] using declareVariables_cases indent list comment
    · rcases hvalue : v.value with _ | value
      · obtain ⟨hlines, -⟩ := declareVariables_cases indent list comment
        refine ⟨hlines, iff_of_false (by simp) (by simp [herror])⟩
      · obtain ⟨hlines, -⟩ := declareVariables_cases indent list []
        have hassign : Text.isBlank " := ".toList = false := by decide
        refine ⟨forall_mem_cons.mpr ⟨?_, hlines⟩, iff_of_false (by simp) (by simp [herror])⟩
        exact isBlank_withComment (isBlank_append_left (isBlank_append_left
          (isBlank_append_right _ hassign) _) _)

theorem sound_declaration {declared : Declared}
    (h : (declare? p (Expression.literal p line)).value = some declared) : Share.Sound p
    { source := line, part := .declaration, lines := declared.lines.map ({ text := · }),
      locals := declared.locals } := by
  intro _
  unfold declare? at h
  split at h
  · cases h
  · next indent items comment hread =>
    split at h
    · cases h
    · cases h
    · next list hlist =>
      obtain rfl := Option.some.inj h
      obtain ⟨hlines, hiff⟩ := declareVariables_cases (p := p) indent list comment
      have hdropped : OnlyDeclaresError (Expression.literal p line) ↔
          ∀ v ∈ list, isErrorVariable v.name := by
        constructor
        · rintro ⟨d, list', hd, hlist', hall⟩
          rw [hread] at hd
          cases hd
          rw [hlist] at hlist'
          cases hlist'
          exact hall
        · exact fun hall => ⟨_, list, hread, hlist, hall⟩
      simp only [Share.IsDropped, hdropped, map_eq_nil_iff]
      refine ⟨fun l hl => ?_, hiff⟩
      obtain ⟨t, ht, rfl⟩ := mem_map.mp hl
      exact hlines t ht

/-! ### Control flow -/

theorem sound_control {l : Converted} (h : l.text.isBlank = false) :
    Share.Sound p { source, part := .control, lines := [l] } := by
  refine fun _ => ⟨fun l' hl' => ?_, iff_of_false (by simp) not_false⟩
  rw [mem_singleton.mp hl']
  exact h

theorem sound_condition {word : Text} {role : Role} (hword : word.isBlank = false) :
    Share.Sound p { source, part := .control, lines := [⟨role, (condition p line word).value⟩] } := by
  refine sound_control (isBlank_withComment ?_)
  exact isBlank_append_right _ (isBlank_append_right [' '] hword)

theorem sound_elseLine (hp : p.KeepsText) : Share.Sound p
    { source := line, part := .control, lines := (elseLine p line).lines } := by
  intro hline
  have hblank := isBlank_convert p (isBlank_literal hp hline)
  unfold elseLine
  generalize convert p (Expression.literal p line) = converted at hblank
  exact sound_control hblank hline

/-- **Every share is sound.** -/
theorem sound_everyKind (hp : p.KeepsText) : EveryKind p (Share.Sound p) where
  declaration := sound_declaration
  head hword := by
    have hwords : ∀ word ∈ ["Then".toList, "Loop".toList], Text.isBlank word = false := by decide
    exact sound_condition (hwords _ hword)
  ifBegin := sound_ifBegin
  loopBegin hbegin := fun _ => ⟨nofun, iff_of_true ⟨rfl, rfl⟩ hbegin⟩
  guardedLine := sound_guardedStatement hp
  elseHead := sound_elseLine hp
  blockEnd _ hword := by
    have hwords : ∀ word ∈ ["End If;".toList, "End Loop;".toList], Text.isBlank word = false := by decide
    exact sound_control (isBlank_append_left (isBlank_append_right _ (hwords _ hword)) _)
  endBeforeElse hend := by
    refine fun _ => ⟨nofun, iff_of_true ⟨rfl, rfl⟩ ?_⟩
    rw [Share.IsDropped, hend]
    rfl
  plain := sound_plainLine hp _

/-! ### The shares are all that there is -/

/-- Nothing, or the end of an `If` without a block. -/
def IsClosing (inserted : List Converted) : Prop :=
  inserted = [] ∨ ∃ indent, indent.isBlank ∧ inserted = (endIf indent).lines

/-- **The shares account for a conversion** of `source` up to the lines that are `left`: together they
are what has been added, up to the end of an `If` that comes last. -/
structure Accounts (told : List Share) (source : List Text) (lines : List Converted) (locals : List Text)
    (left : List Text) : Prop where
  source : source = told.map Share.source ++ left
  lines : ∃ inserted, lines = told.flatMap Share.lines ++ inserted ∧ IsClosing inserted
  locals : locals = told.flatMap Share.locals

theorem Accounts.nil (h : IsClosing inserted) (left : List Text) :
    Accounts [] left inserted [] left :=
  ⟨rfl, ⟨inserted, rfl, h⟩, rfl⟩

theorem Accounts.cons (share : Share) {source left : List Text}
    {locals : List Text} (h : Accounts told source lines locals left) :
    Accounts (share :: told) (share.source :: source) (share.lines ++ lines) (share.locals ++ locals)
      left := by
  obtain ⟨hsource, ⟨inserted, hlines, hinserted⟩, hlocals⟩ := h
  refine ⟨?_, ⟨inserted, ?_, hinserted⟩, ?_⟩
  · rw [hsource, map_cons, cons_append]
  · rw [hlines, flatMap_cons, append_assoc]
  · rw [hlocals, flatMap_cons]

theorem Accounts.singleton (share : Share) (left : List Text) :
    Accounts [share] (share.source :: left) share.lines share.locals left := by
  have h := (Accounts.nil (.inl rfl) left).cons share
  rwa [append_nil, append_nil] at h

/-- The shares account for what follows an `If` or `Else`. -/
def Guarded.Told (g : Guarded) (ahead : List Text) (told : List Share) : Prop :=
  Accounts told ahead g.lines [] (ahead.drop g.taken)

/-- One line, and then what comes next. -/
theorem Guarded.Told.andThen {done : Guarded} {rest : List Text}
    (hdone : done.taken = 1) (hnext : (next rest).Told rest told) (part : Part) (notes : List Note) :
    (({ notes } : Guarded).andThen (line :: rest) fun ahead => done.andThen ahead next).Told
      (line :: rest) ({ source := line, part, lines := done.lines } :: told) := by
  have htaken : (line :: rest).drop (0 + (1 + (next rest).taken)) = rest.drop (next rest).taken := by
    rw [Nat.zero_add, Nat.add_comm, drop_succ_cons]
  unfold Guarded.Told Guarded.andThen
  simp only [nil_append, drop_zero, hdone, drop_succ_cons, htaken]
  exact Accounts.cons { source := line, part, lines := done.lines } hnext

theorem guarded_told {told : List Text → List Share}
    (hnext : ∀ ahead, (next ahead).Told ahead (told ahead)) (name : Text) (ahead : List Text) :
    (guarded p name ahead next).Told ahead (guardedShares p told ahead) := by
  rcases ahead with _ | ⟨line, rest⟩
  · exact .nil (.inl rfl) []
  · unfold guarded guardedShares
    dsimp only
    split_ifs
    · exact .singleton { source := line, part := .ifBegin, lines := beginComment line } rest
    · exact .andThen rfl (hnext rest) .statement _

theorem endIf_told (hindent : indent.isBlank) (ahead : List Text) :
    (endIf indent).Told ahead [] :=
  .nil (.inr ⟨indent, hindent, rfl⟩) ahead

/-- An `Else` that comes next, with what follows it. -/
theorem elseOr_told (hindent : indent.isBlank) {otherwise : Guarded}
    (h : elseAhead ahead) :
    (elseOr p name indent ahead otherwise).Told ahead (elseShares p ahead) := by
  rcases ahead with _ | ⟨line, rest⟩
  · cases h
  · have helse : isElse line := h
    have hbranch : (elseBranch p name indent rest).Told rest (guardedShares p (fun _ => []) rest) :=
      guarded_told (endIf_told hindent) name rest
    unfold elseOr elseShares
    simp only [helse, if_true]
    exact .andThen rfl hbranch .control _

/-- No `Else` comes next. -/
theorem elseOr_otherwise (p : Profile) (name indent : Text) (otherwise : Guarded)
    (h : elseAhead ahead = false) :
    (elseOr p name indent ahead otherwise).lines = otherwise.lines ∧
      (elseOr p name indent ahead otherwise).taken = otherwise.taken := by
  rcases ahead with _ | ⟨line, rest⟩
  · exact ⟨rfl, rfl⟩
  · have helse : isElse line = false := h
    simp [elseOr, helse]

theorem elseShares_eq_nil (h : elseAhead ahead = false) : elseShares p ahead = [] := by
  rcases ahead with _ | ⟨line, rest⟩
  · rfl
  · have helse : isElse line = false := h
    simp [elseShares, helse]

theorem ifBranch_told (hindent : indent.isBlank) (ahead : List Text) :
    (ifBranch p name indent ahead).Told ahead (guardedShares p (elseShares p) ahead) := by
  refine guarded_told (fun ahead => ?_) name ahead
  cases h : elseAhead ahead with
  | true => exact elseOr_told hindent h
  | false =>
    obtain ⟨hlines, htaken⟩ := elseOr_otherwise p name indent (endIf indent) h
    rw [Guarded.Told, hlines, htaken, elseShares_eq_nil h]
    exact endIf_told hindent ahead

/-- The shares account for a call. -/
def Outcome.Told (o : Outcome) (line : Text) (ahead : List Text) (told : List Share) : Prop :=
  Accounts told (line :: ahead) o.lines o.locals (ahead.drop o.taken)

theorem Outcome.Told.addNotes {o : Outcome} (h : o.Told line ahead told)
    (notes : List Note) : Outcome.Told { o with notes } line ahead told := h

theorem ifLine_told (s : State) (source : Text) (ahead : List Text) :
    (ifLine p name s line ahead).Told source ahead
      ({ source, part := .control, lines := [⟨.ifHead, (condition p line "Then".toList).value⟩] } ::
        guardedShares p (elseShares p) ahead) :=
  Accounts.cons
    { source, part := .control, lines := [⟨.ifHead, (condition p line "Then".toList).value⟩] }
    (ifBranch_told (all_takeWhile ..) ahead)

theorem whileLine_told (s : State) (source : Text) (ahead : List Text) :
    (whileLine p s line ahead).Told source ahead
      ({ source, part := .control, lines := [⟨.loopHead, (condition p line "Loop".toList).value⟩] } ::
        loopShares ahead) := by
  have htaken : Accounts (loopShares ahead) ahead [] []
      (ahead.drop (whileLine p s line ahead).taken) := by
    rcases ahead with _ | ⟨next, rest⟩
    · exact .nil (.inl rfl) []
    · unfold loopShares whileLine
      dsimp only
      split_ifs
      · exact .singleton { source := next, part := .loopBegin } rest
      · exact .nil (.inl rfl) _
  exact htaken.cons
    { source, part := .control, lines := [⟨.loopHead, (condition p line "Loop".toList).value⟩] }

theorem endLine_told (s : State) (block : Block) (source extra : Text) (ahead : List Text) :
    (endLine p name s block line extra ahead).Told source ahead
      (endShares p source line extra ahead block) := by
  cases block with
  | whileLoop => exact .singleton _ ahead
  | ifBlock =>
    unfold endLine endShares
    cases h : elseAhead ahead with
    | true => exact Accounts.cons { source, part := .endBeforeElse } (elseOr_told (all_takeWhile ..) h)
    | false =>
      obtain ⟨hlines, htaken⟩ := elseOr_otherwise p name line.indent
        { lines := [⟨.ifEnd, line.indent ++ "End If;".toList ++ extra⟩] } h
      simp only [Outcome.Told, Guarded.outcome, hlines, htaken]
      exact .singleton _ ahead

theorem plainLine_told (s : State) (source : Text) (ahead : List Text) :
    (plainLine p s line ahead).Told source ahead
      [{ source, part := .statement, lines := (plainLine p s line ahead).lines }] := by
  have hrest : (plainLine p s line ahead).locals = [] ∧ (plainLine p s line ahead).taken = 0 := by
    unfold plainLine
    split
    · exact ⟨rfl, rfl⟩
    · unfold otherLine
      dsimp only
      split
      · exact ⟨rfl, rfl⟩
      · split
        · exact ⟨rfl, rfl⟩
        · split_ifs <;> exact ⟨rfl, rfl⟩
  rw [Outcome.Told, hrest.1, hrest.2]
  exact .singleton _ ahead

theorem undeclaredLine_told (s : State) (source : Text) (ahead : List Text) :
    (undeclaredLine p name s line ahead).Told source ahead
      (undeclaredShares p s source line ahead) := by
  have hother : Outcome.Told (if isIf line then ifLine p name s line ahead
      else if isWhile line then whileLine p s line ahead
      else
        let outcome := plainLine p s line ahead
        { outcome with notes := elseIfNotes line ++ outcome.notes }) source ahead
      (otherShares p s source line ahead) := by
    unfold otherShares
    split_ifs
    · exact ifLine_told s source ahead
    · exact whileLine_told s source ahead
    · exact (plainLine_told s source ahead).addNotes _
  unfold undeclaredLine undeclaredShares
  cases hblocks : s.blocks with
  | nil => exact hother
  | cons block blocks =>
    cases hend : end? line with
    | none => exact hother
    | some extra => exact endLine_told { s with blocks } block source extra ahead

/-- **The shares account for a call** that is given a line that is not blank. -/
theorem step_told (name : Text) (s : State) (hline : line.isBlank = false) (ahead : List Text) :
    (step p name s line ahead).Told line ahead (shares p s line ahead) := by
  unfold step shares
  rw [if_neg (by rw [hline]; exact Bool.false_ne_true)]
  dsimp only
  split
  · next declared notes hdeclare =>
    rw [hdeclare]
    exact .singleton _ ahead
  · next notes hdeclare =>
    rw [hdeclare]
    exact (undeclaredLine_told s line ahead).addNotes _

/-! ### What the body gains -/

theorem exists_appendLine (body : List Text) (line : Text) :
    ∃ extra, appendLine body line = body ++ extra := by
  unfold appendLine
  dsimp only
  split_ifs
  · split
    · exact ⟨[], (append_nil _).symm⟩
    · split_ifs
      · exact ⟨[], (append_nil _).symm⟩
      · exact ⟨[[]], rfl⟩
  · exact ⟨[tidy line], rfl⟩

/-- **What is in a body stays there.** -/
theorem exists_appendLines : ∀ lines body : List Text, ∃ extra, appendLines body lines = body ++ extra
  | [], body => ⟨[], (append_nil body).symm⟩
  | line :: lines, body => by
    obtain ⟨a, ha⟩ := exists_appendLine body line
    obtain ⟨b, hb⟩ := exists_appendLines lines (appendLine body line)
    refine ⟨a ++ b, ?_⟩
    rw [appendLines, foldl_cons, ← appendLines, hb, ha, append_assoc]

/-- **What a source line that is not blank adds to a body**: the tidy forms of its lines, none of them
blank, and nothing at all, to neither the body nor the variables, just if it is dropped. -/
def Share.Yields (p : Profile) (share : Share) (added : List Text) : Prop :=
  share.source.isBlank = false →
    added = (texts share.lines).map tidy ∧ (∀ t ∈ added, t.isBlank = false) ∧
      ((added = [] ∧ share.locals = []) ↔ share.IsDropped p)

theorem Share.Sound.exists_yields {share : Share} (h : share.Sound p) (body : List Text) :
    ∃ added, share.Yields p added ∧ appendLines body (texts share.lines) = body ++ added := by
  cases hsource : share.source.isBlank with
  | true =>
    obtain ⟨added, hadded⟩ := exists_appendLines (texts share.lines) body
    exact ⟨added, fun h => absurd (hsource.symm.trans h) Bool.noConfusion, hadded⟩
  | false =>
    obtain ⟨hlines, hiff⟩ := h hsource
    have hblank : ∀ t ∈ texts share.lines, t.isBlank = false := by
      intro t ht
      obtain ⟨l, hl, rfl⟩ := mem_map.mp ht
      exact hlines l hl
    refine ⟨_, fun _ => ⟨rfl, fun t ht => ?_, ?_⟩, appendLines_of_not_blank hblank body⟩
    · obtain ⟨u, hu, rfl⟩ := mem_map.mp ht
      rw [tidy_isBlank]
      exact hblank u hu
    · rw [map_eq_nil_iff, texts, map_eq_nil_iff]
      exact hiff

theorem exists_added : ∀ {told : List Share}, (∀ share ∈ told, share.Sound p) → ∀ body : List Text,
    ∃ added, List.Forall₂ (Share.Yields p) told added ∧
      appendLines body (texts (told.flatMap Share.lines)) = body ++ added.flatten
  | [], _, body => ⟨[], .nil, (append_nil body).symm⟩
  | share :: told, h, body => by
    obtain ⟨hshare, htold⟩ := forall_mem_cons.mp h
    obtain ⟨first, hfirst, hbody⟩ := hshare.exists_yields body
    obtain ⟨added, hadded, hbodies⟩ := exists_added htold (body ++ first)
    refine ⟨first :: added, .cons hfirst hadded, ?_⟩
    rw [flatMap_cons, texts_append, appendLines_append, hbody, hbodies, flatten_cons,
      append_assoc]

theorem exists_inserted (h : IsClosing inserted) (body : List Text) :
    ∃ extra, appendLines body (texts inserted) = body ++ extra ∧
      (extra = [] ∨ ∃ indent, extra = [tidy (indent ++ "End If;".toList)]) := by
  rcases h with rfl | ⟨indent, -, rfl⟩
  · exact ⟨[], (append_nil body).symm, .inl rfl⟩
  · have hword : Text.isBlank "End If;".toList = false := by decide
    have htexts : texts (endIf indent).lines = [indent ++ "End If;".toList] := rfl
    have hblank : ∀ t ∈ [indent ++ "End If;".toList], Text.isBlank t = false := by
      intro t ht
      rw [mem_singleton.mp ht]
      exact isBlank_append_right indent hword
    refine ⟨[tidy (indent ++ "End If;".toList)], ?_, .inr ⟨indent, rfl⟩⟩
    rw [htexts, appendLines_of_not_blank hblank, map_singleton]

/-- **No line is lost.** A call is given a line that is not blank, whatever state the conversion is in
and whatever comes after the line. The lines that it takes are those of the `shares`, and what it adds,
to the body and to the local variables, is what they yield, line by line and in order, up to the
`End If` of an `If` without a block, which comes last. What was there before stays as it was. A line
that is not blank yields at least one line or variable, except exactly for the lines that are dropped
(`Share.IsDropped`). -/
theorem no_line_lost (hp : p.KeepsText) (name : Text) (f : Feed) (hf : f.ahead = line :: ahead)
    (hline : line.isBlank = false) :
    ∃ added inserted,
      f.ahead = (shares p f.state line ahead).map Share.source ++ (f.next p name).ahead ∧
        List.Forall₂ (Share.Yields p) (shares p f.state line ahead) added ∧
        (f.next p name).body = f.body ++ added.flatten ++ inserted ∧
        (inserted = [] ∨ ∃ indent, inserted = [tidy (indent ++ "End If;".toList)]) ∧
        (f.next p name).locals = f.locals ++ (shares p f.state line ahead).flatMap Share.locals := by
  have hsound := (sound_everyKind hp).shares f.state line ahead
  have htold := step_told (p := p) name f.state hline ahead
  rw [Feed.next_cons hf, hf]
  generalize step p name f.state line ahead = o at htold ⊢
  generalize shares p f.state line ahead = told at hsound htold ⊢
  obtain ⟨hsource, ⟨closing, hlines, hclosing⟩, hlocals⟩ := htold
  obtain ⟨added, hadded, hbody⟩ := exists_added hsound f.body
  obtain ⟨inserted, hinserted, hform⟩ := exists_inserted hclosing (f.body ++ added.flatten)
  refine ⟨added, inserted, hsource, hadded, ?_, hform, ?_⟩
  · rw [Feed.after, hlines, texts_append, appendLines_append, hbody, hinserted]
  · rw [Feed.after, hlocals]

theorem no_line_lost_guarded :
    let f : Feed :=
      { ahead := ["If @a = 1", "    Select @myError = @@error", "Else", "Begin -- otherwise",
          "    Print 2"].map String.toList }
    let told := shares .standard f.state "If @a = 1".toList f.ahead.tail
    (Profile.standard.KeepsText ∧ Text.isBlank "If @a = 1".toList = false) ∧
      told.map Share.part = [.control, .statement, .control, .ifBegin] ∧
      ∃ added inserted,
        f.ahead = told.map Share.source ++ (f.next .standard []).ahead ∧
          List.Forall₂ (Share.Yields .standard) told added ∧
          (f.next .standard []).body = f.body ++ added.flatten ++ inserted ∧
          (inserted = [] ∨ ∃ indent, inserted = [tidy (indent ++ "End If;".toList)]) ∧
          (f.next .standard []).locals = f.locals ++ told.flatMap Share.locals := by
  intro f told
  have hkeeps : Profile.standard.KeepsText := by
    unfold Profile.KeepsText
    decide +kernel
  have hline : Text.isBlank "If @a = 1".toList = false := by decide
  have hparts : told.map Share.part = [.control, .statement, .control, .ifBegin] := by decide +kernel
  have hahead : f.ahead = "If @a = 1".toList :: f.ahead.tail := rfl
  exact ⟨⟨hkeeps, hline⟩, hparts, no_line_lost hkeeps [] f hahead hline⟩

/-- A comment on an `End` that goes on with `Else` is lost: three lines are taken, of which only the
`Begin` says nothing, and there is one line for them. -/
example :
    let f : Feed :=
      { state := { blocks := [.ifBlock] },
        ahead := ["End -- first part", "Else", "Begin", "    Print 2"].map String.toList }
    (f.next .standard []).ahead = ["    Print 2".toList] ∧
      (f.next .standard []).body = ["Else".toList] ∧ (f.next .standard []).locals = [] := by
  decide +kernel

end SqlRoutine.Body

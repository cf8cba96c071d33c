import Mathlib.Tactic.SplitIfs
import SqlRoutine.Body.Step

/-! # What the conversion of a body notes

Every note of `step` is of one of three kinds (`bodyNotes_step`): a look past the last line, a warning, or
the mention of a `Convert` that was left over. -/

namespace SqlRoutine.Body

/-- A note that the conversion of a body may make. -/
inductive BodyNote : Note → Prop where
  | ranDry : BodyNote .ranDry
  | warning (message : Text) : BodyNote (.log .warning message)
  | leftOver (t : Text) :
    BodyNote (.log .debug ("Check this code (Convert not translated): ".toList ++ t))

/-- All notes are of these kinds. -/
def BodyNotes (notes : List Note) : Prop := ∀ n ∈ notes, BodyNote n

@[simp]
theorem bodyNotes_nil : BodyNotes [] := nofun

@[simp]
theorem bodyNotes_append {a b : List Note} : BodyNotes (a ++ b) ↔ BodyNotes a ∧ BodyNotes b :=
  List.forall_mem_append

theorem bodyNotes_warning (message : Text) : BodyNotes [.log .warning message] := by
  intro n hn
  rw [List.mem_singleton.mp hn]
  exact .warning message

@[simp]
theorem bodyNotes_lookAhead (count : Nat) (ahead : List Text) :
    BodyNotes (Note.lookAhead count ahead) := by
  unfold Note.lookAhead
  split_ifs
  · intro n hn
    rw [List.mem_singleton.mp hn]
    exact .ranDry
  · exact bodyNotes_nil

variable (p : Profile)

/-! ### Expressions and statements -/

@[simp]
theorem bodyNotes_convert (t : Text) : BodyNotes (Expression.convert p t).notes := by
  unfold Expression.convert Expression.calls
  simp only [Noted.notes_bind, Noted.notes_pure, List.append_nil]
  split_ifs
  · intro n hn
    rw [List.mem_singleton.mp hn]
    exact .leftOver _
  · exact bodyNotes_nil

theorem bodyNotes_convertItems : ∀ items, BodyNotes (convertItems p items).notes
  | [] => bodyNotes_nil
  | (target, value) :: items => by
    unfold convertItems
    split_ifs
    · exact bodyNotes_convertItems items
    · simp [bodyNotes_convertItems items]

theorem bodyNotes_abandonedNotes (line : Text) : BodyNotes (abandonedNotes p line) := by
  unfold abandonedNotes
  split
  · exact bodyNotes_convertItems p _
  · exact bodyNotes_nil

theorem bodyNotes_convertSelect (indent modifiers : Text) (items : List (Text × Text))
    (clause comment : Text) (ahead : List Text) :
    BodyNotes (convertSelect p indent modifiers items clause comment ahead).notes := by
  unfold convertSelect
  rw [Noted.notes_bind, bodyNotes_append]
  refine ⟨bodyNotes_convertItems p items, ?_⟩
  split
  · exact bodyNotes_nil
  · rw [Noted.notes_bind, bodyNotes_append]
    refine ⟨bodyNotes_lookAhead 1 ahead, ?_⟩
    split_ifs <;> simp

theorem bodyNotes_statement (statement : Statement) (ahead : List Text) :
    BodyNotes (statement.convert p ahead).notes := by
  cases statement with
  | select indent modifiers items clause comment => exact bodyNotes_convertSelect p _ _ _ _ _ ahead
  | assign indent target value comment =>
    unfold Statement.convert
    dsimp only
    split_ifs <;> simp
  | _ => simp [Statement.convert, convertParameters]

theorem bodyNotes_declareVariables (indent : Text) :
    ∀ (vs : List Variable) (comment : Text), BodyNotes (declareVariables p indent comment vs).notes
  | [], _ => bodyNotes_nil
  | v :: vs, comment => by
    unfold declareVariables
    dsimp only
    split_ifs
    · exact bodyNotes_declareVariables indent vs comment
    · split <;> simp [bodyNotes_declareVariables indent vs]

theorem bodyNotes_declare? (line : Text) : BodyNotes (declare? p line).notes := by
  unfold declare?
  split
  · exact bodyNotes_nil
  · split
    · exact bodyNotes_nil
    · exact bodyNotes_warning _
    · simp [bodyNotes_declareVariables]

/-! ### Control flow -/

variable (name : Text)

theorem bodyNotes_elseIfNotes (line : Text) : BodyNotes (elseIfNotes line) := by
  unfold elseIfNotes
  split_ifs
  · exact bodyNotes_warning _
  · exact bodyNotes_nil

theorem bodyNotes_guardedStatement (line : Text) (ahead : List Text) :
    BodyNotes (guardedStatement p line ahead).notes := by
  unfold guardedStatement
  dsimp only
  split
  · exact bodyNotes_statement p _ ahead
  · simp [Noted.tell, bodyNotes_abandonedNotes]

theorem bodyNotes_andThen {done : Guarded} {ahead : List Text} {next : List Text → Guarded}
    (hdone : BodyNotes done.notes) (hnext : ∀ ahead, BodyNotes (next ahead).notes) :
    BodyNotes (done.andThen ahead next).notes :=
  bodyNotes_append.mpr ⟨hdone, hnext _⟩

theorem bodyNotes_guarded (ahead : List Text) {next : List Text → Guarded}
    (hnext : ∀ ahead, BodyNotes (next ahead).notes) :
    BodyNotes (guarded p name ahead next).notes := by
  unfold guarded
  dsimp only
  split
  · exact bodyNotes_append.mpr ⟨bodyNotes_lookAhead _ _, bodyNotes_warning _⟩
  · split_ifs
    · exact bodyNotes_lookAhead _ _
    · exact bodyNotes_andThen (bodyNotes_lookAhead _ _) fun _ =>
        bodyNotes_andThen (bodyNotes_guardedStatement p _ _) hnext

theorem bodyNotes_elseOr (indent : Text) (ahead : List Text) {otherwise : Guarded}
    (h : BodyNotes otherwise.notes) : BodyNotes (elseOr p name indent ahead otherwise).notes := by
  have hbranch : ∀ ahead, BodyNotes (elseBranch p name indent ahead).notes := fun ahead =>
    bodyNotes_guarded p name ahead fun _ => bodyNotes_nil
  have hother : BodyNotes (Note.lookAhead 1 ahead ++ otherwise.notes) :=
    bodyNotes_append.mpr ⟨bodyNotes_lookAhead _ _, h⟩
  unfold elseOr
  cases ahead with
  | nil => exact hother
  | cons line rest =>
    dsimp only
    split_ifs
    · have hline : BodyNotes (elseLine p line).notes :=
        bodyNotes_append.mpr ⟨bodyNotes_elseIfNotes line, bodyNotes_convert p _⟩
      refine bodyNotes_andThen ?_ fun _ => bodyNotes_andThen hline hbranch
      exact bodyNotes_lookAhead 1 (line :: rest)
    · exact hother

theorem bodyNotes_condition (line word : Text) : BodyNotes (condition p line word).notes := by
  simp [condition]

theorem bodyNotes_ifLine (s : State) (line : Text) (ahead : List Text) :
    BodyNotes (ifLine p name s line ahead).notes :=
  bodyNotes_append.mpr ⟨bodyNotes_condition p line _, bodyNotes_guarded p name ahead fun ahead =>
    bodyNotes_elseOr p name _ ahead bodyNotes_nil⟩

theorem bodyNotes_whileLine (s : State) (line : Text) (ahead : List Text) :
    BodyNotes (whileLine p s line ahead).notes :=
  bodyNotes_append.mpr ⟨bodyNotes_condition p line _, bodyNotes_lookAhead _ _⟩

theorem bodyNotes_endLine (s : State) (block : Block) (line extra : Text) (ahead : List Text) :
    BodyNotes (endLine p name s block line extra ahead).notes := by
  cases block with
  | whileLoop => exact bodyNotes_nil
  | ifBlock => exact bodyNotes_elseOr p name _ ahead bodyNotes_nil

/-! ### Any line -/

theorem bodyNotes_otherLine (s : State) (line : Text) : BodyNotes (otherLine p s line).notes := by
  unfold otherLine
  dsimp only
  split
  · exact bodyNotes_convert p line
  · split
    · exact bodyNotes_convert p line
    · split_ifs
      · exact bodyNotes_append.mpr ⟨bodyNotes_convert p line, bodyNotes_warning _⟩
      · exact bodyNotes_convert p line

theorem bodyNotes_plainLine (s : State) (line : Text) (ahead : List Text) :
    BodyNotes (plainLine p s line ahead).notes := by
  unfold plainLine
  split
  · exact bodyNotes_statement p _ ahead
  · exact bodyNotes_append.mpr ⟨bodyNotes_abandonedNotes p line, bodyNotes_otherLine p s line⟩

theorem bodyNotes_undeclaredLine (s : State) (line : Text) (ahead : List Text) :
    BodyNotes (undeclaredLine p name s line ahead).notes := by
  unfold undeclaredLine
  split
  · exact bodyNotes_endLine p name _ _ _ _ _
  · split_ifs
    · exact bodyNotes_ifLine p name s line ahead
    · exact bodyNotes_whileLine p s line ahead
    · exact bodyNotes_append.mpr ⟨bodyNotes_elseIfNotes line, bodyNotes_plainLine p s line ahead⟩

/-- **Every note on a line of a body is of one of the three kinds.** -/
theorem bodyNotes_step (s : State) (line : Text) (ahead : List Text) :
    BodyNotes (step p name s line ahead).notes := by
  unfold step
  split_ifs
  · exact bodyNotes_nil
  · have hdeclare := bodyNotes_declare? p (Expression.literal p line)
    dsimp only
    split
    · rename_i h
      rw [h] at hdeclare
      exact hdeclare
    · rename_i h
      rw [h] at hdeclare
      exact bodyNotes_append.mpr ⟨hdeclare, bodyNotes_undeclaredLine p name s _ ahead⟩

end SqlRoutine.Body

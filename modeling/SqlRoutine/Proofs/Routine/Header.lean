import Mathlib.Tactic.SplitIfs
import SqlRoutine.Routine.Header

/-! # What a line of the header may change

A line of the header adds to the comment block and the arguments, or sets the type that is returned.
**What the routine is and what its body holds stays as it is** (`step_keeps`). -/

namespace SqlRoutine

namespace Header

/-- A note that a header may make. -/
inductive HeaderNote : Note → Prop where
  | ranDry : HeaderNote .ranDry
  | unnamed (t : Text) :
    HeaderNote (.log .debug ("Argument without a recognizable name: ".toList ++ t))

/-- All notes are of these kinds. -/
def HeaderNotes (notes : List Note) : Prop := ∀ n ∈ notes, HeaderNote n

theorem headerNotes_nil : HeaderNotes [] := nofun

theorem headerNotes_lookAhead (count : Nat) (ahead : List Text) :
    HeaderNotes (Note.lookAhead count ahead) := by
  unfold Note.lookAhead
  split_ifs
  · intro n hn
    rw [List.mem_singleton.mp hn]
    exact .ranDry
  · exact headerNotes_nil

/-- The definitions are of the same routine, with the same body so far. -/
structure SameRoutine (d d' : Definition) : Prop where
  name : d'.name = d.name
  sourceName : d'.sourceName = d.sourceName
  kind : d'.kind = d.kind
  skip : d'.skip = d.skip
  localVariables : d'.localVariables = d.localVariables
  body : d'.body = d.body

theorem SameRoutine.refl (d : Definition) : SameRoutine d d := ⟨rfl, rfl, rfl, rfl, rfl, rfl⟩

theorem SameRoutine.trans {d d' d'' : Definition} (h : SameRoutine d d') (h' : SameRoutine d' d'') :
    SameRoutine d d'' :=
  ⟨h'.name.trans h.name, h'.sourceName.trans h.sourceName, h'.kind.trans h.kind, h'.skip.trans h.skip,
    h'.localVariables.trans h.localVariables, h'.body.trans h.body⟩

/-- What comes of a line is about the same routine, with notes of a header. -/
structure Outcome.Keeps (d : Definition) (o : Outcome) : Prop where
  routine : SameRoutine d o.definition
  notes : HeaderNotes o.notes

variable (p : Profile) (d : Definition)

theorem addComment_same (line : Text) : SameRoutine d (addComment d line) :=
  ⟨rfl, rfl, rfl, rfl, rfl, rfl⟩

theorem closeDate_same (today : Date) (dated : Bool) : SameRoutine d (closeDate today dated d) := by
  cases dated with
  | false => exact .refl d
  | true => exact addComment_same d _

theorem addArgument_keeps (line : Text) :
    SameRoutine d (addArgument p d line).value ∧ HeaderNotes (addArgument p d line).notes := by
  unfold addArgument
  dsimp only
  by_cases hcode : (Code.splitComment line.trim).1.isEmpty
  · rw [if_pos hcode]
    exact ⟨.refl d, headerNotes_nil⟩
  · rw [if_neg hcode]
    refine ⟨⟨rfl, rfl, rfl, rfl, rfl, rfl⟩, ?_⟩
    dsimp only
    split
    · exact headerNotes_nil
    · intro n hn
      rw [List.mem_singleton.mp hn]
      exact .unnamed _

theorem setReturnType?_keeps {line : Text} {ahead : List Text} {d' : Definition} {taken : Nat}
    {notes : List Note} (h : setReturnType? p d line ahead = some (d', taken, notes)) :
    SameRoutine d d' ∧ HeaderNotes notes := by
  unfold setReturnType? at h
  split_ifs at h with hdone
  obtain ⟨clause, -, hresult⟩ := Option.map_eq_some_iff.mp h
  dsimp only at hresult
  split_ifs at hresult
  · cases hresult
    exact ⟨⟨rfl, rfl, rfl, rfl, rfl, rfl⟩, headerNotes_lookAhead 1 ahead⟩
  · cases hresult
    exact ⟨⟨rfl, rfl, rfl, rfl, rfl, rfl⟩, headerNotes_nil⟩

theorem afterArguments_keeps (s : State) (line : Text) (ahead : List Text) :
    (afterArguments p s d line ahead).Keeps d := by
  unfold afterArguments
  split
  · rename_i h
    exact ⟨(setReturnType?_keeps p d h).1, (setReturnType?_keeps p d h).2⟩
  · split_ifs
    · exact ⟨.refl d, headerNotes_nil⟩
    · exact ⟨.refl d, headerNotes_nil⟩

theorem argumentLine_keeps (s : State) (bare : Bool) (line : Text) (ahead : List Text) :
    (argumentLine p s bare d line ahead).Keeps d := by
  unfold argumentLine
  dsimp only
  split_ifs
  · exact afterArguments_keeps p d _ line ahead
  split
  · split_ifs
    · exact ⟨.refl d, headerNotes_nil⟩
    · split
      · rename_i h
        exact ⟨(setReturnType?_keeps p d h).1, (setReturnType?_keeps p d h).2⟩
      · exact ⟨.refl d, headerNotes_nil⟩
  · split
    · rename_i h
      exact ⟨(setReturnType?_keeps p d h).1, (setReturnType?_keeps p d h).2⟩
    · exact ⟨(addArgument_keeps p d line).1, (addArgument_keeps p d line).2⟩

theorem beforeArguments_keeps (s : State) (line : Text) (ahead : List Text) :
    (beforeArguments p s d line ahead).Keeps d := by
  unfold beforeArguments
  split
  · exact ⟨.refl d, headerNotes_nil⟩
  · exact ⟨(addArgument_keeps p d _).1, (addArgument_keeps p d _).2⟩
  · exact ⟨(addArgument_keeps p d line).1, (addArgument_keeps p d line).2⟩
  · exact afterArguments_keeps p d s line ahead

theorem outsideComment_keeps (s : State) (line : Text) (ahead : List Text) :
    (outsideComment p s d line ahead).Keeps d := by
  unfold outsideComment
  split
  · exact beforeArguments_keeps p d s line ahead
  · exact argumentLine_keeps p d s _ line ahead
  · exact afterArguments_keeps p d s line ahead

theorem commentLine_keeps (today : Date) (s : State) (dated : Bool) (line : Text)
    (ahead : List Text) : (commentLine today s dated d line ahead).Keeps d := by
  have hnotes : HeaderNotes (if isParametersHeading line then Note.lookAhead 1 ahead else []) := by
    split_ifs
    · exact headerNotes_lookAhead 1 ahead
    · exact headerNotes_nil
  unfold commentLine
  dsimp only
  generalize (if isParametersHeading line then Note.lookAhead 1 ahead else []) = notes at hnotes ⊢
  by_cases hboilerplate : isBoilerplate line
  · rw [if_pos hboilerplate]
    exact ⟨.refl d, headerNotes_lookAhead 1 ahead⟩
  rw [if_neg hboilerplate]
  split_ifs
  · exact ⟨.refl d, hnotes⟩
  · exact ⟨(closeDate_same d today dated).trans (addComment_same _ _), hnotes⟩
  · split
    · exact ⟨addComment_same d _, hnotes⟩
    · exact ⟨addComment_same d _, hnotes⟩

/-- **A line of the header changes neither what the routine is nor its body.** -/
theorem step_keeps (today : Date) (s : State) (line : Text) (ahead : List Text) :
    (step p today s d line ahead).Keeps d := by
  unfold step
  by_cases hbody : s.inBody
  · rw [if_pos hbody]
    exact ⟨.refl d, headerNotes_nil⟩
  rw [if_neg hbody]
  cases s.comment with
  | inside dated =>
    dsimp only
    split_ifs
    · exact ⟨(closeDate_same d today dated).trans (addComment_same _ _), headerNotes_nil⟩
    · exact commentLine_keeps d today s dated line ahead
  | awaited =>
    dsimp only
    split_ifs
    · exact ⟨addComment_same d _, headerNotes_nil⟩
    · exact outsideComment_keeps p d s line ahead
  | finished => exact outsideComment_keeps p d s line ahead

end Header

end SqlRoutine

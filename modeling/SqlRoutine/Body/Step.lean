import SqlRoutine.Body.SelfJoin
import SqlRoutine.Body.Statement

/-! # The conversion of a body, line by line

`step` converts one source line. Its result says what is added to the definition and how many of the
lines ahead were taken along: a `Begin`, the statement after an `If`, an `Else`. A stack holds the
blocks that are open, so that an `End` closes the right kind of block.

An `If` without `Begin` guards a single statement; its `End If` is written at once. -/

namespace SqlRoutine.Body

/-- The kinds of block. -/
inductive Block where
  | ifBlock
  | whileLoop
  deriving DecidableEq, Repr

/-- Where the conversion of a body stands. -/
structure State where
  blocks : List Block := []
  pending : Option Pending := none
  deriving DecidableEq, Repr

/-- What comes of one source line. -/
structure Outcome where
  state : State
  lines : List Converted := []
  locals : List Text := []
  /-- How many upcoming lines were taken as well. -/
  taken : Nat := 0
  notes : List Note := []

/-! ### Guarded statements -/

/-- What comes of the lines after an `If` or `Else`. -/
structure Guarded where
  lines : List Converted := []
  taken : Nat := 0
  notes : List Note := []
  opened : Bool := false

/-- The line for the comment on a `Begin`, if there is one. -/
def beginComment (line : Text) : List Converted :=
  match (Code.splitComment line).2 with
  | [] => []
  | comment => [{ text := line.indent ++ comment }]

/-- What has been read, and after it what comes of the lines that are left. -/
def Guarded.andThen (done : Guarded) (ahead : List Text) (next : List Text → Guarded) : Guarded :=
  let more := next (ahead.drop done.taken)
  ⟨done.lines ++ more.lines, done.taken + more.taken, done.notes ++ more.notes, more.opened⟩

/-- The warning about an `If` without a statement. -/
def missingStatement (name : Text) : Note :=
  .log .warning ("Missing statement at the end of an If block in ".toList ++ name)

/-- The `End If` that is put in after a single statement. -/
def endIf (indent : Text) : Guarded := { lines := [⟨.ifEnd, indent ++ "End If;".toList⟩] }

/-- The conversion of a single guarded statement; one that is not known is converted like an
expression. -/
def guardedStatement (p : Profile) (line : Text) (ahead : List Text) : Guarded :=
  let line := Expression.literal p line
  let converted := match Statement.ofLine? line with
    | some statement => statement.convert p ahead
    | none => Noted.tell (abandonedNotes p line) >>= fun _ => Expression.convert p line
  { lines := if converted.value.isEmpty then [] else [{ text := Code.addTerminator converted.value }]
    taken := 1
    notes := converted.notes }

/-- **What follows an `If` or `Else`**: a block, or a single statement and then `next`. -/
def guarded (p : Profile) (name : Text) (ahead : List Text) (next : List Text → Guarded) : Guarded :=
  let notes := Note.lookAhead 3 ahead
  match ahead with
  | [] => { notes := notes ++ [missingStatement name] }
  | line :: rest =>
    if isBegin line then { lines := beginComment line, taken := 1, notes, opened := true }
    else
      ({ notes } : Guarded).andThen ahead fun ahead =>
        (guardedStatement p line rest).andThen ahead next

/-- The warning about an `Else If`. -/
def elseIfNotes (line : Text) : List Note :=
  if isElseIf line then
    [.log .warning ("Else If is not supported; convert manually to ElsIf: ".toList ++ line.trim)]
  else []

/-- An `Else` line, which is converted like an expression. -/
def elseLine (p : Profile) (line : Text) : Guarded :=
  let converted := Expression.convert p (Expression.literal p line)
  { lines := [{ text := converted.value }], taken := 1, notes := elseIfNotes line ++ converted.notes }

/-- **What follows an `Else`.** -/
def elseBranch (p : Profile) (name indent : Text) (ahead : List Text) : Guarded :=
  guarded p name ahead fun _ => endIf indent

/-- **An `Else` that may come next**, or else `otherwise`. -/
def elseOr (p : Profile) (name indent : Text) (ahead : List Text) (otherwise : Guarded) : Guarded :=
  let notes := Note.lookAhead 1 ahead
  match ahead with
  | line :: _ =>
    if isElse line then
      ({ notes } : Guarded).andThen ahead fun ahead =>
        (elseLine p line).andThen ahead (elseBranch p name indent)
    else { otherwise with notes := notes ++ otherwise.notes }
  | [] => { otherwise with notes := notes ++ otherwise.notes }

/-- **What follows an `If`.** -/
def ifBranch (p : Profile) (name indent : Text) (ahead : List Text) : Guarded :=
  guarded p name ahead fun ahead => elseOr p name indent ahead (endIf indent)

/-! ### Control flow -/

/-- A line with a condition, with the word behind it and its comment last. -/
def condition (p : Profile) (line word : Text) : Noted Text := do
  let (code, comment) := Code.splitComment line
  let condition ← Expression.convert p code
  return Code.withComment (condition ++ ' ' :: word) comment

/-- The outcome of a guarded part, which may have opened a block. -/
def Guarded.outcome (s : State) (g : Guarded) : Outcome where
  state := if g.opened then { s with blocks := .ifBlock :: s.blocks } else s
  lines := g.lines
  taken := g.taken
  notes := g.notes

/-- **An `If` line.** -/
def ifLine (p : Profile) (name : Text) (s : State) (line : Text) (ahead : List Text) : Outcome :=
  let head := condition p line "Then".toList
  let branch := ifBranch p name line.indent ahead
  Guarded.outcome s
    { branch with
      lines := ⟨.ifHead, head.value⟩ :: branch.lines
      notes := head.notes ++ branch.notes }

/-- **A `While` line.** The `Begin` after it is taken along. -/
def whileLine (p : Profile) (s : State) (line : Text) (ahead : List Text) : Outcome :=
  let head := condition p line "Loop".toList
  { state := { s with blocks := .whileLoop :: s.blocks }
    lines := [⟨.loopHead, head.value⟩]
    taken := match ahead with
      | next :: _ => if isBegin next then 1 else 0
      | [] => 0
    notes := head.notes ++ Note.lookAhead 1 ahead }

/-- **An `End` line** closes the innermost block, here of the given kind; an `If` block may go on with
`Else`. -/
def endLine (p : Profile) (name : Text) (s : State) (block : Block) (line extra : Text)
    (ahead : List Text) : Outcome :=
  match block with
  | .whileLoop => { state := s, lines := [⟨.loopEnd, line.indent ++ "End Loop;".toList ++ extra⟩] }
  | .ifBlock =>
    Guarded.outcome s <| elseOr p name line.indent ahead
      { lines := [⟨.ifEnd, line.indent ++ "End If;".toList ++ extra⟩] }

/-! ### Other lines -/

/-- **Any other line**: converted like an expression, with a warning if it joins the table of the
query it belongs to. -/
def otherLine (p : Profile) (s : State) (line : Text) : Outcome :=
  let converted := Expression.convert p line
  match query? line with
  | some pending =>
    { state := { s with pending := some pending }
      lines := [{ text := converted.value }]
      notes := converted.notes }
  | none =>
    match s.pending with
    | none => { state := s, lines := [{ text := converted.value }], notes := converted.notes }
    | some pending =>
      if pending.isJoinedBy line then
        { state := { s with pending := none }
          lines := { text := converted.value } ::
            pending.warning.map fun warning => { text := line.indent ++ warning }
          notes := converted.notes ++ [.log .warning pending.note] }
      else { state := s, lines := [{ text := converted.value }], notes := converted.notes }

/-- A line without control flow: a statement, or any other line. -/
def plainLine (p : Profile) (s : State) (line : Text) (ahead : List Text) : Outcome :=
  match Statement.ofLine? line with
  | some statement =>
    let converted := statement.convert p ahead
    { state := s
      lines := if converted.value.isEmpty then [] else [{ text := converted.value }]
      notes := converted.notes }
  | none =>
    let outcome := otherLine p s line
    { outcome with notes := abandonedNotes p line ++ outcome.notes }

/-- A line that is no `Declare` line: the end of a block, control flow or a plain line. -/
def undeclaredLine (p : Profile) (name : Text) (s : State) (line : Text) (ahead : List Text) :
    Outcome :=
  match s.blocks, end? line with
  | block :: blocks, some extra => endLine p name { s with blocks } block line extra ahead
  | _, _ =>
    if isIf line then ifLine p name s line ahead
    else if isWhile line then whileLine p s line ahead
    else
      let outcome := plainLine p s line ahead
      { outcome with notes := elseIfNotes line ++ outcome.notes }

/-- **One line of the body.** A blank line ends the query that was pending. -/
def step (p : Profile) (name : Text) (s : State) (line : Text) (ahead : List Text) : Outcome :=
  if line.isBlank then { state := { s with pending := none }, lines := [{ text := [] }] }
  else
    let line := Expression.literal p line
    match declare? p line with
    | ⟨some declared, notes⟩ =>
      { state := s, lines := declared.lines.map ({ text := · }), locals := declared.locals, notes }
    | ⟨none, notes⟩ =>
      let outcome := undeclaredLine p name s line ahead
      { outcome with notes := notes ++ outcome.notes }

end SqlRoutine.Body

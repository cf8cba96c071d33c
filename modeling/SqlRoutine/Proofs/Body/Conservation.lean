import SqlRoutine.Proofs.Body.Feed
import SqlRoutine.Proofs.Body.Line

/-! # Conservation of control blocks

Whatever the source lines are, no block gets lost. Of every `If` that has been written (`Role.ifHead`)
there is an `End If` in the body, an open block on the stack, or the warning that the statement is
missing; of every `While` there is an `End Loop` or an open block.

* `Guarded.SettlesOne`: what follows an `If` or an `Else` settles exactly one `If`, in one of the three
  ways. It holds of `ifBranch`, `elseBranch` and `elseOr` because `Guarded.andThen` adds up.
* `Outcome.Balances`: one call of `step` keeps the balance (`step_balances`).
* `Feed.Balanced`: so it holds after any number of calls. The warning comes with the end of the
  source, hence at most once. -/

namespace SqlRoutine.Body

open List

variable {l : Converted} {ahead : List Text} {next : List Text → Guarded} {o : Outcome} {role : Role}
  {s : State} {indent : Text}

/-! ### Counting -/

/-- How many of the converted lines have the given part. -/
def countRole (role : Role) (lines : List Converted) : ℕ := lines.countP (·.role = role)

/-- The warning that an `If` has no statement. -/
def isMissingStatement : Note → Bool
  | .record ⟨.warning, message⟩ => message.startsWith "Missing statement".toList
  | _ => false

/-- How many of the notes are such warnings. -/
def countMissing (notes : List Note) : ℕ := notes.countP isMissingStatement

@[simp]
theorem countRole_nil (role : Role) : countRole role [] = 0 := rfl

@[simp]
theorem countRole_cons (role : Role) (l : Converted) (lines : List Converted) :
    countRole role (l :: lines) = countRole role lines + if l.role = role then 1 else 0 := by
  simp [countRole, countP_cons]

@[simp]
theorem countRole_append (role : Role) (a b : List Converted) :
    countRole role (a ++ b) = countRole role a + countRole role b := countP_append

@[simp]
theorem countMissing_nil : countMissing [] = 0 := rfl

@[simp]
theorem countMissing_append (a b : List Note) :
    countMissing (a ++ b) = countMissing a + countMissing b := countP_append

theorem countRole_of_plain {lines : List Converted} (h : ∀ l ∈ lines, l.role = .plain)
    (hrole : role ≠ .plain) : countRole role lines = 0 := by
  refine countP_eq_zero.mpr fun l hl => ?_
  rw [h l hl]
  simpa using fun h => hrole h.symm

/-! ### Notes that are no warning of a missing statement -/

@[simp]
theorem countMissing_lookAhead (n : ℕ) (ahead : List Text) :
    countMissing (Note.lookAhead n ahead) = 0 := by
  unfold Note.lookAhead; split_ifs <;> rfl

@[simp]
theorem countMissing_convert (p : Profile) (t : Text) :
    countMissing (Expression.convert p t).notes = 0 := by
  unfold Expression.convert Expression.calls
  simp only [Noted.notes_bind, Noted.notes_pure, append_nil]
  split_ifs <;> rfl

theorem countMissing_convertItems (p : Profile) :
    ∀ items : List (Text × Text), countMissing (convertItems p items).notes = 0
  | [] => rfl
  | (target, value) :: items => by
    unfold convertItems
    split_ifs
    · exact countMissing_convertItems p items
    · simp [countMissing_convertItems p items]

theorem countMissing_convertSelect (p : Profile) (indent modifiers : Text)
    (items : List (Text × Text)) (clause comment : Text) (ahead : List Text) :
    countMissing (convertSelect p indent modifiers items clause comment ahead).notes = 0 := by
  unfold convertSelect
  rw [Noted.notes_bind, countMissing_append, countMissing_convertItems]
  rcases (convertItems p items).value with _ | ⟨⟨target, value⟩, others⟩
  · rfl
  · dsimp only
    split_ifs <;> simp [Noted.tell]

@[simp]
theorem countMissing_statement (p : Profile) (ahead : List Text) (s : Statement) :
    countMissing (s.convert p ahead).notes = 0 := by
  cases s with
  | assign indent target value comment =>
    simp only [Statement.convert]
    split_ifs <;> simp
  | select indent modifiers items clause comment => exact countMissing_convertSelect ..
  | call indent target parameters comment => simp [Statement.convert, convertParameters]
  | _ => simp [Statement.convert]

@[simp]
theorem countMissing_abandonedNotes (p : Profile) (line : Text) :
    countMissing (abandonedNotes p line) = 0 := by
  unfold abandonedNotes
  split
  · exact countMissing_convertItems p _
  · rfl

@[simp]
theorem countMissing_elseIfNotes (line : Text) : countMissing (elseIfNotes line) = 0 := by
  unfold elseIfNotes; split_ifs <;> rfl

theorem countMissing_declareVariables (p : Profile) (indent : Text) :
    ∀ (vs : List Variable) (comment : Text),
      countMissing (declareVariables p indent comment vs).notes = 0
  | [], _ => rfl
  | v :: vs, comment => by
    unfold declareVariables
    split_ifs
    · exact countMissing_declareVariables p indent vs comment
    · rcases v.value with _ | value <;> simp [countMissing_declareVariables p indent vs]

@[simp]
theorem countMissing_declare (p : Profile) (line : Text) :
    countMissing (declare? p line).notes = 0 := by
  unfold declare?
  split
  · rfl
  · split
    · rfl
    · rfl
    · simp [countMissing_declareVariables]

theorem countMissing_missingStatement (name : Text) : countMissing [missingStatement name] = 1 := rfl

theorem countMissing_pending (pending : Pending) : countMissing [.log .warning pending.note] = 0 := by
  rcases pending with ⟨query, table⟩
  cases query <;> rfl

/-! ### Lines and their parts -/

/-- The text of a line fits its part in the control flow. -/
def Converted.Fits (l : Converted) : Prop :=
  match l.role with
  | .ifHead => ∃ code comment, l.text = Code.withComment (code ++ " Then".toList) comment
  | .loopHead => ∃ code comment, l.text = Code.withComment (code ++ " Loop".toList) comment
  | .ifEnd => ∃ indent extra, indent.isBlank ∧ l.text = indent ++ "End If;".toList ++ extra
  | .loopEnd => ∃ indent extra, indent.isBlank ∧ l.text = indent ++ "End Loop;".toList ++ extra
  | .plain => True

theorem fits_of_plain (h : l.role = .plain) : l.Fits := by
  unfold Converted.Fits; rw [h]; trivial

/-- **The heads and ends of blocks are not blank**, so each adds a line to the body. -/
theorem Converted.Fits.not_blank (h : l.Fits) (hrole : l.role ≠ .plain) : l.text.isBlank = false := by
  rcases l with ⟨role, text⟩
  cases role with
  | ifHead =>
    obtain ⟨code, comment, rfl⟩ := h
    exact isBlank_withComment (by simp; exact fun _ => by decide)
  | loopHead =>
    obtain ⟨code, comment, rfl⟩ := h
    exact isBlank_withComment (by simp; exact fun _ => by decide)
  | ifEnd =>
    obtain ⟨indent, extra, -, rfl⟩ := h
    have hword : Text.isBlank "End If;".toList = false := by decide
    rw [Text.isBlank_append, Text.isBlank_append, hword, Bool.and_false, Bool.false_and]
  | loopEnd =>
    obtain ⟨indent, extra, -, rfl⟩ := h
    have hword : Text.isBlank "End Loop;".toList = false := by decide
    rw [Text.isBlank_append, Text.isBlank_append, hword, Bool.and_false, Bool.false_and]
  | plain => exact absurd rfl hrole

theorem indent_isBlank (t : Text) : t.indent.isBlank :=
  all_takeWhile ..

/-! ### Guarded statements -/

/-- **Exactly one `If` is settled**: by its end, by an open block, or by the warning that the
statement is missing, which comes at the end of the source. -/
structure Guarded.SettlesOne (g : Guarded) (ahead : List Text) : Prop where
  one : countRole .ifEnd g.lines + g.opened.toNat + countMissing g.notes = 1
  parts : ∀ l ∈ g.lines, l.Fits ∧ (l.role = .plain ∨ l.role = .ifEnd)
  dry : 0 < countMissing g.notes → ahead.drop g.taken = []

/-- Plain lines and silent notes before it do not matter. -/
theorem Guarded.SettlesOne.andThen {done : Guarded}
    (hlines : ∀ l ∈ done.lines, l.role = .plain) (hnotes : countMissing done.notes = 0)
    (h : (next (ahead.drop done.taken)).SettlesOne (ahead.drop done.taken)) :
    (done.andThen ahead next).SettlesOne ahead := by
  obtain ⟨hone, hparts, hdry⟩ := h
  have hzero : countRole .ifEnd done.lines = 0 := countRole_of_plain hlines (by decide)
  refine ⟨?_, fun l hl => ?_, fun hmissing => ?_⟩
  · simp only [Guarded.andThen, countRole_append, countMissing_append]
    omega
  · rcases mem_append.mp hl with hl | hl
    · exact ⟨fits_of_plain (hlines l hl), Or.inl (hlines l hl)⟩
    · exact hparts l hl
  · simp only [Guarded.andThen, countMissing_append] at hmissing ⊢
    rw [← drop_drop]
    exact hdry (by omega)

theorem endIf_settlesOne (h : indent.isBlank) (extra : Text) (ahead : List Text) :
    Guarded.SettlesOne { lines := [⟨.ifEnd, indent ++ "End If;".toList ++ extra⟩] } ahead := by
  refine ⟨rfl, fun l hl => ?_, fun hmissing => absurd hmissing (by simp)⟩
  rw [mem_singleton.mp hl]
  exact ⟨⟨indent, extra, h, rfl⟩, Or.inr rfl⟩

theorem endIf_settlesOne_of_blank (h : indent.isBlank) (ahead : List Text) :
    (endIf indent).SettlesOne ahead := by
  simpa [endIf] using endIf_settlesOne h [] ahead

theorem beginComment_plain (line : Text) : ∀ l ∈ beginComment line, l.role = .plain := by
  intro l hl
  unfold beginComment at hl
  split at hl
  · cases hl
  · rw [mem_singleton.mp hl]

theorem guardedStatement_plain (p : Profile) (line : Text) (ahead : List Text) :
    ∀ l ∈ (guardedStatement p line ahead).lines, l.role = .plain := by
  intro l hl
  simp only [guardedStatement] at hl
  split at hl
  · split_ifs at hl
    · cases hl
    · rw [mem_singleton.mp hl]
  · split_ifs at hl
    · cases hl
    · rw [mem_singleton.mp hl]

theorem guardedStatement_notes (p : Profile) (line : Text) (ahead : List Text) :
    countMissing (guardedStatement p line ahead).notes = 0 := by
  simp only [guardedStatement]
  split
  · exact countMissing_statement p ahead _
  · simp [Noted.tell]

/-- **A block, or a statement and what comes next**, settles one `If` if what comes next does. -/
theorem guarded_settlesOne (p : Profile) (name : Text) (ahead : List Text)
    (hnext : ∀ ahead, (next ahead).SettlesOne ahead) :
    (guarded p name ahead next).SettlesOne ahead := by
  rcases ahead with _ | ⟨line, rest⟩
  · refine ⟨?_, fun l hl => absurd hl not_mem_nil, fun _ => rfl⟩
    simp [guarded, countMissing_missingStatement]
  · unfold guarded
    dsimp only
    split_ifs with hbegin
    · have hplain := beginComment_plain line
      refine ⟨?_, fun l hl => ⟨fits_of_plain (hplain l hl), Or.inl (hplain l hl)⟩, fun h => ?_⟩
      · simp [countRole_of_plain hplain]
      · simp at h
    · refine .andThen (by simp) (by simp) ?_
      exact .andThen (guardedStatement_plain p line rest) (guardedStatement_notes p line rest)
        (hnext _)

theorem elseBranch_settlesOne (p : Profile) (name : Text) (h : indent.isBlank)
    (ahead : List Text) : (elseBranch p name indent ahead).SettlesOne ahead :=
  guarded_settlesOne p name ahead fun ahead => endIf_settlesOne_of_blank h ahead

theorem elseOr_settlesOne (p : Profile) (name : Text) (h : indent.isBlank)
    {otherwise : Guarded} (ho : otherwise.SettlesOne ahead) :
    (elseOr p name indent ahead otherwise).SettlesOne ahead := by
  have hother : Guarded.SettlesOne
      { otherwise with notes := Note.lookAhead 1 ahead ++ otherwise.notes } ahead := by
    refine ⟨?_, ho.parts, fun hm => ho.dry ?_⟩
    · simpa using ho.one
    · simpa using hm
  rcases ahead with _ | ⟨line, rest⟩
  · exact hother
  · unfold elseOr
    dsimp only
    split_ifs with helse
    · refine .andThen (by simp) (by simp) (.andThen ?_ ?_ ?_)
      · intro l hl
        rw [mem_singleton.mp hl]
      · simp [elseLine]
      · exact elseBranch_settlesOne p name h _
    · exact hother

theorem ifBranch_settlesOne (p : Profile) (name : Text) (h : indent.isBlank)
    (ahead : List Text) : (ifBranch p name indent ahead).SettlesOne ahead :=
  guarded_settlesOne p name ahead fun ahead =>
    elseOr_settlesOne p name h (endIf_settlesOne_of_blank h ahead)

/-! ### One call -/

/-- **The balance of one call**: blocks that are opened or closed, and lines that are written. -/
structure Outcome.Balances (o : Outcome) (s : State) (ahead : List Text) : Prop where
  ifs : countRole .ifHead o.lines + s.blocks.count .ifBlock =
    countRole .ifEnd o.lines + o.state.blocks.count .ifBlock + countMissing o.notes
  loops : countRole .loopHead o.lines + s.blocks.count .whileLoop =
    countRole .loopEnd o.lines + o.state.blocks.count .whileLoop
  once : countMissing o.notes ≤ 1
  fits : ∀ l ∈ o.lines, l.Fits
  dry : 0 < countMissing o.notes → ahead.drop o.taken = []

theorem Outcome.Balances.of_plain (ahead : List Text)
    (hlines : ∀ l ∈ o.lines, l.role = .plain) (hblocks : o.state.blocks = s.blocks)
    (hnotes : countMissing o.notes = 0) : o.Balances s ahead := by
  have hzero : ∀ role : Role, role ≠ .plain → countRole role o.lines = 0 := fun role hrole =>
    countRole_of_plain hlines hrole
  refine ⟨?_, ?_, by omega, fun l hl => fits_of_plain (hlines l hl), by omega⟩
  · rw [hzero .ifHead (by decide), hzero .ifEnd (by decide), hblocks, hnotes, Nat.add_zero]
  · rw [hzero .loopHead (by decide), hzero .loopEnd (by decide), hblocks]

theorem Outcome.Balances.addNotes
    (h : o.Balances s ahead) {notes : List Note} (hnotes : countMissing notes = 0) :
    Outcome.Balances { o with notes := notes ++ o.notes } s ahead := by
  obtain ⟨hifs, hloops, honce, hfits, hdry⟩ := h
  have hcount : countMissing (notes ++ o.notes) = countMissing o.notes := by
    rw [countMissing_append, hnotes, Nat.zero_add]
  exact ⟨by rw [hcount]; exact hifs, hloops, by rw [hcount]; exact honce, hfits,
    by rw [hcount]; exact hdry⟩

theorem Guarded.SettlesOne.count_zero {g : Guarded} (h : g.SettlesOne ahead)
    (hplain : role ≠ .plain) (hend : role ≠ .ifEnd) : countRole role g.lines = 0 := by
  refine countP_eq_zero.mpr fun l hl => ?_
  rcases (h.parts l hl).2 with hrole | hrole <;> rw [hrole] <;> simpa using Ne.symm ‹_›

theorem outcome_blocks_count (s : State) (g : Guarded) :
    (Guarded.outcome s g).state.blocks.count .ifBlock =
        s.blocks.count .ifBlock + g.opened.toNat ∧
      (Guarded.outcome s g).state.blocks.count .whileLoop = s.blocks.count .whileLoop := by
  cases h : g.opened <;> simp [Guarded.outcome, h]

theorem condition_value (p : Profile) (line word : Text) :
    ∃ code comment, (condition p line word).value = Code.withComment (code ++ ' ' :: word) comment :=
  ⟨_, _, rfl⟩

@[simp]
theorem countMissing_condition (p : Profile) (line word : Text) :
    countMissing (condition p line word).notes = 0 := by
  simp [condition]

theorem ifLine_balances (p : Profile) (name : Text) (s : State) (line : Text) (ahead : List Text) :
    (ifLine p name s line ahead).Balances s ahead := by
  have hbranch := ifBranch_settlesOne p name (indent_isBlank line) ahead
  unfold ifLine
  dsimp only
  generalize hhead : condition p line "Then".toList = head
  have hnotes : countMissing head.notes = 0 := by rw [← hhead]; simp
  generalize ifBranch p name line.indent ahead = branch at hbranch ⊢
  have hone := hbranch.one
  have hcount := outcome_blocks_count s
    { branch with lines := ⟨.ifHead, head.value⟩ :: branch.lines, notes := head.notes ++ branch.notes }
  refine ⟨?_, ?_, ?_, fun l hl => ?_, fun h => ?_⟩
  · rw [hcount.1]
    simp [Guarded.outcome, hbranch.count_zero, hnotes]
    omega
  · rw [hcount.2]
    simp [Guarded.outcome, hbranch.count_zero]
  · simp only [Guarded.outcome, countMissing_append]
    omega
  · rcases mem_cons.mp hl with rfl | hl
    · rw [← hhead]
      exact condition_value p line "Then".toList
    · exact (hbranch.parts l hl).1
  · simp only [Guarded.outcome, countMissing_append] at h
    exact hbranch.dry (by omega)

theorem whileLine_balances (p : Profile) (s : State) (line : Text) (ahead : List Text) :
    (whileLine p s line ahead).Balances s ahead := by
  refine ⟨?_, ?_, ?_, fun l hl => ?_, ?_⟩
  · simp [whileLine]
  · simp [whileLine]
    omega
  · simp [whileLine]
  · rw [mem_singleton.mp hl]
    exact condition_value p line "Loop".toList
  · simp [whileLine]

theorem endLine_balances (p : Profile) (name : Text) (s : State) (block : Block) (line extra : Text)
    (ahead : List Text) :
    (endLine p name s block line extra ahead).Balances { s with blocks := block :: s.blocks }
      ahead := by
  cases block with
  | whileLoop =>
    refine ⟨by simp [endLine], by simp [endLine]; omega, by simp [endLine], fun l hl => ?_,
      by simp [endLine]⟩
    rw [mem_singleton.mp hl]
    exact ⟨line.indent, extra, indent_isBlank line, rfl⟩
  | ifBlock =>
    have hbranch := elseOr_settlesOne p name (indent_isBlank line)
      (endIf_settlesOne (indent_isBlank line) extra ahead)
    simp only [endLine]
    generalize elseOr p name line.indent ahead _ = branch at hbranch ⊢
    have hone := hbranch.one
    have hcount := outcome_blocks_count s branch
    refine ⟨?_, ?_, ?_, fun l hl => (hbranch.parts l hl).1, hbranch.dry⟩
    · rw [hcount.1]
      simp [Guarded.outcome, hbranch.count_zero]
      omega
    · rw [hcount.2]
      simp [Guarded.outcome, hbranch.count_zero]
    · simp only [Guarded.outcome]
      omega

theorem otherLine_balances (p : Profile) (s : State) (line : Text) (ahead : List Text) :
    (otherLine p s line).Balances s ahead := by
  unfold otherLine
  dsimp only
  split
  · exact .of_plain ahead (by simp) rfl (by simp)
  · split
    · exact .of_plain ahead (by simp) rfl (by simp)
    · split_ifs
      · refine .of_plain ahead ?_ rfl ?_
        · simp
        · rw [countMissing_append, countMissing_pending, countMissing_convert]
      · exact .of_plain ahead (by simp) rfl (by simp)

theorem plainLine_balances (p : Profile) (s : State) (line : Text) (ahead : List Text) :
    (plainLine p s line ahead).Balances s ahead := by
  unfold plainLine
  split
  · refine .of_plain ahead ?_ rfl (by simp)
    intro l hl
    dsimp only at hl
    split_ifs at hl
    · cases hl
    · rw [mem_singleton.mp hl]
  · exact (otherLine_balances p s line ahead).addNotes (by simp)

theorem undeclaredLine_balances (p : Profile) (name : Text) (s : State) (line : Text)
    (ahead : List Text) : (undeclaredLine p name s line ahead).Balances s ahead := by
  unfold undeclaredLine
  split
  · next block blocks extra hblocks hend =>
    have h := endLine_balances p name { s with blocks } block line extra ahead
    simpa [← hblocks] using h
  · split_ifs
    · exact ifLine_balances p name s line ahead
    · exact whileLine_balances p s line ahead
    · exact (plainLine_balances p s line ahead).addNotes (by simp)

/-- **One call keeps the balance.** -/
theorem step_balances (p : Profile) (name : Text) (s : State) (line : Text) (ahead : List Text) :
    (step p name s line ahead).Balances s ahead := by
  unfold step
  split_ifs
  · exact .of_plain ahead (by simp) rfl rfl
  · have hnotes := countMissing_declare p (Expression.literal p line)
    dsimp only
    split
    · next declared notes hdeclare =>
      rw [hdeclare] at hnotes
      exact .of_plain ahead (by simp) rfl hnotes
    · next notes hdeclare =>
      rw [hdeclare] at hnotes
      exact (undeclaredLine_balances p name s _ ahead).addNotes hnotes

/-! ### Any number of calls -/

/-- **The balance of all calls so far.** -/
structure Feed.Balanced (body : List Text) (f : Feed) : Prop where
  ifs : countRole .ifHead f.lines =
    countRole .ifEnd f.lines + f.state.blocks.count .ifBlock + countMissing f.notes
  loops : countRole .loopHead f.lines =
    countRole .loopEnd f.lines + f.state.blocks.count .whileLoop
  once : countMissing f.notes ≤ 1
  dry : 0 < countMissing f.notes → f.ahead = []
  fits : ∀ l ∈ f.lines, l.Fits
  written : f.body = appendLines body (texts f.lines)

theorem Feed.Balanced.after {body : List Text} {f : Feed} {line : Text}
    (h : f.Balanced body) (hahead : f.ahead = line :: ahead)
    (ho : o.Balances f.state ahead) : (f.after o ahead).Balanced body := by
  obtain ⟨hifs, hloops, honce, hdry, hfits, hwritten⟩ := h
  -- a warning so far would mean that there is no line left to be given to this call
  have hnone : countMissing f.notes = 0 := by
    by_contra hne
    have := hdry (Nat.pos_of_ne_zero hne)
    rw [hahead] at this
    cases this
  have hoifs := ho.ifs
  have holoops := ho.loops
  refine ⟨?_, ?_, ?_, fun hmissing => ho.dry ?_, fun l hl => ?_, ?_⟩
  · simp only [Feed.after, countRole_append, countMissing_append]
    omega
  · simp only [Feed.after, countRole_append]
    omega
  · simp only [Feed.after, countMissing_append]
    have := ho.once
    omega
  · simp only [Feed.after, countMissing_append] at hmissing
    omega
  · rcases mem_append.mp hl with hl | hl
    · exact hfits l hl
    · exact ho.fits l hl
  · simp only [Feed.after, texts_append, appendLines_append, hwritten]

/-- **No control block gets lost.** Lines of any form are fed to the conversion of a body, from an empty
stack. After every call the heads of `If` blocks are as many as their ends, the open blocks and the
warnings of missing statements together, and the heads of loops are as many as their ends and the open
loops. There is at most one such warning, and only when the source has come to its end. Each head and
end has the words of its part and has added a line of its own to the body. -/
theorem blocks_conserved (p : Profile) (name : Text) (pending : Option Pending) (body source : List Text)
    (calls : ℕ) :
    let f := (Feed.next p name)^[calls] { state := { pending }, body, ahead := source }
    countRole .ifHead f.lines =
        countRole .ifEnd f.lines + f.state.blocks.count .ifBlock + countMissing f.notes ∧
      countRole .loopHead f.lines =
        countRole .loopEnd f.lines + f.state.blocks.count .whileLoop ∧
      countMissing f.notes ≤ 1 ∧ (0 < countMissing f.notes → f.ahead = []) ∧
      f.body = appendLines body (texts f.lines) ∧
      ∀ l ∈ f.lines, l.role ≠ .plain →
        l.Fits ∧ ∀ body, appendLine body l.text = body ++ [tidy l.text] := by
  intro f
  have hstart : Feed.Balanced body { state := { pending }, body, ahead := source } :=
    ⟨rfl, rfl, by simp, by simp, by simp, rfl⟩
  have h : f.Balanced body := Feed.iterate_next (fun g line ahead hahead hg =>
    hg.after hahead (step_balances p name g.state line ahead)) hstart calls
  refine ⟨h.ifs, h.loops, h.once, h.dry, h.written, fun l hl hrole => ⟨h.fits l hl, fun body => ?_⟩⟩
  exact appendLine_of_not_blank ((h.fits l hl).not_blank hrole) body

end SqlRoutine.Body

import SqlRoutine.Proofs.LookAhead
import SqlRoutine.Proofs.Rename.Cache
import SqlRoutine.Script.Convert

/-! # What comes before does not show

Two conversions stand at the same point of the same routine, but one of them has a **past**: text that
was written, routines that were counted, records, columns that were looked up. `Follows` says that this
is the only difference, and every part of the conversion preserves it (`step_follows`,
`convertLines_follows`): the run with a past comes to what the other one comes to, put after the past.

So a converter that has converted other texts before converts a text like a new one
(`convertTexts_independent`). -/

namespace SqlRoutine

open Renaming

namespace Script

/-- What earlier routines or scripts have left behind. -/
structure Past where
  output : Text := []
  written : ℕ := 0
  skipped : ℕ := 0
  records : List Record := []

/-- The past that a state is for what comes after it. -/
def State.past (s : State) : Past := ⟨s.output, s.written, s.skipped, Note.records s.notes⟩

/-- The columns that have been looked up are those that a look-up gives. -/
def CoherentColumns (c : Converter) (cache : ColumnCache) : Prop :=
  ∀ r, c.renames = some r → r.Coherent cache

theorem coherentColumns_nil (c : Converter) : CoherentColumns c [] :=
  fun r _ => coherent_nil r

/-- **The state `s` stands where `t` stands, after the past.** -/
structure State.Follows (c : Converter) (past : Past) (s t : State) : Prop where
  definition : s.definition = t.definition
  header : s.header = t.header
  body : s.body = t.body
  skipGo : s.skipGo = t.skipGo
  output : s.output = past.output ++ t.output
  written : s.written = past.written + t.written
  skipped : s.skipped = past.skipped + t.skipped
  records : Note.records s.notes = past.records ++ Note.records t.notes
  left : CoherentColumns c s.columns
  right : CoherentColumns c t.columns

/-- The same of two steps: they end with the same fault, if any. -/
structure Progress.Follows (c : Converter) (past : Past) (p q : Progress) : Prop where
  fault : p.fault = q.fault
  state : p.state.Follows c past q.state

variable {c : Converter} {past : Past} {s t : State}

theorem State.Follows.note (h : s.Follows c past t) {a b : List Note}
    (hnotes : Note.records a = Note.records b) : (s.note a).Follows c past (t.note b) :=
  { h with
    records := by
      simp only [State.note, Note.records_append, h.records, hnotes, List.append_assoc] }

theorem State.Follows.log (h : s.Follows c past t) (level : Level) (message : Text) :
    (s.log level message).Follows c past (t.log level message) :=
  h.note rfl

theorem State.Follows.setDefinition (h : s.Follows c past t) (d : Definition) :
    State.Follows c past { s with definition := d } { t with definition := d } :=
  { h with definition := rfl }

theorem State.Follows.clear (h : s.Follows c past t) : s.clear.Follows c past t.clear :=
  h.setDefinition {}

theorem State.Follows.setSkipGo (h : s.Follows c past t) (b : Bool) :
    State.Follows c past { s with skipGo := b } { t with skipGo := b } :=
  { h with skipGo := rfl }

theorem State.Follows.setHeader (h : s.Follows c past t) (header : Header.State) :
    State.Follows c past { s with header } { t with header } :=
  { h with header := rfl }

theorem State.Follows.setBody (h : s.Follows c past t) (body : Body.State) :
    State.Follows c past { s with body } { t with body } :=
  { h with body := rfl }

theorem State.Follows.setColumns (h : s.Follows c past t) {cache cache' : ColumnCache}
    (hleft : CoherentColumns c cache) (hright : CoherentColumns c cache') :
    State.Follows c past { s with columns := cache } { t with columns := cache' } :=
  { h with left := hleft, right := hright }

theorem State.Follows.write (h : s.Follows c past t) (text : Text) :
    State.Follows c past { s with output := s.output ++ text, written := s.written + 1 }
      { t with output := t.output ++ text, written := t.written + 1 } :=
  { h with
    output := by dsimp only; rw [h.output, List.append_assoc]
    written := by dsimp only; rw [h.written, Nat.add_assoc] }

theorem State.Follows.countSkipped (h : s.Follows c past t) :
    State.Follows c past { s with skipped := s.skipped + 1 }
      { t with skipped := t.skipped + 1 } :=
  { h with skipped := by dsimp only; rw [h.skipped, Nat.add_assoc] }

/-! ### Writing a routine -/

/-- Which columns have been looked up makes no difference for a body. -/
theorem renamedBody_alike {cache cache' : ColumnCache} (h : CoherentColumns c cache)
    (h' : CoherentColumns c cache') (body : List Text) :
    (renamedBody c cache body).result = (renamedBody c cache' body).result ∧
      (renamedBody c cache body).notes = (renamedBody c cache' body).notes ∧
      CoherentColumns c (renamedBody c cache body).columns ∧
      CoherentColumns c (renamedBody c cache' body).columns := by
  unfold renamedBody
  cases hr : c.renames with
  | none => exact ⟨rfl, rfl, h, h'⟩
  | some r =>
    have halike := renameBody_alike (h r hr) (h' r hr) body
    refine ⟨halike.result, halike.notes, fun r' hr' => ?_, fun r' hr' => ?_⟩
    · rw [hr] at hr'
      exact Option.some.inj hr' ▸ halike.left
    · rw [hr] at hr'
      exact Option.some.inj hr' ▸ halike.right

theorem renamedBody_follows (h : s.Follows c past t) :
    (renamedBody c s.columns s.definition.body).result =
        (renamedBody c t.columns t.definition.body).result ∧
      (renamedBody c s.columns s.definition.body).notes =
        (renamedBody c t.columns t.definition.body).notes ∧
      CoherentColumns c (renamedBody c s.columns s.definition.body).columns ∧
      CoherentColumns c (renamedBody c t.columns t.definition.body).columns := by
  rw [h.definition]
  exact renamedBody_alike h.left h.right t.definition.body

theorem writeText_follows (h : s.Follows c past t) :
    (writeText c s).Follows c past (writeText c t) := by
  have hnote := h.note (a := writingNotes c t.definition) rfl
  simp only [writeText, State.note, h.definition] at hnote ⊢
  cases t.definition.render c.profile.snakeCase c.profile.indent with
  | error fault => exact ⟨rfl, hnote⟩
  | ok text =>
    cases text with
    | nil => exact ⟨rfl, (hnote.log _ _).clear⟩
    | cons first rest => exact ⟨rfl, (hnote.write (first :: rest)).clear⟩

theorem finishRoutine_follows (h : s.Follows c past t) :
    (finishRoutine c s).Follows c past (finishRoutine c t) := by
  obtain ⟨hresult, hnotes, hleft, hright⟩ := renamedBody_follows h
  have hunbalanced : unbalancedNotes s = unbalancedNotes t := by
    unfold unbalancedNotes
    rw [h.definition, h.body]
  have hrenamed := (h.setColumns hleft hright).note
    (a := unbalancedNotes t ++ (renamedBody c t.columns t.definition.body).notes) rfl
  have hskipped := (h.log .info ("Skipping ".toList ++ t.definition.sourceName)).countSkipped
  unfold finishRoutine
  dsimp only
  rw [hresult, hnotes, hunbalanced, h.definition]
  split_ifs with hempty hskip
  · exact ⟨rfl, h⟩
  · exact ⟨rfl, hskipped.clear⟩
  · cases (renamedBody c t.columns t.definition.body).result with
    | error fault => exact ⟨rfl, h.definition ▸ hrenamed⟩
    | ok body =>
      refine writeText_follows ?_
      have hset := hrenamed.setDefinition { t.definition with body }
      simp only [State.note, h.definition] at hset ⊢
      exact hset

/-! ### One line -/

/-- For a line it makes no difference which of the two lists stands ahead of it. A batch separator
belongs to no routine. -/
structure SameSight (c : Converter) (line : Text) (ahead ahead' : List Text) : Prop where
  header : isGo line = false → ∀ s d,
    Header.step c.profile c.today s d line ahead = Header.step c.profile c.today s d line ahead'
  body : isGo line = false → ∀ name s,
    (Body.step c.profile name s line ahead).Alike (Body.step c.profile name s line ahead')
  separator : ∀ s s', (skippedGo s ahead).taken = (skippedGo s' ahead').taken

theorem SameSight.refl (c : Converter) (line : Text) (ahead : List Text) :
    SameSight c line ahead ahead :=
  ⟨fun _ _ _ => rfl, fun _ _ _ => .refl _, fun _ _ => rfl⟩

/-- The same of what comes of one line: the same upcoming lines are taken. -/
structure Outcome.Follows (c : Converter) (past : Past) (o q : Outcome) : Prop where
  progress : o.progress.Follows c past q.progress
  taken : o.taken = q.taken

theorem startRoutine_follows (h : s.Follows c past t) (create : Create) :
    (startRoutine c s create).Follows c past (startRoutine c t create) := by
  obtain ⟨hfault, hstate⟩ := finishRoutine_follows h
  unfold startRoutine
  rcases hs : finishRoutine c s with ⟨s', fault⟩
  rcases ht : finishRoutine c t with ⟨t', fault'⟩
  rw [hs, ht] at hfault hstate
  dsimp only at hfault hstate
  subst hfault
  cases fault with
  | some fault => exact ⟨rfl, hstate⟩
  | none =>
    dsimp only
    cases c.profile.skips (objectName (qualifiedName create.rest)) with
    | error fault => exact ⟨rfl, hstate⟩
    | ok skip => exact ⟨rfl, (((hstate.setDefinition _).setHeader {}).setBody {}).log _ _⟩

variable {line : Text} {ahead ahead' : List Text}

theorem routineLine_follows (h : s.Follows c past t) (hgo : isGo line = false)
    (hsight : SameSight c line ahead ahead') :
    (routineLine c s line ahead).Follows c past (routineLine c t line ahead') := by
  unfold routineLine
  rw [h.header, h.definition, hsight.header hgo]
  set header := Header.step c.profile c.today t.header t.definition line ahead'
  have hheader : State.Follows c past
      (State.note { s with header := header.state, definition := header.definition } header.notes)
      (State.note { t with header := header.state, definition := header.definition } header.notes) :=
    ((h.setHeader header.state).setDefinition header.definition).note rfl
  dsimp only
  split_ifs with hconsumed
  · exact ⟨⟨rfl, hheader⟩, rfl⟩
  · have halike := hsight.body hgo header.definition.name t.body
    simp only [State.note] at hheader ⊢
    rw [h.body, halike.lines, halike.locals, halike.state]
    refine ⟨⟨rfl, ?_⟩, halike.taken⟩
    exact ((hheader.setBody _).setDefinition _).note halike.records

theorem skippedGo_follows (h : s.Follows c past t) (hsight : SameSight c line ahead ahead') :
    (skippedGo s ahead).Follows c past (skippedGo t ahead') := by
  refine ⟨⟨rfl, (h.setSkipGo false).note ?_⟩, hsight.separator s t⟩
  simp only [Note.records_lookAhead]

/-- **One line preserves it.** -/
theorem step_follows (h : s.Follows c past t) (hsight : SameSight c line ahead ahead') :
    (step c s line ahead).Follows c past (step c t line ahead') := by
  have hset := h.setSkipGo (isBatchLine line)
  unfold step
  dsimp only
  rw [h.skipGo]
  rw [h.header, h.definition] at hset ⊢
  by_cases hgo : (t.skipGo && isGo line)
  · rw [if_pos hgo, if_pos hgo]
    exact skippedGo_follows h hsight
  rw [if_neg hgo, if_neg hgo]
  by_cases hleft : (isBatchLine line || isLeftOut t.header.inBody line)
  · rw [if_pos hleft, if_pos hleft]
    exact ⟨⟨rfl, hset⟩, rfl⟩
  rw [if_neg hleft, if_neg hleft]
  cases create? line with
  | some create => exact ⟨startRoutine_follows hset create, rfl⟩
  | none =>
    dsimp only
    split_ifs with hempty
    · exact ⟨⟨rfl, hset⟩, rfl⟩
    · refine routineLine_follows hset ?_ hsight
      simp only [isLeftOut, Bool.or_eq_true, not_or] at hleft
      simpa using hleft.2.1.1.1.1

/-! ### All lines -/

theorem convertLines_of_fault {fault : Fault} {lines : List Text}
    (h : (step c s line lines).progress.fault = some fault) :
    convertLines c none s 0 (line :: lines) = (step c s line lines).progress := by
  rw [convertLines]
  simp only [checked]
  rcases hp : (step c s line lines).progress with ⟨s', fault'⟩
  rw [hp] at h
  cases h
  rfl

theorem convertLines_of_none {lines : List Text} (h : (step c s line lines).progress.fault = none) :
    convertLines c none s 0 (line :: lines) =
      convertLines c none (step c s line lines).progress.state (step c s line lines).taken lines := by
  rw [convertLines]
  simp only [checked]
  rcases hp : (step c s line lines).progress with ⟨s', fault'⟩
  rw [hp] at h
  cases h
  rfl

/-- Lines that have been taken already are passed over. -/
theorem convertLines_skip (c : Converter) (s : State) : ∀ (skip : ℕ) (lines : List Text),
    convertLines c none s skip lines = convertLines c none s 0 (lines.drop skip)
  | 0, _ => rfl
  | _ + 1, [] => by rw [List.drop_nil, convertLines, convertLines]
  | skip + 1, _ :: lines => by
    rw [convertLines, List.drop_succ_cons]
    exact convertLines_skip c s skip lines

/-- **All lines preserve it.** -/
theorem convertLines_follows : ∀ (lines : List Text) (skip : ℕ) {s t : State}, s.Follows c past t →
    (convertLines c none s skip lines).Follows c past (convertLines c none t skip lines)
  | [], _, _, _, h => by
    unfold convertLines
    exact finishRoutine_follows h
  | _ :: lines, skip + 1, _, _, h => by
    unfold convertLines
    exact convertLines_follows lines skip h
  | line :: lines, 0, s, t, h => by
    have hstep := step_follows h (.refl c line lines)
    have hfault := hstep.progress.fault
    cases ht : (step c t line lines).progress.fault with
    | some fault =>
      rw [ht] at hfault
      rw [convertLines_of_fault ht, convertLines_of_fault hfault]
      exact hstep.progress
    | none =>
      rw [ht] at hfault
      rw [convertLines_of_none ht, convertLines_of_none hfault, hstep.taken]
      exact convertLines_follows lines _ hstep.progress.state

/-! ### Several texts -/

theorem restart_follows {s : State} (h : CoherentColumns c s.columns) :
    s.restart.Follows c { written := s.written, skipped := s.skipped } {} :=
  ⟨rfl, rfl, rfl, rfl, rfl, rfl, rfl, rfl, h, coherentColumns_nil c⟩

theorem convertText_follows {s : State} (h : CoherentColumns c s.columns) (t : Text) :
    (convertText c s t).Follows c { written := s.written, skipped := s.skipped }
      (convertText c {} t) :=
  convertLines_follows _ 0 (restart_follows h)

/-- What a converter shows after a text: the converted text or the fault, the log, and how many
routines it has written and skipped so far. -/
def Progress.shown (level : Level) (p : Progress) : Except Fault Text × List Record × ℕ × ℕ :=
  (p.result, Note.shown level p.state.notes, p.state.written, p.state.skipped)

theorem Progress.Follows.shown {p q : Progress} {written skipped : ℕ}
    (h : p.Follows c { written, skipped } q) (level : Level) :
    p.shown level = (q.result, Note.shown level q.state.notes, written + q.state.written,
      skipped + q.state.skipped) := by
  have hrecords : Note.records p.state.notes = Note.records q.state.notes := h.state.records
  have houtput : p.state.output = q.state.output := h.state.output
  unfold Progress.shown Progress.result
  rw [h.fault, houtput, h.state.written, h.state.skipped, Note.shown_eq, Note.shown_eq, hrecords]

theorem convertTexts_after (level : Level) : ∀ (texts : List Text) (i : ℕ) {s : State},
    CoherentColumns c s.columns →
      (convertTexts c s texts)[i]?.map (Progress.shown level) = texts[i]?.map fun t =>
        ((convertText c {} t).result, Note.shown level (convertText c {} t).state.notes,
          s.written + ((texts.take (i + 1)).map fun u => (convertText c {} u).state.written).sum,
          s.skipped + ((texts.take (i + 1)).map fun u => (convertText c {} u).state.skipped).sum)
  | [], i, _, _ => rfl
  | t :: texts, 0, s, h => by
    have hfirst := (convertText_follows h t).shown level
    simpa [convertTexts] using hfirst
  | t :: texts, i + 1, s, h => by
    have hfirst := convertText_follows h t
    have hothers := convertTexts_after level texts i hfirst.state.left
    rw [hfirst.state.written, hfirst.state.skipped] at hothers
    simpa [convertTexts, Nat.add_assoc] using hothers

/-- **Texts given to one converter are converted independently of each other**: whatever was given
before, with a fault or not, a text comes to what a new converter makes of it, with the same log, and
the counts are added up. -/
theorem convertTexts_independent (c : Converter) (texts : List Text) (level : Level) (i : ℕ) :
    (convertTexts c {} texts)[i]?.map (Progress.shown level) = texts[i]?.map fun t =>
      ((convertText c {} t).result, Note.shown level (convertText c {} t).state.notes,
        ((texts.take (i + 1)).map fun u => (convertText c {} u).state.written).sum,
        ((texts.take (i + 1)).map fun u => (convertText c {} u).state.skipped).sum) := by
  have hall := convertTexts_after level texts i (s := {}) (coherentColumns_nil c)
  simpa only [Nat.zero_add] using hall

end Script

end SqlRoutine

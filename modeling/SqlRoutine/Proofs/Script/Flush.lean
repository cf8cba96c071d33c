import Mathlib.Data.List.Forall2
import SqlRoutine.Proofs.Body.Notes
import SqlRoutine.Proofs.Routine.Header
import SqlRoutine.Proofs.Script.Segments

/-! # Every routine is written once, in order

A routine is collected line by line in one place of the state, and leaves it when the next one starts
or the script ends: it is then written, skipped, or dropped because its body is blank. `started` are the
lines that start a routine and `collected` the routines as they stand when they leave. A conversion
without a fault **collects one routine for each line that starts one, and flushes each of them once**
(`convertText_flushes`).

A step that starts no routine is `Idle`: it neither writes nor counts. -/

namespace SqlRoutine.Script

open List Renaming

variable {create : Create} {d : Definition} {texts : List (List Text)} {ds kept : List Definition}
  {notes : List Note}

/-! ### Routines that are started and collected -/

/-- The routine that is being collected, if there is one. -/
def State.current (s : State) : List Definition :=
  if s.definition.name.isEmpty then [] else [s.definition]

/-- **The lines that start a routine** among those that are read; `skip` of them have been taken
already. -/
def started (c : Converter) (s : State) : (skip : ℕ) → List Text → List Create
  | _, [] => []
  | skip + 1, _ :: lines => started c s skip lines
  | 0, line :: lines =>
    let outcome := step c s line lines
    (create? line).toList ++ started c outcome.progress.state outcome.taken lines

/-- **The routines as they have been collected**: each up to the line that starts the next one, and the
last one up to the end. -/
def collected (c : Converter) (s : State) : (skip : ℕ) → List Text → List Definition
  | _, [] => s.current
  | skip + 1, _ :: lines => collected c s skip lines
  | 0, line :: lines =>
    let outcome := step c s line lines
    (if (create? line).isSome then s.current else []) ++
      collected c outcome.progress.state outcome.taken lines

/-- **The line starts the routine**: it has its name and kind, and is skipped if the list names it. -/
structure Create.Starts (c : Converter) (create : Create) (d : Definition) : Prop where
  name : d.name = c.profile.schema ++ '.' :: objectName (qualifiedName create.rest)
  sourceName : d.sourceName = objectName (qualifiedName create.rest)
  kind : d.kind = create.kind
  skip : c.profile.skips d.sourceName = .ok d.skip

/-! ### What is flushed -/

/-- The routine with tables and columns renamed in its body. -/
def renamed (c : Converter) (d : Definition) : Except Fault Definition :=
  (renamedBody c [] d.body).result.map fun body => { d with body }

/-- The record of a routine without a body. -/
def isNothingNote : Note → Bool
  | .record r => r.level == .debug && r.message.startsWith "Nothing to write for ".toList
  | .ranDry => false

/-- **The routines have been flushed** between the two states, in order and once each. -/
structure Flushes (c : Converter) (s t : State) (ds kept : List Definition)
    (texts : List (List Text)) : Prop where
  /-- Those that are not skipped are kept, with names changed. -/
  renames : List.Forall₂ (fun d d' => renamed c d = .ok d') (ds.filter (!·.skip)) kept
  /-- Those that have a body are written line by line. -/
  writes : List.Forall₂
    (fun (d : Definition) lines => d.lines c.profile.snakeCase c.profile.indent = .ok lines)
    (kept.filter (·.hasBody)) texts
  output : t.output = s.output ++ texts.flatMap fun lines => Text.join ['\n'] lines ++ ['\n', '\n']
  written : t.written = s.written + texts.length
  skipped : t.skipped = s.skipped + (ds.filter (·.skip)).length
  /-- Those that have no body are only recorded. -/
  nothing : t.notes.countP isNothingNote =
    s.notes.countP isNothingNote + (kept.filter (!·.hasBody)).length

variable {c : Converter} {s t u : State} {line : Text} {ahead : List Text}

theorem Flushes.trans {ds' kept' : List Definition} {texts' : List (List Text)}
    (h : Flushes c s t ds kept texts) (h' : Flushes c t u ds' kept' texts') :
    Flushes c s u (ds ++ ds') (kept ++ kept') (texts ++ texts') where
  renames := by
    rw [filter_append]
    exact rel_append h.renames h'.renames
  writes := by
    rw [filter_append]
    exact rel_append h.writes h'.writes
  output := by rw [h'.output, h.output, flatMap_append, append_assoc]
  written := by rw [h'.written, h.written, length_append, Nat.add_assoc]
  skipped := by rw [h'.skipped, h.skipped, filter_append, length_append, Nat.add_assoc]
  nothing := by rw [h'.nothing, h.nothing, filter_append, length_append, Nat.add_assoc]

/-- Every routine is skipped, written or recorded. -/
theorem Flushes.length_eq (h : Flushes c s t ds kept texts) :
    ds.length = texts.length + (ds.filter (·.skip)).length + (kept.filter (!·.hasBody)).length := by
  have hds := length_eq_length_filter_add (l := ds) (·.skip)
  have hkept := length_eq_length_filter_add (l := kept) (·.hasBody)
  have hrenamed := h.renames.length_eq
  have hwritten := h.writes.length_eq
  omega

/-! ### Writing a routine -/

theorem render_of_blank (h : d.hasBody = false) (snakeCase : Bool) (indent : Value) :
    d.render snakeCase indent = .ok [] := by
  unfold Definition.render Definition.lines
  rw [h, Bool.not_false, Bool.or_true, if_pos rfl]
  rfl

theorem render_of_hasBody (hname : d.name.isEmpty = false) (h : d.hasBody)
    (snakeCase : Bool) (indent : Value) :
    d.render snakeCase indent =
      (d.lines snakeCase indent).map fun lines => Text.join ['\n'] lines ++ ['\n', '\n'] := by
  unfold Definition.render Definition.lines
  rw [h, hname, Bool.not_true, Bool.or_self, if_neg Bool.false_ne_true]
  dsimp only
  cases d.argumentList indent _ with
  | error fault => rfl
  | ok head => simp [Except.map]

/-! ### Notes -/

theorem countP_isNothingNote_of_bodyNotes (h : Body.BodyNotes notes) :
    notes.countP isNothingNote = 0 := by
  rw [countP_eq_zero]
  intro n hn
  cases h n hn with
  | ranDry => decide
  | warning message => exact Bool.false_ne_true
  | leftOver t => exact Bool.false_ne_true

theorem countP_isNothingNote_of_headerNotes (h : Header.HeaderNotes notes) :
    notes.countP isNothingNote = 0 := by
  rw [countP_eq_zero]
  intro n hn
  cases h n hn with
  | ranDry => decide
  | unnamed t => exact Bool.false_ne_true

theorem countP_isNothingNote_renamePortions (r : Renaming) :
    ∀ (portions : List Portion) (cache : ColumnCache),
      (r.renamePortions cache portions).notes.countP isNothingNote = 0
  | [], _ => rfl
  | portion :: portions, cache => by
    have hfirst : (r.renamePortion cache portion).notes.countP isNothingNote = 0 := by
      cases portion with
      | kept lines => rfl
      | block lines =>
        unfold renamePortion renameBlock
        dsimp only
        split
        · rfl
        · unfold blockNotes
          split_ifs
          · rfl
          · rfl
    unfold renamePortions
    dsimp only
    split
    · exact hfirst
    · rw [countP_append, hfirst, countP_isNothingNote_renamePortions r portions]

theorem countP_isNothingNote_renamedBody (c : Converter) (cache : ColumnCache)
    (body : List Text) : (renamedBody c cache body).notes.countP isNothingNote = 0 := by
  unfold renamedBody
  split
  · rfl
  · exact countP_isNothingNote_renamePortions _ _ _

/-! ### Steps that flush nothing -/

/-- **Nothing is flushed** on the way from `s` to `t`, and the same routine is collected. -/
structure Idle (s t : State) : Prop where
  output : t.output = s.output
  written : t.written = s.written
  skipped : t.skipped = s.skipped
  columns : t.columns = s.columns
  nothing : t.notes.countP isNothingNote = s.notes.countP isNothingNote
  name : t.definition.name = s.definition.name
  sourceName : t.definition.sourceName = s.definition.sourceName
  kind : t.definition.kind = s.definition.kind
  skip : t.definition.skip = s.definition.skip

theorem Idle.trans (h : Idle s t) (h' : Idle t u) : Idle s u :=
  ⟨h'.output.trans h.output, h'.written.trans h.written, h'.skipped.trans h.skipped,
    h'.columns.trans h.columns, h'.nothing.trans h.nothing, h'.name.trans h.name,
    h'.sourceName.trans h.sourceName, h'.kind.trans h.kind, h'.skip.trans h.skip⟩

theorem Idle.flushes (h : Idle s t) : Flushes c s t [] [] [] :=
  ⟨.nil, .nil, by rw [h.output]; exact (append_nil _).symm, h.written, h.skipped, h.nothing⟩

theorem Idle.starts (h : Idle s t) {pending : List Create}
    (hs : List.Forall₂ (Create.Starts c) pending s.current) :
    List.Forall₂ (Create.Starts c) pending t.current := by
  unfold State.current at hs ⊢
  rw [h.name]
  split_ifs at hs ⊢
  · exact hs
  · cases hs with
    | cons hstart hnil =>
      cases hnil
      refine .cons ⟨h.name.trans hstart.name, h.sourceName.trans hstart.sourceName,
        h.kind.trans hstart.kind, ?_⟩ .nil
      rw [h.sourceName, h.skip]
      exact hstart.skip

theorem routineLine_idle (c : Converter) (s : State) (line : Text) (ahead : List Text) :
    Idle s (routineLine c s line ahead).progress.state := by
  have hheader := Header.step_keeps c.profile s.definition c.today s.header line ahead
  have hbody := Body.bodyNotes_step c.profile
    (Header.step c.profile c.today s.header s.definition line ahead).definition.name s.body line ahead
  have hheaderNotes := countP_isNothingNote_of_headerNotes hheader.notes
  have hbodyNotes := countP_isNothingNote_of_bodyNotes hbody
  obtain ⟨hname, hsource, hkind, hskip, -, -⟩ := hheader.routine
  unfold routineLine
  dsimp only
  split_ifs
  · refine ⟨rfl, rfl, rfl, rfl, ?_, hname, hsource, hkind, hskip⟩
    simp only [State.note, countP_append, hheaderNotes, Nat.add_zero]
  · refine ⟨rfl, rfl, rfl, rfl, ?_, hname, hsource, hkind, hskip⟩
    simp only [State.note, countP_append, hheaderNotes, hbodyNotes, Nat.add_zero]

/-- **A line that starts no routine flushes nothing.** -/
theorem step_idle (c : Converter) (s : State) (ahead : List Text) (h : create? line = none) :
    (step c s line ahead).progress.fault = none ∧ Idle s (step c s line ahead).progress.state := by
  have hset : ∀ b, Idle s { s with skipGo := b } := fun _ =>
    ⟨rfl, rfl, rfl, rfl, rfl, rfl, rfl, rfl, rfl⟩
  unfold step
  dsimp only
  rw [h]
  split_ifs
  · refine ⟨rfl, rfl, rfl, rfl, rfl, ?_, rfl, rfl, rfl, rfl⟩
    have hnotes := countP_isNothingNote_of_bodyNotes (Body.bodyNotes_lookAhead 1 ahead)
    simp only [skippedGo, State.note, countP_append, hnotes, Nat.add_zero]
  · exact ⟨rfl, hset _⟩
  · exact ⟨rfl, hset _⟩
  · refine ⟨?_, (hset _).trans (routineLine_idle c _ line ahead)⟩
    unfold routineLine
    dsimp only
    split_ifs <;> rfl

/-! ### Steps that flush a routine -/

/-- A routine without a body is recorded. -/
theorem writeText_of_blank (h : s.definition.hasBody = false) :
    writeText c s =
      ⟨(s.log .debug ("Nothing to write for ".toList ++ s.definition.sourceName)).clear, none⟩ := by
  have hnotes : writingNotes c s.definition = [] := by rw [writingNotes, h, if_neg Bool.false_ne_true]
  unfold writeText
  dsimp only [State.note]
  rw [render_of_blank h, hnotes, append_nil]

/-- A routine with a body is written. -/
theorem writeText_of_hasBody (hname : s.definition.name.isEmpty = false)
    (h : s.definition.hasBody) {lines : List Text}
    (hlines : s.definition.lines c.profile.snakeCase c.profile.indent = .ok lines) :
    writeText c s = ⟨({ s.note (writingNotes c s.definition) with
      output := s.output ++ (Text.join ['\n'] lines ++ ['\n', '\n'])
      written := s.written + 1 }).clear, none⟩ := by
  have hnil : Text.join ['\n'] lines ++ ['\n', '\n'] ≠ [] := by simp
  unfold writeText
  dsimp only [State.note]
  rw [render_of_hasBody hname h, hlines, Except.map]
  generalize Text.join ['\n'] lines ++ ['\n', '\n'] = text at hnil
  cases text with
  | nil => contradiction
  | cons first rest => rfl

theorem countP_isNothingNote_writingNotes (c : Converter) (d : Definition) :
    (writingNotes c d).countP isNothingNote = 0 := by
  unfold writingNotes
  split_ifs
  · rfl
  · rfl

theorem countP_isNothingNote_unbalancedNotes (s : State) :
    (unbalancedNotes s).countP isNothingNote = 0 := by
  unfold unbalancedNotes
  split_ifs
  · rfl
  · rfl

/-- **Writing flushes a routine** whose names have been changed. -/
theorem writeText_flushes (hd : renamed c d = .ok s.definition)
    (hskip : d.skip = false) (hname : s.definition.name.isEmpty = false)
    (h : (writeText c s).fault = none) :
    ∃ texts, Flushes c s (writeText c s).state [d] [s.definition] texts := by
  have hkept : List.Forall₂ (fun d d' => renamed c d = .ok d') ([d].filter (!·.skip))
      [s.definition] := by
    rw [filter_cons_of_pos (by simp [hskip])]
    exact .cons hd .nil
  have hskipped : ([d].filter (·.skip)).length = 0 := by simp [hskip]
  cases hbody : s.definition.hasBody with
  | false =>
    refine ⟨[], hkept, by simp [hbody], ?_, ?_, ?_, ?_⟩
    · rw [writeText_of_blank hbody]
      exact (append_nil _).symm
    · rw [writeText_of_blank hbody]
      rfl
    · rw [writeText_of_blank hbody, hskipped]
      rfl
    · rw [writeText_of_blank hbody, filter_cons_of_pos (by simp [hbody])]
      exact countP_append
  | true =>
    cases hlines : s.definition.lines c.profile.snakeCase c.profile.indent with
    | error fault =>
      unfold writeText at h
      dsimp only [State.note] at h
      rw [render_of_hasBody hname hbody, hlines] at h
      cases h
    | ok lines =>
      rw [writeText_of_hasBody hname hbody hlines]
      refine ⟨[lines], hkept, ?_, ?_, rfl, ?_, ?_⟩
      · rw [filter_cons_of_pos hbody]
        exact .cons hlines .nil
      · rw [flatMap_singleton]
        rfl
      · rw [hskipped]
        rfl
      · rw [filter_cons_of_neg (by simp [hbody])]
        exact countP_append.trans (by rw [countP_isNothingNote_writingNotes]; rfl)

theorem writeText_columns (c : Converter) (s : State) : (writeText c s).state.columns = s.columns := by
  unfold writeText
  dsimp only
  split <;> rfl

/-- The state in which a routine is written that is not skipped. -/
def State.withBody (c : Converter) (s : State) (body : List Text) : State :=
  let found := renamedBody c s.columns s.definition.body
  { s with
    definition := { s.definition with body }
    columns := found.columns
    notes := s.notes ++ (unbalancedNotes s ++ found.notes) }

theorem finishRoutine_of_kept (hname : s.definition.name.isEmpty = false)
    (hskip : s.definition.skip = false) {body : List Text}
    (h : (renamedBody c s.columns s.definition.body).result = .ok body) :
    finishRoutine c s = writeText c (s.withBody c body) := by
  unfold finishRoutine
  dsimp only
  rw [hname, if_neg Bool.false_ne_true, hskip, if_neg Bool.false_ne_true, h]
  rfl

theorem withBody_flushes (c : Converter) (s : State) (body : List Text) :
    Flushes c s (s.withBody c body) [] [] [] := by
  refine ⟨.nil, .nil, (append_nil _).symm, rfl, rfl, ?_⟩
  rw [State.withBody, countP_append, countP_append, countP_isNothingNote_unbalancedNotes,
    countP_isNothingNote_renamedBody]
  rfl

/-- **Finishing flushes the routine that is being collected**, if there is one. -/
theorem finishRoutine_flushes (hcolumns : CoherentColumns c s.columns)
    (h : (finishRoutine c s).fault = none) :
    (∃ kept texts, Flushes c s (finishRoutine c s).state s.current kept texts) ∧
      CoherentColumns c (finishRoutine c s).state.columns := by
  cases hname : s.definition.name.isEmpty with
  | true =>
    rw [finishRoutine, hname, if_pos rfl, State.current, hname, if_pos rfl]
    exact ⟨⟨[], [], .nil, .nil, (append_nil _).symm, rfl, rfl, rfl⟩, hcolumns⟩
  | false =>
    rw [State.current, hname, if_neg Bool.false_ne_true]
    cases hskip : s.definition.skip with
    | true =>
      rw [finishRoutine, hname, if_neg Bool.false_ne_true, hskip, if_pos rfl]
      refine ⟨⟨[], [], by simp [hskip], .nil, (append_nil _).symm, rfl, ?_, ?_⟩, hcolumns⟩
      · rw [filter_cons_of_pos hskip]
        rfl
      · exact countP_append
    | false =>
      obtain ⟨hresult, -, hcoherent, -⟩ :=
        renamedBody_alike hcolumns (coherentColumns_nil c) s.definition.body
      cases hbody : (renamedBody c s.columns s.definition.body).result with
      | error fault =>
        rw [finishRoutine, hname, if_neg Bool.false_ne_true, hskip, if_neg Bool.false_ne_true] at h
        dsimp only at h
        rw [hbody] at h
        cases h
      | ok body =>
        rw [finishRoutine_of_kept hname hskip hbody] at h ⊢
        have hrenamed : renamed c s.definition = .ok (s.withBody c body).definition := by
          rw [renamed, ← hresult, hbody]
          rfl
        obtain ⟨texts, hflushes⟩ := writeText_flushes hrenamed hskip hname h
        refine ⟨⟨_, texts, (withBody_flushes c s body).trans hflushes⟩, ?_⟩
        rw [writeText_columns]
        exact hcoherent

/-- The routine that a line starts. -/
def Create.definition (c : Converter) (create : Create) (skip : Bool) : Definition where
  name := c.profile.schema ++ '.' :: objectName (qualifiedName create.rest)
  sourceName := objectName (qualifiedName create.rest)
  kind := create.kind
  skip

/-- The state after a line that starts a routine. -/
def State.begin (c : Converter) (s : State) (create : Create) (skip : Bool) : State :=
  ({ s with definition := create.definition c skip, header := {}, body := {} }).log .debug
    ("Found ".toList ++ create.kind.lowerKeyword ++ ' ' :: qualifiedName create.rest)

theorem startRoutine_of_none (h : (startRoutine c s create).fault = none) :
    ∃ skip, c.profile.skips (objectName (qualifiedName create.rest)) = .ok skip ∧
      (finishRoutine c s).fault = none ∧
      startRoutine c s create = ⟨(finishRoutine c s).state.begin c create skip, none⟩ := by
  unfold startRoutine at h ⊢
  rcases hfinish : finishRoutine c s with ⟨t, _ | fault⟩
  all_goals rw [hfinish] at h
  · cases hskip : c.profile.skips (objectName (qualifiedName create.rest)) with
    | error fault =>
      dsimp only at h
      rw [hskip] at h
      cases h
    | ok skip =>
      refine ⟨skip, rfl, rfl, ?_⟩
      dsimp only
      rw [hskip]
      rfl
  · cases h

theorem begin_flushes (c : Converter) (s : State) (create : Create) (skip : Bool) :
    Flushes c s (s.begin c create skip) [] [] [] :=
  ⟨.nil, .nil, (append_nil _).symm, rfl, rfl,
    countP_append.trans (by cases create.kind <;> rfl)⟩

theorem current_begin (c : Converter) (s : State) (create : Create) (skip : Bool) :
    (s.begin c create skip).current = [create.definition c skip] := by
  have hname : (create.definition c skip).name.isEmpty = false := by simp [Create.definition]
  unfold State.current
  exact if_neg (Bool.eq_false_iff.mp hname)

/-- **A line that starts a routine flushes the one before it.** -/
theorem startRoutine_flushes (hcolumns : CoherentColumns c s.columns)
    (h : (startRoutine c s create).fault = none) :
    (∃ kept texts, Flushes c s (startRoutine c s create).state s.current kept texts) ∧
      CoherentColumns c (startRoutine c s create).state.columns ∧
      List.Forall₂ (Create.Starts c) [create] (startRoutine c s create).state.current := by
  obtain ⟨skip, hskip, hfinish, hstart⟩ := startRoutine_of_none h
  obtain ⟨⟨kept, texts, hflushes⟩, hcoherent⟩ := finishRoutine_flushes hcolumns hfinish
  rw [hstart]
  have hbegin := hflushes.trans (begin_flushes c _ create skip)
  rw [append_nil, append_nil, append_nil] at hbegin
  refine ⟨⟨kept, texts, hbegin⟩, hcoherent, ?_⟩
  rw [current_begin]
  exact .cons ⟨rfl, rfl, rfl, hskip⟩ .nil

/-! ### All lines -/

/-- **A conversion without a fault collects one routine for each line that starts one, in order, and
flushes each of them once.** -/
theorem convertLines_flushes : ∀ (lines : List Text) (skip : ℕ) {s : State} {pending : List Create},
    CoherentColumns c s.columns → List.Forall₂ (Create.Starts c) pending s.current →
    (convertLines c none s skip lines).fault = none →
    List.Forall₂ (Create.Starts c) (pending ++ started c s skip lines) (collected c s skip lines) ∧
      ∃ kept texts, Flushes c s (convertLines c none s skip lines).state (collected c s skip lines) kept
        texts
  | [], skip, s, pending, hcolumns, hpending, h => by
    rw [convertLines] at h ⊢
    rw [started, collected, append_nil]
    exact ⟨hpending, (finishRoutine_flushes hcolumns h).1⟩
  | _ :: lines, skip + 1, s, pending, hcolumns, hpending, h => by
    rw [convertLines] at h ⊢
    rw [started, collected]
    exact convertLines_flushes lines skip hcolumns hpending h
  | line :: lines, 0, s, pending, hcolumns, hpending, h => by
    have hfault : (step c s line lines).progress.fault = none := by
      cases hstep : (step c s line lines).progress.fault with
      | none => rfl
      | some fault =>
        rw [convertLines_of_fault hstep, hstep] at h
        cases h
    rw [convertLines_of_none hfault] at h ⊢
    rw [started, collected]
    cases hcreate : create? line with
    | none =>
      have hidle := (step_idle c s lines hcreate).2
      rw [← hidle.columns] at hcolumns
      obtain ⟨hstarts, kept, texts, hothers⟩ :=
        convertLines_flushes lines _ hcolumns (hidle.starts hpending) h
      exact ⟨hstarts, kept, texts, hidle.flushes.trans hothers⟩
    | some create =>
      have hstep : step c s line lines = ⟨startRoutine c { s with skipGo := false } create, 0⟩ :=
        step_of_create? hcreate s
      rw [hstep] at hfault h ⊢
      obtain ⟨⟨kept, texts, hflushes⟩, hcoherent, hcurrent⟩ :=
        startRoutine_flushes (s := { s with skipGo := false }) hcolumns hfault
      obtain ⟨hstarts, kept', texts', hothers⟩ := convertLines_flushes lines 0 hcoherent hcurrent h
      refine ⟨rel_append hpending hstarts, kept ++ kept', texts ++ texts', ?_⟩
      exact Flushes.trans ⟨hflushes.renames, hflushes.writes, hflushes.output, hflushes.written,
        hflushes.skipped, hflushes.nothing⟩ hothers

/-! ### A text -/

/-- The state in which earlier texts leave a converter. -/
def stateAfter (c : Converter) (earlier : List Text) : State :=
  earlier.foldl (fun s t => (convertText c s t).state) {}

theorem coherentColumns_stateAfter (c : Converter) (earlier : List Text) :
    CoherentColumns c (stateAfter c earlier).columns := by
  exact List.foldlRecOn (motive := fun s : State => CoherentColumns c s.columns) earlier _
    (coherentColumns_nil c) fun s hs t _ => (convertText_follows hs t).state.left

/-- **Every routine that is started is flushed exactly once, in order.** Whatever was converted before,
a text without a fault is converted so: the lines that start a routine and the collected routines
correspond one to one, and the routines are flushed one after the other. So the lines that start a
routine are as many as routines are written, skipped and recorded without a body. -/
theorem convertText_flushes (c : Converter) (earlier : List Text) (t : Text)
    (h : (convertText c (stateAfter c earlier) t).fault = none) :
    let s := stateAfter c earlier
    let p := convertText c s t
    let lines := (Source.ofText t).lines
    List.Forall₂ (Create.Starts c) (started c s.restart 0 lines) (collected c s.restart 0 lines) ∧
      (∃ kept texts, Flushes c s.restart p.state (collected c s.restart 0 lines) kept texts) ∧
      (started c s.restart 0 lines).length = (p.state.written - s.written) +
        (p.state.skipped - s.skipped) + p.state.notes.countP isNothingNote := by
  intro s p lines
  obtain ⟨hstarts, kept, texts, hflushes⟩ := convertLines_flushes (c := c) (s := s.restart) lines 0
    (coherentColumns_stateAfter c earlier) .nil h
  refine ⟨hstarts, ⟨kept, texts, hflushes⟩, ?_⟩
  have hwritten : p.state.written = s.written + texts.length := hflushes.written
  have hskipped : p.state.skipped = s.skipped + _ := hflushes.skipped
  have hnothing : p.state.notes.countP isNothingNote = 0 + _ := hflushes.nothing
  have hall := hflushes.length_eq
  rw [← hstarts.length_eq, List.nil_append] at hall
  omega

/-- A routine to be skipped, one without a body, and one that is written. -/
def threeRoutines : Text :=
  "CREATE PROC OLD\nBreak\nALTER PROC [dbo].[Empty]\nAS\nCREATE FUNCTION One\nAS\nReturn 1\n".toList

theorem convertText_flushes_threeRoutines :
    let c : Converter := ⟨{ Profile.standard with skipped := .ok ["old".toList] }, none, ⟨2025, 3, 9⟩⟩
    let p := convertText c (stateAfter c []) threeRoutines
    (p.fault = none ∧ p.state.written = 1 ∧ p.state.skipped = 1 ∧
      p.state.notes.countP isNothingNote = 1) ∧
      (started c (stateAfter c []).restart 0 (Source.ofText threeRoutines).lines).length = 3 := by
  intro c p
  have hrun : p.fault = none ∧ p.state.written = 1 ∧ p.state.skipped = 1 ∧
      p.state.notes.countP isNothingNote = 1 := by
    decide +kernel
  refine ⟨hrun, ?_⟩
  obtain ⟨hfault, hwritten, hskipped, hnothing⟩ := hrun
  have hcount := (convertText_flushes c [] threeRoutines hfault).2.2
  rw [hcount, hwritten, hskipped, hnothing]
  rfl

end SqlRoutine.Script

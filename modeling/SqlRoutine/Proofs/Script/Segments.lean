import SqlRoutine.Proofs.Script.Past
import SqlRoutine.Proofs.Text.Scan

/-! # A script is converted segment by segment

A script may be cut after a batch separator, before a line that starts a routine. The two parts are
converted as if each stood alone, and the results are put one after the other
(`convertText_append`).

Up to the cut the two runs see the same, because **a line that starts a routine is unrelated** to what
comes before it (`unrelated_of_create?`), and a batch separator takes no part in a routine. At the cut
the routine is written, as it is at the end of a script. After it nothing is left but the past. -/

namespace SqlRoutine.Script

open Body Text
open List hiding splitOn

variable {lines : List Text} {s : State} {a line : Text}

/-! ### Lines that start a routine -/

/-- A line that starts a routine has one of two first words. -/
theorem keyword?_of_create? (h : (create? line).isSome) :
    (∃ rest, keyword? "CREATE".toList line = some rest) ∨
      ∃ rest, keyword? "ALTER".toList line = some rest := by
  obtain ⟨create, hcreate⟩ := Option.isSome_iff_exists.mp h
  obtain ⟨t, ht, -⟩ := exists_of_findSome?_eq_some hcreate
  simp only [afterCreate, mem_append, Option.mem_toList, Option.bind_eq_some_iff] at ht
  rcases ht with (⟨rest, hrest, -⟩ | ⟨rest, hrest, -⟩) | ⟨_, ⟨_, ⟨_, ⟨rest, hrest, -⟩, -⟩, -⟩, -⟩
  · exact .inl ⟨rest, hrest⟩
  · exact .inr ⟨rest, hrest⟩
  · exact .inl ⟨rest, hrest⟩

theorem keyword?_first_two {k l : Char} {ks t rest : Text}
    (h : keyword? (k :: l :: ks) t = some rest) :
    ∃ a b t', t = a :: b :: t' ∧ letterKey a = letterKey k ∧ letterKey b = letterKey l := by
  obtain ⟨m, hm, rfl⟩ := keyword?_eq_some_iff.mp h
  rcases m with _ | ⟨a, _ | ⟨b, m⟩⟩
  · simp [Spells] at hm
  · simp [Spells] at hm
  · simp only [Spells, map_cons, List.cons.injEq] at hm
    exact ⟨a, b, m ++ rest, rfl, hm.1, hm.2.1⟩

/-- The first two characters of a line that starts a routine. Neither letter has a form beyond ASCII. -/
theorem create?_first_two (h : (create? line).isSome) :
    ∃ a b t, line = a :: b :: t ∧
      ((a = 'c' ∨ a = 'C') ∧ (b = 'r' ∨ b = 'R') ∨ (a = 'a' ∨ a = 'A') ∧ (b = 'l' ∨ b = 'L')) := by
  rcases keyword?_of_create? h with ⟨rest, hrest⟩ | ⟨rest, hrest⟩
  · obtain ⟨a, b, t, rfl, ha, hb⟩ := keyword?_first_two hrest
    exact ⟨a, b, t, rfl, .inl ⟨eq_of_letterKey (k := 'c') rfl ha, eq_of_letterKey (k := 'r') rfl hb⟩⟩
  · obtain ⟨a, b, t, rfl, ha, hb⟩ := keyword?_first_two hrest
    exact ⟨a, b, t, rfl, .inr ⟨eq_of_letterKey (k := 'a') rfl ha, eq_of_letterKey (k := 'l') rfl hb⟩⟩

/-- The same without blanks around the line and in capitals. -/
theorem create?_trim (h : (create? line).isSome) :
    line.trimStart = line ∧ line.isBlank = false ∧ isObjectHeading line = false ∧
      ∃ t, line.trim.upper = 'C' :: 'R' :: t ∨ line.trim.upper = 'A' :: 'L' :: t := by
  obtain ⟨a, b, t, rfl, hab⟩ := create?_first_two h
  have ha : isBlank a = false := by
    rcases hab with ⟨rfl | rfl, -⟩ | ⟨rfl | rfl, -⟩ <;> rfl
  have hb : isBlank b = false := by
    rcases hab with ⟨-, rfl | rfl⟩ | ⟨-, rfl | rfl⟩ <;> rfl
  have hstart := trimStart_of_head (t := b :: t) ha
  have htrim : trim (a :: b :: t) = a :: b :: trimEnd t := by
    unfold trim
    rw [hstart, trimEnd_cons ha, trimEnd_cons hb]
  refine ⟨hstart, by simp [ha], ?_, upper (trimEnd t), ?_⟩
  · unfold isObjectHeading
    rw [htrim]
    rcases hab with ⟨rfl | rfl, -⟩ | ⟨rfl | rfl, -⟩ <;> rfl
  · rw [htrim]
    rcases hab with ⟨rfl | rfl, rfl | rfl⟩ | ⟨rfl | rfl, rfl | rfl⟩
    all_goals first | exact .inl rfl | exact .inr rfl

/-- No other keyword stands at the start of a line that starts a routine. -/
theorem keyword?_none_of_create? {keyword : Text} (h : (create? line).isSome)
    (hcreate : differ "CREATE".toList keyword)
    (halter : differ "ALTER".toList keyword) : keyword? keyword line.trimStart = none := by
  rw [(create?_trim h).1]
  rcases keyword?_of_create? h with ⟨rest, hrest⟩ | ⟨rest, hrest⟩
  · exact keyword?_of_differ hcreate hrest
  · exact keyword?_of_differ halter hrest

theorem isGo_of_create? (h : (create? line).isSome) : isGo line = false := by
  unfold isGo
  rw [keyword?_none_of_create? h rfl rfl]

theorem isBatchLine_of_create? (h : (create? line).isSome) : isBatchLine line = false := by
  have hset : keyword? "SET".toList line.trimStart = none := keyword?_none_of_create? h rfl rfl
  have hgrant : keyword? "GRANT".toList line.trimStart = none :=
    keyword?_none_of_create? h rfl rfl
  simp only [isBatchLine, isBatchOption, setOption?, word?, hset, hgrant, Option.bind_none,
    Option.isSome_none, Bool.or_self]

theorem isLeftOut_of_create? (h : (create? line).isSome) (inBody : Bool) :
    isLeftOut inBody line = false := by
  obtain ⟨-, -, hheading, t, hupper⟩ := create?_trim h
  have has : isAs line = false := by
    unfold isAs
    rcases hupper with hupper | hupper <;> rw [hupper] <;> rfl
  have hoption : isRoutineOption line = false := by
    unfold isRoutineOption
    rw [keyword?_none_of_create? h rfl rfl]
    rfl
  have hbinding : isSchemaBinding line = false := by
    unfold isSchemaBinding
    rw [keyword?_none_of_create? h rfl rfl]
    rfl
  simp only [isLeftOut, isGo_of_create? h, hoption, hbinding, hheading, has, Bool.or_self,
    Bool.false_and]

/-- **A line that starts a routine is unrelated to the lines before it.** -/
theorem unrelated_of_create? (h : (create? line).isSome) : Unrelated line := by
  obtain ⟨-, -, -, t, hupper⟩ := create?_trim h
  refine ⟨?_, ?_, ?_⟩
  · unfold isBegin word?
    rw [keyword?_none_of_create? h rfl rfl]
    rfl
  · unfold isElse startsWithWord word?
    rw [keyword?_none_of_create? h rfl rfl]
    rfl
  · unfold fromAhead
    dsimp only
    rcases hupper with hupper | hupper <;> rw [hupper] <;> rfl

/-! ### The lines of a text -/

theorem splitOn_ne_nil (sep : Char) (t : Text) : t.splitOn sep ≠ [] := by
  cases t with
  | nil => simp [splitOn]
  | cons c cs =>
    unfold splitOn
    split_ifs with hsep
    · exact cons_ne_nil _ _
    · split <;> exact cons_ne_nil _ _

theorem splitOn_append (sep : Char) (a b : Text) :
    splitOn sep (a ++ sep :: b) = splitOn sep a ++ splitOn sep b := by
  induction a with
  | nil => simp [splitOn]
  | cons c cs ih =>
    rw [cons_append, splitOn, splitOn, ih]
    split_ifs with hsep
    · rfl
    · cases hcs : splitOn sep cs with
      | nil => exact absurd hcs (splitOn_ne_nil sep cs)
      | cons piece pieces => rfl

theorem physicalLines_append (a b : Text) :
    physicalLines (a ++ '\n' :: b) = physicalLines (a ++ ['\n']) ++ physicalLines b := by
  obtain ⟨pieces, last, hb⟩ := eq_nil_or_concat (splitOn '\n' b) |>.resolve_left
    (splitOn_ne_nil '\n' b)
  unfold physicalLines
  rw [splitOn_append, splitOn_append, hb]
  cases last with
  | nil => simp [splitOn]
  | cons c cs => simp [splitOn]

theorem ofText_append (ha : a.getLast? = some '\n') (b : Text) :
    (Source.ofText (a ++ b)).lines = (Source.ofText a).lines ++ (Source.ofText b).lines := by
  obtain ⟨a, rfl⟩ := getLast?_eq_some_iff.mp ha
  rw [append_assoc, singleton_append]
  simp only [Source.ofText, LineSource.ofLines, LineSource.remaining, nil_append,
    physicalLines_append a b, map_append]

/-! ### Up to the cut -/

/-- The lines end with a batch separator, if there are any. -/
def EndInSeparator (lines : List Text) : Prop := ∀ last ∈ lines.getLast?, isGo last

theorem EndInSeparator.tail (h : EndInSeparator (line :: lines)) : EndInSeparator lines := by
  intro last hlast
  cases lines with
  | nil => simp at hlast
  | cons next lines => exact h last (by rwa [getLast?_cons_cons])

theorem EndInSeparator.noLastElse (h : EndInSeparator lines) : NoLastElse lines := by
  intro last hlast
  have hgo := h last hlast
  unfold isGo at hgo
  cases hkey : keyword? "GO".toList last.trimStart with
  | none => rw [hkey] at hgo; cases hgo
  | some rest =>
    unfold isElse startsWithWord word?
    rw [keyword?_of_differ (l := "Else".toList) rfl hkey]
    rfl

variable {c : Converter} {first line : Text} {ahead others : List Text}

/-- **Before the cut a line cannot tell what comes after it.** -/
theorem sameSight_append (hfirst : (create? first).isSome)
    (hend : EndInSeparator (line :: ahead)) : SameSight c line ahead (ahead ++ first :: others) := by
  have hahead : isGo line = false → ahead ≠ [] := by
    rintro hgo rfl
    rw [hend line rfl] at hgo
    cases hgo
  refine ⟨fun hgo s d => ?_, fun hgo name s => ?_, fun s t => ?_⟩
  · obtain ⟨next, rest, rfl⟩ := exists_cons_of_ne_nil (hahead hgo)
    exact Header.step_cons ..
  · refine step_append (n := 0) (.inr ⟨?_, hend.tail.noLastElse⟩) (hahead hgo) s line
    rintro next ⟨⟩
    exact unrelated_of_create? hfirst
  · cases ahead with
    | nil => simp [skippedGo, (create?_trim hfirst).2.1]
    | cons next rest => rfl

theorem step_taken_le (c : Converter) (s : State) (line : Text) (ahead : List Text) :
    (step c s line ahead).taken ≤ ahead.length := by
  have hseparator : ∀ s, (skippedGo s ahead).taken ≤ ahead.length := by
    intro s
    cases ahead with
    | nil => exact Nat.zero_le _
    | cons next rest =>
      simp only [skippedGo, length_cons]
      split_ifs <;> omega
  have hroutine : ∀ s, (routineLine c s line ahead).taken ≤ ahead.length := by
    intro s
    simp only [routineLine]
    split_ifs with hconsumed
    · exact (Header.step_taken_le ..).trans (Nat.min_le_right ..)
    · exact (Body.step_taken_le ..).trans (Nat.min_le_right ..)
  unfold step
  dsimp only
  split_ifs with hgo hleft
  · exact hseparator s
  · exact Nat.zero_le _
  · cases create? line with
    | some create => exact Nat.zero_le _
    | none => exact Nat.zero_le _
  · cases create? line with
    | some create => exact Nat.zero_le _
    | none => exact hroutine _

/-- The converter comes to the cut as it comes to the end of the part before it, if no fault keeps
it from that. -/
theorem convertLines_cut (others : List Text) (hfirst : (create? first).isSome) :
    ∀ (lines : List Text) (skip : ℕ) {s t : State}, EndInSeparator lines → skip ≤ lines.length → s.Follows c {} t →
      (convertLines c none s skip lines).fault = none →
      ∃ s' t', s'.Follows c {} t' ∧ convertLines c none s skip lines = finishRoutine c s' ∧
        convertLines c none t skip (lines ++ first :: others) =
          convertLines c none t' 0 (first :: others)
  | [], skip, s, t, _, hskip, h, _ => by
    obtain rfl := Nat.le_zero.mp hskip
    exact ⟨s, t, h, by rw [convertLines], rfl⟩
  | _ :: lines, skip + 1, s, t, hend, hskip, h, hfault => by
    rw [convertLines] at hfault ⊢
    rw [cons_append, convertLines]
    exact convertLines_cut others hfirst lines skip hend.tail (Nat.le_of_succ_le_succ hskip) h hfault
  | line :: lines, 0, s, t, hend, _, h, hfault => by
    have hsight : SameSight c line lines (lines ++ first :: others) := sameSight_append hfirst hend
    have hstep := step_follows h hsight
    have hfault' := hstep.progress.fault
    cases hs : (step c s line lines).progress.fault with
    | some fault =>
      rw [convertLines_of_fault hs, hs] at hfault
      cases hfault
    | none =>
      rw [hs] at hfault'
      rw [convertLines_of_none hs] at hfault ⊢
      rw [cons_append, convertLines_of_none hfault'.symm, ← hstep.taken]
      exact convertLines_cut others hfirst lines _ hend.tail (step_taken_le c s line lines)
        hstep.progress.state hfault

/-! ### After the cut -/

theorem finishRoutine_setSkipGo (c : Converter) (s : State) (b : Bool) :
    finishRoutine c { s with skipGo := b } =
      ⟨{ (finishRoutine c s).state with skipGo := b }, (finishRoutine c s).fault⟩ := by
  unfold finishRoutine
  dsimp only
  split_ifs with hempty hskip
  · rfl
  · rfl
  · cases (renamedBody c s.columns s.definition.body).result with
    | error fault => rfl
    | ok body =>
      unfold writeText
      dsimp only [State.note]
      split <;> rfl

theorem step_of_create? {create : Create} (h : create? line = some create) (s : State) :
    step c s line ahead = ⟨startRoutine c { s with skipGo := false } create, 0⟩ := by
  have hsome : (create? line).isSome := by rw [h]; rfl
  unfold step
  simp only [isGo_of_create? hsome, isBatchLine_of_create? hsome, isLeftOut_of_create? hsome, h,
    Bool.and_false, Bool.or_self, Bool.false_eq_true, if_false]

/-- A routine that is started after another one has been written starts like the first one. -/
theorem startRoutine_follows_new {create : Create}
    (hcolumns : CoherentColumns c (finishRoutine c s).state.columns)
    (hfinish : (finishRoutine c s).fault = none) (hstart : (startRoutine c {} create).fault = none) :
    (startRoutine c { s with skipGo := false } create).Follows c (finishRoutine c s).state.past
      (startRoutine c {} create) := by
  have hnew : finishRoutine c {} = ⟨{}, none⟩ := rfl
  unfold startRoutine at hstart ⊢
  rw [hnew] at hstart ⊢
  rw [finishRoutine_setSkipGo c s false, hfinish]
  dsimp only at hstart ⊢
  cases hskips : c.profile.skips (objectName (qualifiedName create.rest)) with
  | error fault =>
    rw [hskips] at hstart
    cases hstart
  | ok skip =>
    refine ⟨rfl, State.Follows.log ?_ _ _⟩
    exact ⟨rfl, rfl, rfl, rfl, (append_nil _).symm, rfl, rfl, (append_nil _).symm,
      hcolumns, coherentColumns_nil c⟩

/-- **From the cut on the lines are converted like a script of their own.** -/
theorem convertLines_follows_new (hfirst : (create? first).isSome)
    (hcolumns : CoherentColumns c (finishRoutine c s).state.columns)
    (hfinish : (finishRoutine c s).fault = none)
    (hothers : (convertLines c none {} 0 (first :: others)).fault = none) :
    (convertLines c none s 0 (first :: others)).Follows c (finishRoutine c s).state.past
      (convertLines c none {} 0 (first :: others)) := by
  obtain ⟨create, hcreate⟩ := Option.isSome_iff_exists.mp hfirst
  have hstep : ∀ s, step c s first others =
      ⟨startRoutine c { s with skipGo := false } create, 0⟩ := step_of_create? hcreate
  have hnew : (step c {} first others).progress.fault = none := by
    cases hfault : (step c {} first others).progress.fault with
    | none => rfl
    | some fault =>
      rw [convertLines_of_fault hfault, hfault] at hothers
      cases hothers
  have hstart := startRoutine_follows_new hcolumns hfinish (by rw [hstep] at hnew; exact hnew)
  have hold : (step c s first others).progress.fault = none := by
    rw [hstep] at hnew ⊢
    exact hstart.fault.trans hnew
  rw [convertLines_of_none hnew, convertLines_of_none hold, hstep, hstep]
  exact convertLines_follows others 0 hstart.state

/-! ### The two parts of a script -/

/-- The text consists of complete lines, and the last of them is a batch separator. -/
def endsInSeparator (t : Text) : Bool :=
  t.getLast? == some '\n' && (Source.ofText t).lines.getLast?.any isGo

/-- The first line of the text starts a routine. -/
def startsWithRoutine (t : Text) : Bool :=
  (Source.ofText t).lines.head?.any fun line => (create? line).isSome

theorem past_eq {t : State} (h : s.Follows c {} t) : t.past = s.past := by
  simp only [State.past, h.output, h.written, h.skipped, h.records, nil_append, Nat.zero_add]

theorem Progress.result_eq_ok_iff {p : Progress} {text : Text} :
    p.result = .ok text ↔ p.fault = none ∧ p.state.output = text := by
  unfold Progress.result
  cases p.fault with
  | none => simp
  | some fault => simp

theorem convertText_follows_first {b : Text} (ha : endsInSeparator a)
    (hb : startsWithRoutine b) (hfa : (convertText c {} a).fault = none)
    (hfb : (convertText c {} b).fault = none) :
    (convertText c {} (a ++ b)).Follows c (convertText c {} a).state.past (convertText c {} b) := by
  simp only [endsInSeparator, Bool.and_eq_true, beq_iff_eq] at ha
  obtain ⟨hlast, hgo⟩ := ha
  obtain ⟨go, hgoLast, hgo⟩ := (Option.any_eq_true _ _).mp hgo
  obtain ⟨first, hhead, hfirst⟩ := (Option.any_eq_true _ _).mp hb
  obtain ⟨others, hothers⟩ := head?_eq_some_iff.mp hhead
  have hend : EndInSeparator (Source.ofText a).lines := by
    intro last hmem
    rw [Option.mem_def, hgoLast] at hmem
    exact Option.some.inj hmem ▸ hgo
  have hnew : State.Follows c {} {} {} := restart_follows (s := {}) (coherentColumns_nil c)
  obtain ⟨s, t, hfollows, hcut, hlong⟩ := convertLines_cut others hfirst
    (Source.ofText a).lines 0 hend (Nat.zero_le _) hnew hfa
  have hfinish := finishRoutine_follows hfollows
  have ha : convertText c {} a = finishRoutine c s := hcut
  have hb : convertText c {} b = convertLines c none {} 0 (first :: others) := by
    rw [← hothers]; rfl
  have hab : convertText c {} (a ++ b) = convertLines c none t 0 (first :: others) := by
    rw [← hlong, ← hothers, ← ofText_append hlast]; rfl
  rw [ha] at hfa ⊢
  rw [hb] at hfb ⊢
  rw [hab, ← past_eq hfinish.state]
  exact convertLines_follows_new hfirst hfinish.state.right (hfinish.fault.symm.trans hfa) hfb

/-- **A script is converted segment by segment.** If a script is cut after a batch separator and
before a line that starts a routine, and both parts are converted without a fault, then so is the
whole: the texts and the logs are put one after the other, and the counts are added up. -/
theorem convertText_append (c : Converter) (a b : Text) {outA outB : Text}
    (ha : endsInSeparator a = true) (hb : startsWithRoutine b = true)
    (hoka : (convertText c {} a).result = .ok outA) (hokb : (convertText c {} b).result = .ok outB) :
    (convertText c {} (a ++ b)).result = .ok (outA ++ outB) ∧
      (convertText c {} (a ++ b)).state.written =
        (convertText c {} a).state.written + (convertText c {} b).state.written ∧
      (convertText c {} (a ++ b)).state.skipped =
        (convertText c {} a).state.skipped + (convertText c {} b).state.skipped ∧
      ∀ level, Note.shown level (convertText c {} (a ++ b)).state.notes =
        Note.shown level (convertText c {} a).state.notes ++
          Note.shown level (convertText c {} b).state.notes := by
  obtain ⟨hfa, rfl⟩ := Progress.result_eq_ok_iff.mp hoka
  obtain ⟨hfb, rfl⟩ := Progress.result_eq_ok_iff.mp hokb
  have hfollows := convertText_follows_first ha hb hfa hfb
  refine ⟨?_, hfollows.state.written, hfollows.state.skipped, fun level => ?_⟩
  · exact Progress.result_eq_ok_iff.mpr ⟨hfollows.fault.trans hfb, hfollows.state.output⟩
  · simp only [Note.shown_eq, hfollows.state.records, List.filter_append]
    rfl

/-- The separator at the end of the first part is the statement that an `If` guards. -/
theorem convertText_append_guarded_separator :
    let c : Converter := { profile := .standard, renames := none, today := ⟨2024, 5, 1⟩ }
    let a := "Create Procedure dbo.First\nAs\nIf @a = 1\nGO\n".toList
    let b := "Create Procedure dbo.Second\nAs\nPrint @b\n".toList
    endsInSeparator a = true ∧ startsWithRoutine b = true ∧
      (convertText c {} a).fault = none ∧ (convertText c {} b).fault = none ∧
      (convertText c {} (a ++ b)).result =
        .ok ((convertText c {} a).state.output ++ (convertText c {} b).state.output) := by
  intro c a b
  have ha : endsInSeparator a = true := by decide
  have hb : startsWithRoutine b = true := by decide
  have hfa : (convertText c {} a).fault = none :=
    Option.isNone_iff_eq_none.mp (by decide)
  have hfb : (convertText c {} b).fault = none :=
    Option.isNone_iff_eq_none.mp (by decide)
  exact ⟨ha, hb, hfa, hfb, (convertText_append c a b ha hb (Progress.result_eq_ok_iff.mpr ⟨hfa, rfl⟩)
    (Progress.result_eq_ok_iff.mpr ⟨hfb, rfl⟩)).1⟩

end SqlRoutine.Script

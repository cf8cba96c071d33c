import SqlRoutine.Proofs.Body.Bracketing
import SqlRoutine.Proofs.Body.Terminator.Selection

/-! # Reading statements with a semicolon after their code

Calls, and then every form of statement (`ofLine?_terminated`): **a line with a semicolon right after
its code is the same kind of statement**, and what was read last gains the semicolon. -/

namespace SqlRoutine.Body

open Code List Option Text

variable {l : CodeLine} {st : Statement}

/-! ### Calls -/

theorem CodeLine.comment_length {s : Text} (hcomment : (splitComment s).2 = l.comment)
    (h : s.length < l.comment.length) : False := by
  have := (l.comment_suffix hcomment).length_le
  omega

/-- The blanks after a keyword end at the comment or in the code. -/
theorem CodeLine.exists_of_blanks? {r t : Text} (hr : r <:+ l.start)
    (h : blanks? (r ++ l.tail) = some t) :
    t = l.comment ∨ ∃ u, u <:+ r ∧ u ≠ [] ∧ t = u ++ l.tail ∧ ∀ z, blanks? (r ++ z) = some (u ++ z) := by
  cases r with
  | nil =>
    left
    rw [nil_append] at h
    cases htail : l.tail with
    | nil =>
      rw [htail] at h
      cases h
    | cons c z =>
      rw [htail, blanks?, ite_none_right_eq_some] at h
      have htrim : trimStart (c :: z) = trimStart z := dropWhile_cons_of_pos h.1
      rw [← l.trimStart_tail, htail, htrim]
      exact (Option.some.inj h.2).symm
  | cons c r =>
    right
    have hread : ∀ z, blanks? (c :: r ++ z) =
        if SqlRoutine.isBlank c then some (trimStart (r ++ z)) else none := fun _ => rfl
    rw [hread, ite_none_right_eq_some] at h
    obtain ⟨hc, h⟩ := h
    have hcode : Code.endsInCode (c :: r) := (l.endsInCode_of_suffix hr).resolve_left (by simp)
    have hne : r ≠ [] := by
      rintro rfl
      have hblank := endsInCode_isBlank hcode
      rw [isBlank_cons, hc] at hblank
      cases hblank
    have hend := endsInCode_suffix hcode (suffix_cons c r) hne
    have hstart := fun z => (indent_and_trimStart_append (endsInCode_isBlank hend) z).2
    refine ⟨trimStart r, (dropWhile_suffix _).trans (suffix_cons c r), ?_, ?_, fun z => ?_⟩
    · exact ne_nil_of_endsInCode (endsInCode_trimStart hend)
    · rw [← Option.some.inj h, hstart]
    · rw [hread, if_pos hc, hstart]

theorem afterResult_eq (t : Text) : afterResult t = match itemStart? t with
    | some found => found.2.trimStart
    | none => t := by
  unfold afterResult itemStart?
  cases atName? t with
  | none => rfl
  | some found =>
    simp only [bind_some]
    cases char? '=' found.2.trimStart <;> rfl

/-- What follows the variable for the result starts at the comment or in the code. -/
theorem afterResult_terminated {u : Text} (hu : u <:+ l.start) (hne : u ≠ []) :
    afterResult (u ++ l.tail) = l.comment ∨ ∃ q, q <:+ u ∧ q ≠ [] ∧ afterResult (u ++ l.tail) = q ++ l.tail ∧
      afterResult (u ++ ';' :: l.tail) = q ++ ';' :: l.tail := by
  have hstops : ∀ {z}, isTrailer z → StopsWith z itemStart? := opening_itemStart?.stops
  rw [afterResult_eq, afterResult_eq, hstops l.isTrailer_tail, hstops l.isTrailer_terminated]
  cases hread : itemStart? u with
  | none => exact .inr ⟨u, suffix_rfl, hne, rfl, rfl⟩
  | some found =>
    have hv : found.2 <:+ u := opening_itemStart?.suffix hread
    simp only [map_some]
    rcases l.endsInCode_of_suffix (hv.trans hu) with hnil | hcode
    · left
      rw [hnil, nil_append, l.trimStart_tail]
    · right
      have hstart := fun z => (indent_and_trimStart_append (endsInCode_isBlank hcode) z).2
      exact ⟨_, (dropWhile_suffix _).trans hv,
        ne_nil_of_endsInCode (endsInCode_trimStart hcode), hstart _, hstart _⟩

/-- The routine that is called and its parameters, with the comment. -/
def callParts? (indent t : Text) : Option Statement :=
  if (t.takeWhile isTargetChar).isEmpty then none
  else (restOfLine? (trimStart (t.dropWhile isTargetChar))).map fun parameters =>
    .call indent (t.takeWhile isTargetChar) (splitComment parameters).1
      (splitComment parameters).2

theorem call?_eq (line : Text) : call? line =
    (anyKeyword? ["Execute".toList, "Exec".toList] line.trimStart).bind fun t =>
      (blanks? t).bind fun t => callParts? line.indent (afterResult t) := by
  unfold call? callParts?
  simp only [bind_eq_bind, map_eq_bind]
  rfl

theorem callParts?_comment (indent : Text) (h : callParts? indent l.comment = some st)
    (hcomment : ∀ c ∈ st.comment?, c = l.comment) : False := by
  rcases l.isComment with hnil | ⟨u, hdashes⟩
  · rw [hnil] at h
    cases h
  · have hdrop : l.comment.dropWhile isTargetChar = u.dropWhile isTargetChar := by rw [hdashes]; rfl
    unfold callParts? at h
    split_ifs at h
    have hline : '\n' ∉ trimStart (u.dropWhile isTargetChar) := by
      intro hin
      refine l.oneLine (mem_append_right _ (mem_append_right _ ?_))
      rw [hdashes]
      exact mem_cons_of_mem _ (mem_cons_of_mem _
        ((dropWhile_subset _) (trimStart_subset _ hin)))
    rw [hdrop, restOfLine?_of_oneLine hline] at h
    obtain rfl := Option.some.inj h
    refine CodeLine.comment_length (hcomment _ rfl) ?_
    have hlength : (trimStart (u.dropWhile isTargetChar)).length ≤ u.length :=
      ((dropWhile_suffix _).trans (dropWhile_suffix _)).length_le
    rw [hdashes, length_cons, length_cons]
    omega

/-- The tail does not go on with the name of a routine, if the comment is read after it. -/
theorem CodeLine.takeWhile_tail (hcomment :
      (splitComment (trimStart (l.tail.dropWhile isTargetChar))).2 = l.comment) :
    l.tail.takeWhile isTargetChar = [] ∧ l.tail.dropWhile isTargetChar = l.tail := by
  have hsplit := takeWhile_append_dropWhile (p := isTargetChar) (l := l.tail)
  suffices htake : l.tail.takeWhile isTargetChar = [] by
    rw [htake, nil_append] at hsplit
    exact ⟨htake, hsplit⟩
  have hblank := l.isBlank
  unfold tail at hcomment hsplit ⊢
  cases hb : l.blanks with
  | cons c b =>
    rw [hb, isBlank_cons, Bool.and_eq_true] at hblank
    have hc : isTargetChar c = false := by rw [isTargetChar, hblank.1]; rfl
    rw [cons_append, takeWhile_cons_of_neg (by simp [hc])]
  | nil =>
    rw [hb, nil_append] at hcomment hsplit
    rw [nil_append]
    by_contra hne
    refine comment_length hcomment ?_
    have hlength : (trimStart (l.comment.dropWhile isTargetChar)).length ≤
        (l.comment.dropWhile isTargetChar).length := (dropWhile_suffix _).length_le
    have htotal := congrArg List.length hsplit
    have hpos := length_pos_of_ne_nil hne
    rw [length_append] at htotal
    omega

/-- **The routine or its parameters gain the semicolon.** -/
theorem callParts?_terminated {q : Text} (hq : q <:+ l.start) (hne : q ≠ []) (indent : Text)
    (h : callParts? indent (q ++ l.tail) = some st) (hcomment : ∀ c ∈ st.comment?, c = l.comment) :
    ∃ st', callParts? indent (q ++ ';' :: l.tail) = some st' ∧ st.Gains l st' := by
  have hnone : ∀ {x : Text}, (q ++ x).isEmpty = false := by
    intro x
    simp [hne]
  by_cases hall : ∀ c ∈ q, isTargetChar c
  · -- the name of the routine goes up to the end of the code
    have htake : ∀ z, (q ++ z).takeWhile isTargetChar = q ++ z.takeWhile isTargetChar :=
      fun _ => takeWhile_append_of_pos hall
    have hdrop : ∀ z, (q ++ z).dropWhile isTargetChar = z.dropWhile isTargetChar :=
      fun _ => dropWhile_append_of_pos hall
    have hline : '\n' ∉ trimStart (l.tail.dropWhile isTargetChar) := by
      intro hin
      refine l.oneLine (mem_append_right _ ?_)
      exact dropWhile_subset _ (trimStart_subset _ hin)
    unfold callParts? at h ⊢
    rw [htake, hdrop, hnone, if_neg Bool.false_ne_true, restOfLine?_of_oneLine hline,
      map_some] at h
    obtain rfl := Option.some.inj h
    obtain ⟨htail, htail'⟩ := l.takeWhile_tail (hcomment _ rfl)
    have hcode : splitComment l.comment = ([], l.comment) := by
      rcases l.isComment with hc | ⟨u, hc⟩ <;> rw [hc] <;> rfl
    have hsemicolon : (';' :: l.tail).takeWhile isTargetChar = [';'] := by
      rw [takeWhile_cons_of_pos rfl, htail]
    have hafter : (';' :: l.tail).dropWhile isTargetChar = l.tail := by
      rw [dropWhile_cons_of_pos rfl, htail']
    rw [htail'] at hline
    rw [htake, hdrop, hnone, if_neg Bool.false_ne_true, hsemicolon, hafter,
      restOfLine?_of_oneLine hline, map_some, htail, htail', l.trimStart_tail, hcode,
      append_nil]
    exact ⟨_, rfl, .target ..⟩
  · -- the name ends before that, and the parameters end with the code
    have hd : q.dropWhile isTargetChar ≠ [] := fun hnil => hall (dropWhile_eq_nil_iff.mp hnil)
    have hsuffix : q.dropWhile isTargetChar <:+ l.start := (dropWhile_suffix _).trans hq
    have hrun := run_within hd
    have hcode := (l.endsInCode_of_suffix hsuffix).resolve_left hd
    unfold callParts? at h ⊢
    rw [(hrun _).1, (hrun _).2, l.restOfLine?_source hsuffix] at h
    rw [(hrun _).1, (hrun _).2, l.restOfLine?_terminated hsuffix]
    split_ifs at h ⊢ with hempty
    obtain rfl := Option.some.inj h
    obtain ⟨w, w', hw, hw', -, hsplit, hsplit'⟩ := l.splitComment_rest hsuffix (hcomment _ rfl)
    simp only [map_some, hsplit, hsplit']
    exact ⟨_, rfl, .parameters _ _ _ (endsInCode_trimStart hcode) hw hw'⟩

theorem call?_terminated (h : call? l.source = some st) (hcomment : ∀ c ∈ st.comment?, c = l.comment) :
    ∃ st', call? l.terminated = some st' ∧ st.Gains l st' := by
  have hopening : Opening (anyKeyword? ["Execute".toList, "Exec".toList]) :=
    opening_anyKeyword? (by decide)
  rw [call?_eq, l.trimStart_source, hopening.stops l.isTrailer_tail, l.indent_source] at h
  rw [call?_eq, l.trimStart_terminated, hopening.stops l.isTrailer_terminated, l.indent_terminated]
  cases hstart : anyKeyword? ["Execute".toList, "Exec".toList] l.start with
  | none =>
    rw [hstart] at h
    cases h
  | some r =>
    have hr : r <:+ l.start := hopening.suffix hstart
    rw [hstart, map_some, bind_some] at h
    obtain ⟨t, hblanks, h⟩ := bind_eq_some_iff.mp h
    rcases CodeLine.exists_of_blanks? hr hblanks with rfl | ⟨u, hu, hune, rfl, hblanks'⟩
    · have hnone : itemStart? l.comment = none := by
        rcases l.isComment with hc | ⟨u, hc⟩ <;> rw [hc] <;> rfl
      rw [afterResult_eq, hnone] at h
      exact (callParts?_comment _ h hcomment).elim
    · rw [map_some, bind_some, hblanks', bind_some]
      rcases afterResult_terminated (hu.trans hr) hune with hafter | ⟨q, hq, hqne, hafter, hafter'⟩
      · rw [hafter] at h
        exact (callParts?_comment _ h hcomment).elim
      · rw [hafter] at h
        rw [hafter']
        exact callParts?_terminated (hq.trans (hu.trans hr)) hqne _ h hcomment

/-! ### All statements -/

theorem CodeLine.opens_terminated {keyword : Text} (h : avoidsParting keyword) :
    opens keyword l.terminated = opens keyword l.source := by
  have hopening := opening_keyword? h
  unfold opens
  rw [l.trimStart_source, l.trimStart_terminated, hopening.stops l.isTrailer_tail,
    hopening.stops l.isTrailer_terminated, isSome_map, isSome_map]

/-- **A line with a semicolon after its code is the same kind of statement.** -/
theorem ofLine?_terminated (h : Statement.ofLine? l.source = some st)
    (hcomment : ∀ c ∈ st.comment?, c = l.comment) :
    ∃ st', Statement.ofLine? l.terminated = some st' ∧ st.Gains l st' := by
  have hother : ∀ {k : Text}, k ∈ statementKeywords →
      (∃ rest, keyword? k l.source.trimStart = some rest) →
        ∀ other, differ k other →
          keyword? other l.terminated.trimStart = none := by
    intro keyword hmem ⟨rest, hrest⟩ other hdiffer
    have havoids : avoidsParting keyword :=
      List.all_eq_true.mp (by decide : statementKeywords.all avoidsParting) _ hmem
    refine keyword?_of_opens ?_ hdiffer
    rw [CodeLine.opens_terminated havoids]
    exact opens_of_keyword? hrest
  have hword : ∀ {keyword rest : Text}, word? keyword l.source.trimStart = some rest →
      ∃ rest, keyword? keyword l.source.trimStart = some rest := by
    intro keyword rest hrest
    obtain ⟨rest', hrest', -⟩ := bind_eq_some_iff.mp hrest
    exact ⟨rest', hrest'⟩
  unfold Statement.ofLine?
  simp only [Statement.ofLine?, orElse_eq_orElse, orElse_eq_or,
    or_eq_some_iff] at h
  rcases h with h | ⟨-, h | ⟨-, h | ⟨hcount, h | ⟨-, h | ⟨-, h | ⟨-, h | ⟨-, h⟩⟩⟩⟩⟩⟩⟩
  · obtain ⟨st', hread, hgains⟩ := assign?_terminated h hcomment
    rw [hread]
    exact ⟨st', rfl, hgains⟩
  · obtain ⟨st', hread, hgains⟩ := print?_terminated h hcomment
    obtain ⟨rest, hrest, -⟩ := bind_eq_some_iff.mp h
    have hnone := hother (k := "Print".toList) (by decide) (hword hrest)
    rw [assign?_none (hnone _ rfl), hread]
    exact ⟨st', rfl, hgains⟩
  · obtain ⟨rest, hrest, hread⟩ := bind_eq_some_iff.mp h
    obtain ⟨target, -, hst⟩ := bind_eq_some_iff.mp hread
    have hnone := hother (k := "SELECT".toList) (by decide) (hword hrest)
    rw [assign?_none (hnone _ rfl), print?_none (hnone _ rfl), rowCount?_terminated, h]
    obtain rfl := Option.some.inj hst
    exact ⟨_, rfl, .rowCount ..⟩
  · obtain ⟨st', hread, hgains⟩ := select?_terminated h hcomment
    obtain ⟨parts, hparts, -⟩ := bind_eq_some_iff.mp h
    obtain ⟨rest, hrest, -⟩ := bind_eq_some_iff.mp hparts
    have hnone := hother (k := "SELECT".toList) (by decide) ⟨rest, hrest⟩
    rw [assign?_none (hnone _ rfl), print?_none (hnone _ rfl), rowCount?_terminated, hcount, hread]
    exact ⟨st', rfl, hgains⟩
  · obtain ⟨st', hread, hgains⟩ := gotoDone?_terminated h
    obtain ⟨rest, hrest, -⟩ := bind_eq_some_iff.mp h
    have hnone := hother (k := "Goto".toList) (by decide) ⟨rest, hrest⟩
    rw [assign?_none (hnone _ rfl), print?_none (hnone _ rfl), rowCount?_none (hnone _ rfl),
      select?_none (hnone _ rfl), hread]
    exact ⟨st', rfl, hgains⟩
  · obtain ⟨st', hread, hgains⟩ := breakLoop?_terminated h
    obtain ⟨rest, hrest, -⟩ := bind_eq_some_iff.mp h
    have hnone := hother (k := "Break".toList) (by decide) ⟨rest, hrest⟩
    rw [assign?_none (hnone _ rfl), print?_none (hnone _ rfl), rowCount?_none (hnone _ rfl),
      select?_none (hnone _ rfl), gotoDone?_none (hnone _ rfl), hread]
    exact ⟨st', rfl, hgains⟩
  · obtain ⟨st', hread, hgains⟩ := continueLoop?_terminated h
    obtain ⟨rest, hrest, -⟩ := bind_eq_some_iff.mp h
    have hnone := hother (k := "Continue".toList) (by decide) ⟨rest, hrest⟩
    rw [assign?_none (hnone _ rfl), print?_none (hnone _ rfl), rowCount?_none (hnone _ rfl),
      select?_none (hnone _ rfl), gotoDone?_none (hnone _ rfl), breakLoop?_none (hnone _ rfl), hread]
    exact ⟨st', rfl, hgains⟩
  · obtain ⟨st', hread, hgains⟩ := call?_terminated h hcomment
    obtain ⟨rest, hrest, -⟩ := bind_eq_some_iff.mp h
    obtain ⟨keyword, hmem, hkeyword⟩ := exists_of_findSome?_eq_some hrest
    have hnone : ∀ other, (["Execute".toList, "Exec".toList].all (differ · other)) →
        keyword? other l.terminated.trimStart = none := fun other hdiffer =>
      hother ((by decide : ["Execute".toList, "Exec".toList] ⊆ statementKeywords) hmem) ⟨rest, hkeyword⟩
        other (List.all_eq_true.mp hdiffer _ hmem)
    rw [assign?_none (hnone _ rfl), print?_none (hnone _ rfl), rowCount?_none (hnone _ rfl),
      select?_none (hnone _ rfl), gotoDone?_none (hnone _ rfl), breakLoop?_none (hnone _ rfl),
      continueLoop?_none (hnone _ rfl), hread]
    exact ⟨st', rfl, hgains⟩

end SqlRoutine.Body

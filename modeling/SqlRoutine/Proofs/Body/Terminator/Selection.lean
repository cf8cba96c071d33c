import SqlRoutine.Proofs.Body.Terminator.Line

/-! # Assignments by `SELECT` with a semicolon after their code -/

namespace SqlRoutine.Body

open List Option Text

/-! ### Modifiers -/

section

variable {u : Text}

theorem stops_keyword?_at {word : Text} (h : word.all (fun c => !sameLetter c '@')) :
    Stops ('@' :: u) (keyword? word) := by
  refine stops_keyword?_of_head fun k hk c hc => ?_
  obtain rfl := Option.some.inj hc
  simpa using List.all_eq_true.mp h k hk

theorem trimStart_at (t : Text) : trimStart (t ++ '@' :: u) = t.trimStart ++ '@' :: u :=
  (run_class (P := isBlank) rfl t).2

theorem stops_blanks?_at : Stops ('@' :: u) blanks? := by
  intro t
  cases t with
  | nil => rfl
  | cons c t =>
    rw [cons_append, blanks?, blanks?, trimStart_at]
    split_ifs <;> rfl

theorem stops_distinct?_at : Stops ('@' :: u) distinct? :=
  (stops_keyword?_at (by decide)).bind stops_blanks?_at

/-- What follows the count of `TOP`. -/
def afterCount? (t : Text) : Option Text :=
  ((blanks? t).bind fun t => (keyword? "PERCENT".toList t).bind blanks?) <|>
    blanks? t

/-- The count of `TOP`: digits, or anything in parentheses. -/
def count? (t : Text) : Option Text :=
  match t with
  | '(' :: inner => char? ')' (inner.dropWhile (· != ')'))
  | t => (DataType.digits? t).map (·.2)

theorem top?_eq (t : Text) : top? t =
    (keyword? "TOP".toList t).bind fun t => (count? t.trimStart).bind afterCount? := by
  unfold top?
  cases keyword? "TOP".toList t with
  | none => rfl
  | some rest =>
    simp only [bind_eq_bind, bind_some]
    -- `count?` stays folded here, so that only the reading of `top?` is split
    split
    · next inner heq =>
      rw [heq, count?]
      simp only [bind_assoc]
      rfl
    · next hother =>
      rw [count?.eq_2 _ hother]
      simp only [bind_assoc]
      rfl

theorem stops_afterCount?_at : Stops ('@' :: u) afterCount? := by
  have hpercent : Stops ('@' :: u) fun t => (blanks? t).bind fun t =>
      (keyword? "PERCENT".toList t).bind blanks? :=
    stops_blanks?_at.bind ((stops_keyword?_at (by decide)).bind stops_blanks?_at)
  intro t
  have hread := hpercent t
  dsimp only at hread
  rw [afterCount?, afterCount?, hread, stops_blanks?_at]
  cases (blanks? t).bind fun t => (keyword? "PERCENT".toList t).bind blanks? <;> rfl

theorem suffix_of_afterCount? {t rest : Text} (h : afterCount? t = some rest) : rest <:+ t := by
  rw [afterCount?, orElse_eq_some] at h
  rcases h with h | ⟨-, h⟩
  · obtain ⟨t₁, h₁, h⟩ := bind_eq_some_iff.mp h
    obtain ⟨t₂, h₂, h₃⟩ := bind_eq_some_iff.mp h
    obtain ⟨m, -, rfl⟩ := keyword?_eq_some_iff.mp h₂
    exact (suffix_of_blanks? h₃).trans ((suffix_append m _).trans (suffix_of_blanks? h₁))
  · exact suffix_of_blanks? h

theorem stops_digits?_at : Stops ('@' :: u) fun t => (DataType.digits? t).map (·.2) := by
  intro t
  obtain ⟨htake, hdrop⟩ := run_class (P := isDecimal) (z := '@' :: u) rfl t
  dsimp only
  rw [DataType.digits?, DataType.digits?, htake, hdrop]
  cases t.takeWhile isDecimal <;> rfl

/-- **A count is read before a variable**, or its parentheses reach beyond the sign of the variable. -/
theorem count?_at (t : Text) : (∀ u, count? (t ++ '@' :: u) = (count? t).map (· ++ '@' :: u)) ∨
    ∀ u rest, count? (t ++ '@' :: u) = some rest → rest.length ≤ u.length := by
  cases t with
  | nil => exact .inl fun u => stops_digits?_at []
  | cons c t =>
    by_cases hc : c = '('
    · subst hc
      have hread : ∀ t, count? ('(' :: t) = char? ')' (t.dropWhile (· != ')')) := fun _ => rfl
      by_cases hclosed : ')' ∈ t
      · left
        intro u
        obtain ⟨x, y, rfl, hx⟩ := eq_append_cons_of_mem hclosed
        have hinner : x.all (· != ')') :=
          List.all_eq_true.mpr fun d hd => bne_iff_ne.mpr fun heq => hx (heq ▸ hd)
        rw [cons_append, hread, hread, append_assoc, (run_append hinner rfl).2,
          (run_append hinner rfl).2]
        rfl
      · right
        intro u rest h
        have hinner : ∀ d ∈ t, (d != ')') := fun d hd => bne_iff_ne.mpr fun heq => hclosed (heq ▸ hd)
        rw [cons_append, hread, dropWhile_append_of_pos hinner,
          dropWhile_cons_of_pos rfl] at h
        have hcons := char?_eq_some_iff.mp h
        have hlength : (u.dropWhile (· != ')')).length ≤ u.length := (dropWhile_suffix _).length_le
        rw [hcons, length_cons] at hlength
        omega
    · left
      intro u
      have hread : ∀ u, count? (c :: u) = (DataType.digits? (c :: u)).map (·.2) := by
        intro u
        rw [count?]
        rintro inner heq
        exact absurd (List.cons.inj heq).1 hc
      rw [cons_append, hread, hread]
      exact stops_digits?_at (c :: t)

/-- The count of `TOP` and what follows it, before a variable. -/
theorem top?_at (t : Text) : (∀ u, top? (t ++ '@' :: u) = (top? t).map (· ++ '@' :: u)) ∨
    t ≠ [] ∧ ∀ u rest, top? (t ++ '@' :: u) = some rest → rest.length ≤ u.length := by
  have hkeyword : ∀ u, keyword? "TOP".toList (t ++ '@' :: u) =
      (keyword? "TOP".toList t).map (· ++ '@' :: u) :=
    fun u => stops_keyword?_at (by decide) t
  cases hread : keyword? "TOP".toList t with
  | none =>
    left
    intro u
    rw [top?_eq, top?_eq, hkeyword, hread]
    rfl
  | some r =>
    have htop : ∀ u, top? (t ++ '@' :: u) =
        (count? (r.trimStart ++ '@' :: u)).bind afterCount? := by
      intro u
      rw [top?_eq, hkeyword, hread, map_some, bind_some, trimStart_at]
    rcases count?_at r.trimStart with hcount | hcount
    · left
      intro u
      rw [htop, hcount, top?_eq, hread, bind_some]
      cases count? r.trimStart with
      | none => rfl
      | some rest => exact stops_afterCount?_at rest
    · right
      refine ⟨?_, fun u rest h => ?_⟩
      · rintro rfl
        cases hread
      · rw [htop] at h
        obtain ⟨rest', hrest', h⟩ := bind_eq_some_iff.mp h
        exact (suffix_of_afterCount? h).length_le.trans (hcount u rest' hrest')

/-- **The modifiers before a variable** do not depend on what follows its sign. -/
theorem afterModifiers_at {m u : Text} (h : afterModifiers (m ++ '@' :: u) = '@' :: u) (u' : Text) :
    afterModifiers (m ++ '@' :: u') = '@' :: u' := by
  have hdistinct : ∀ u, (distinct? (m ++ '@' :: u)).getD (m ++ '@' :: u) =
      (distinct? m).getD m ++ '@' :: u := by
    intro u
    rw [stops_distinct?_at]
    cases distinct? m <;> rfl
  rw [afterModifiers, hdistinct] at h ⊢
  generalize (distinct? m).getD m = d at h ⊢
  have hnil : ∀ {x : Text}, x ++ '@' :: u = '@' :: u → x = [] := fun h =>
    append_left_eq_self.mp h
  rcases top?_at d with htop | ⟨hne, htop⟩
  · rw [htop] at h ⊢
    cases hread : top? d with
    | none =>
      rw [hread] at h
      rw [hnil h]
      rfl
    | some rest =>
      rw [hread] at h
      rw [hnil (x := rest) h]
      rfl
  · exfalso
    cases hread : top? (d ++ '@' :: u) with
    | none =>
      rw [hread] at h
      exact hne (hnil h)
    | some rest =>
      rw [hread, getD_some] at h
      have hlength := htop u rest hread
      rw [h, length_cons] at hlength
      omega

end

/-! ### The clause and the items -/

end SqlRoutine.Body

namespace SqlRoutine.Code

open List Option Text

theorem isTrailer_ending {z : Text} (hz : z.all isTerminatorOrBlank) : isTrailer z := by
  induction z with
  | nil => rfl
  | cons c z ih =>
    rw [all_cons, Bool.and_eq_true] at hz
    cases hc : isBlank c with
    | true => exact (isTrailer_append (b := [c]) (by simp [Text.isBlank, hc])).trans (ih hz.2)
    | false =>
      have hsemicolon : c = ';' := by simpa [isTerminatorOrBlank, hc] using hz.1
      rw [hsemicolon]
      rfl

section

variable {word : Text} (hword : isIdentifier word)
include hword

theorem topLevelWordFrom_lt (t : Text) : ∀ (l : Level) (prev : Option Char) {position found : ℕ},
    topLevelWordFrom word l.quoted l.depth prev position t = some found →
      position ≤ found ∧ found < position + t.length := by
  induction t with
  | nil => exact fun _ _ _ _ h => nomatch h
  | cons c t ih =>
    intro l prev position found h
    rw [topLevelWordFrom_level l c _ hword] at h
    rw [length_cons]
    split_ifs at h
    · obtain rfl := Option.some.inj h
      omega
    · have := ih _ _ h
      omega

/-- **A word is not found in the end of a statement.** -/
theorem topLevelWordFrom_ending (hstops : avoidsParting word) {z : Text}
    (hz : z.all isTerminatorOrBlank) (t : Text) :
    ∀ (l : Level) (prev : Option Char) (position : ℕ),
      topLevelWordFrom word l.quoted l.depth prev position (t ++ z) =
        topLevelWordFrom word l.quoted l.depth prev position t := by
  have hread : ∀ {z : Text}, z.all isTerminatorOrBlank → ∀ t,
      (word? word (t ++ z)).isSome = (word? word t).isSome := by
    intro z hz t
    rw [stops_word? (isTrailer_ending hz) hstops, isSome_map]
  induction t with
  | cons c t ih =>
    intro l prev position
    have hhere : wordHere word l prev (c :: (t ++ z)) = wordHere word l prev (c :: t) := by
      rw [wordHere, wordHere, ← cons_append, hread hz]
    rw [cons_append, topLevelWordFrom_level l c _ hword, topLevelWordFrom_level l c _ hword, hhere, ih]
  | nil =>
    rw [nil_append]
    induction z with
    | nil => exact fun _ _ _ => rfl
    | cons c z ih =>
      intro l prev position
      have hhere : wordHere word l prev (c :: z) = false := by
        have hnil : word? word [] = none := by
          obtain ⟨k, ks, rfl⟩ := exists_cons_of_ne_nil (isIdentifier_iff.mp hword).1
          rfl
        rw [wordHere, ← nil_append (c :: z), hread hz, hnil, isSome_none, Bool.and_false]
      rw [all_cons, Bool.and_eq_true] at hz
      rw [topLevelWordFrom_level l c _ hword, hhere, if_neg Bool.false_ne_true]
      exact ih hz.2 ..

end

theorem occurs_comma_of_not_mem {t : Text} (h : ',' ∉ t) (l : Level) (prev : Option Char) :
    occurs commaHere l prev t = false := by
  induction t generalizing l prev with
  | nil => rfl
  | cons c t ih =>
    rw [mem_cons, not_or] at h
    refine occurs_cons_eq_false.mpr ⟨?_, ih h.2 ..⟩
    have hc : (some c == some ',') = false := by simpa using Ne.symm h.1
    rw [commaHere, head?_cons, hc, Bool.and_false]

/-- **The last piece goes on** with a text without commas. -/
theorem splitCommasFrom_last (t : Text) : ∀ l : Level, ∃ init last, last <:+ t ∧ (init = [] → last = t) ∧
    ∀ z, ',' ∉ z → splitCommasFrom l.quoted l.depth (t ++ z) = init ++ [last ++ z] := by
  induction t with
  | nil =>
    refine fun l => ⟨[], [], suffix_rfl, fun _ => rfl, fun z hz => ?_⟩
    have hpassed := splitCommasFrom_passed (occurs_comma_of_not_mem hz l none) []
    rw [append_nil] at hpassed
    rw [nil_append, hpassed, splitCommasFrom, foldr_consFirst, append_nil]
    rfl
  | cons c t ih =>
    intro l
    obtain ⟨init, last, hsuffix, hfirst, hsplit⟩ := ih (l.next c)
    have hstep : ∀ z, splitCommasFrom l.quoted l.depth (c :: t ++ z) =
        if commaHere l none (c :: t) then
          [] :: splitCommasFrom (l.next c).quoted (l.next c).depth (t ++ z)
        else consFirst c (splitCommasFrom (l.next c).quoted (l.next c).depth (t ++ z)) :=
      fun z => splitCommasFrom_level l c (t ++ z)
    have hlast := hsuffix.trans (suffix_cons c t)
    by_cases hcomma : commaHere l none (c :: t)
    · refine ⟨[] :: init, last, hlast, by simp, fun z hz => ?_⟩
      rw [hstep, if_pos hcomma, hsplit z hz]
      rfl
    · cases init with
      | nil =>
        obtain rfl := hfirst rfl
        refine ⟨[], c :: last, suffix_rfl, fun _ => rfl, fun z hz => ?_⟩
        rw [hstep, if_neg hcomma, hsplit z hz]
        rfl
      | cons first init =>
        refine ⟨(c :: first) :: init, last, hlast, by simp, fun z hz => ?_⟩
        rw [hstep, if_neg hcomma, hsplit z hz]
        rfl

end SqlRoutine.Code

namespace SqlRoutine.Body

open Code List Option Text

/-- The start of an assignment in a list: its target, and what follows the equals sign. -/
def itemStart? (t : Text) : Option (Text × Text) :=
  (atName? t).bind fun found => (char? '=' found.2.trimStart).map (found.1, ·)

theorem opening_itemStart? : OpeningWith itemStart? :=
  openingWith_atName?.thenOpening (opening_sign rfl)

theorem item?_eq (item : Text) : item? item = (itemStart? item.trimStart).bind fun found =>
    if found.2.isBlank then found.2.getLast?.map fun c => (found.1, [c])
    else some (found.1, found.2.trim) := by
  unfold item? itemStart?
  simp only [bind_eq_bind, bind_assoc, map_eq_bind]
  rfl

/-- A text in code, without and with a semicolon after it. -/
theorem trim_of_endsInCode {t : Text} (h : endsInCode t) :
    (∀ w, Text.isBlank w → trim (t ++ w) = t.trimStart) ∧
      ∀ w, Text.isBlank w → trim (t ++ ';' :: w) = t.trimStart ++ [';'] := by
  have hstart := fun z => (indent_and_trimStart_append (endsInCode_isBlank h) z).2
  have hend := endsInCode_trimStart h
  refine ⟨fun w hw => ?_, fun w hw => ?_⟩
  · rw [trim, hstart, trimEnd_of_endsInCode hend hw]
  · rw [trim, hstart, trimEnd_append_cons _ rfl, trimEnd_of_isBlank hw]

/-- **An item with a semicolon after it**: the value gains the semicolon, or a blank that stands for a
value gives way to it. -/
theorem item?_terminated {last w w' : Text} (hlast : last = [] ∨ endsInCode last)
    (hw : w.isBlank) (hw' : w'.isBlank) {item : Text × Text}
    (h : item? (last ++ w) = some item) :
    (endsInCode item.2 ∧ item? (last ++ ';' :: w') = some (item.1, item.2 ++ [';'])) ∨
      w ≠ [] ∧ (∃ c, item.2 = [c] ∧ isBlank c) ∧
        item? (last ++ ';' :: w') = some (item.1, [';']) := by
  rcases hlast with rfl | hlast
  · rw [item?_eq, nil_append, trimStart_of_isBlank hw] at h
    cases h
  have hstart := fun z => (indent_and_trimStart_append (endsInCode_isBlank hlast) z).2
  have hstops : ∀ {z}, isTrailer z → StopsWith z itemStart? := opening_itemStart?.stops
  have htrailer : isTrailer w := by
    rw [isTrailer, trimStart_of_isBlank hw]
    rfl
  rw [item?_eq, hstart, hstops htrailer] at h
  rw [item?_eq, hstart, hstops (z := ';' :: w') rfl]
  cases hread : itemStart? last.trimStart with
  | none =>
    rw [hread] at h
    cases h
  | some found =>
    obtain ⟨target, r⟩ := found
    have hsuffix : r <:+ last := (opening_itemStart?.suffix hread).trans (dropWhile_suffix _)
    rw [hread, map_some, bind_some] at h
    rw [map_some, bind_some]
    have hvisible : ∀ r : Text, Text.isBlank (r ++ ';' :: w') = false := fun r =>
      isBlank_eq_false_iff.mpr ⟨';', by simp, rfl⟩
    rw [hvisible r, if_neg Bool.false_ne_true]
    by_cases hr : r = []
    · subst hr
      right
      rw [nil_append, if_pos hw] at h
      obtain ⟨c, hc, rfl⟩ := map_eq_some_iff.mp h
      refine ⟨ne_nil_of_mem (mem_of_getLast? hc),
        ⟨c, rfl, isBlank_eq_true_iff.mp hw c (mem_of_getLast? hc)⟩, ?_⟩
      rw [nil_append, trim, trimStart_of_head rfl, ← nil_append (';' :: w'),
        trimEnd_append_cons _ rfl, trimEnd_of_isBlank hw']
      rfl
    · left
      have hcode := endsInCode_suffix hlast hsuffix hr
      have hnot : Text.isBlank (r ++ w) = false := by
        rw [isBlank_append, endsInCode_isBlank hcode, Bool.false_and]
      rw [hnot, if_neg Bool.false_ne_true] at h
      obtain rfl := Option.some.inj h
      obtain ⟨htrim, htrim'⟩ := trim_of_endsInCode hcode
      dsimp only
      rw [htrim w hw, htrim' w' hw']
      exact ⟨endsInCode_trimStart hcode, rfl⟩

/-- The items and the clause of the code of a `SELECT`. -/
def itemsAndClause (code : Text) : List Text × Text :=
  let position := (topLevelWord? "FROM".toList code).getD code.length
  (splitCommas (code.take position), trim (code.drop position))

/-- **The clause gains the semicolon**, or the last item does. -/
theorem itemsAndClause_terminated {y w w' : Text} (hy : endsInCode y) (hw : w.isBlank)
    (hw' : w'.isBlank) :
    (∃ items clause, endsInCode clause ∧ itemsAndClause (y ++ w) = (items, clause) ∧
        itemsAndClause (y ++ ';' :: w') = (items, clause ++ [';'])) ∨
      ∃ init last, (last = [] ∨ endsInCode last) ∧
        itemsAndClause (y ++ w) = (init ++ [last ++ w], []) ∧
        itemsAndClause (y ++ ';' :: w') = (init ++ [last ++ ';' :: w'], []) := by
  have hblank : ∀ {w : Text}, w.isBlank → w.all isTerminatorOrBlank := by
    intro w hw
    refine List.all_eq_true.mpr fun c hc => ?_
    rw [isTerminatorOrBlank, isBlank_eq_true_iff.mp hw c hc, Bool.or_true]
  have hword : isIdentifier "FROM".toList := by decide
  have hfrom : ∀ {z : Text}, z.all isTerminatorOrBlank →
      topLevelWord? "FROM".toList (y ++ z) = topLevelWord? "FROM".toList y :=
    fun hz => topLevelWordFrom_ending hword (by decide) hz y {} none 0
  have hterminated : (';' :: w').all isTerminatorOrBlank := hblank (w := w') hw'
  have hz := hfrom (hblank hw)
  have hz' := hfrom hterminated
  cases hposition : topLevelWord? "FROM".toList y with
  | none =>
    right
    obtain ⟨init, last, hsuffix, -, hsplit⟩ := splitCommasFrom_last y {}
    have hread : ∀ {z : Text}, topLevelWord? "FROM".toList (y ++ z) = none → ',' ∉ z →
        itemsAndClause (y ++ z) = (init ++ [last ++ z], []) := by
      intro z hnone hcomma
      rw [itemsAndClause, hnone, getD_none, take_length, drop_length]
      exact Prod.ext (hsplit z hcomma) rfl
    have hcomma : ∀ {w : Text}, w.isBlank → ',' ∉ w := fun hw hin =>
      absurd (isBlank_eq_true_iff.mp hw _ hin) (by decide)
    refine ⟨init, last, ?_, hread (hz.trans hposition) (hcomma hw), hread (hz'.trans hposition) ?_⟩
    · by_cases hlast : last = []
      · exact .inl hlast
      · exact .inr (endsInCode_suffix hy hsuffix hlast)
    · simpa using hcomma hw'
  | some position =>
    left
    have hlt : position < y.length := by
      have := (topLevelWordFrom_lt hword y {} none hposition).2
      omega
    have hdrop : endsInCode (y.drop position) :=
      endsInCode_suffix hy (drop_suffix ..) (by simpa using hlt)
    have hread : ∀ {z : Text}, topLevelWord? "FROM".toList (y ++ z) = some position →
        itemsAndClause (y ++ z) =
          (splitCommas (y.take position), trim (y.drop position ++ z)) := by
      intro z hfound
      rw [itemsAndClause, hfound, getD_some, take_append_of_le_length hlt.le,
        drop_append_of_le_length hlt.le]
    obtain ⟨htrim, htrim'⟩ := trim_of_endsInCode hdrop
    refine ⟨_, _, ?_, hread (hz.trans hposition), ?_⟩
    · rw [htrim w hw]
      exact endsInCode_trimStart hdrop
    · rw [hread (hz'.trans hposition), htrim w hw, htrim' w' hw']

theorem selectList?_eq {t : Text} (h : '\n' ∉ t) : selectList? t = (itemStart? t).map fun _ => t := by
  have hsplit : selectList? t = (itemStart? t).bind fun found =>
      (restOfLine? found.2).map (readBefore found.2 t ++ ·) := by
    unfold selectList? itemStart?
    simp only [bind_eq_bind, bind_assoc, map_eq_bind]
    rfl
  rw [hsplit]
  cases hread : itemStart? t with
  | none => rfl
  | some found =>
    obtain ⟨m, rfl⟩ := opening_itemStart?.suffix hread
    have hline : '\n' ∉ found.2 := fun hin => h (mem_append_right m hin)
    rw [bind_some, restOfLine?_of_oneLine hline, map_some, map_some,
      readBefore_append]

theorem selectLine?_eq (line : Text) : selectLine? line =
    (keyword? "SELECT".toList line.trimStart).bind fun t => (blanks? t).bind fun t =>
      (selectList? (afterModifiers t)).map fun list =>
        ⟨line.indent, readBefore (afterModifiers t) t,
          (itemsAndClause (splitComment list).1).1, (itemsAndClause (splitComment list).1).2,
          (splitComment list).2⟩ := by
  unfold selectLine?
  simp only [bind_eq_bind, map_eq_bind]
  rfl

theorem suffix_of_count? {t rest : Text} (h : count? t = some rest) : rest <:+ t := by
  unfold count? at h
  split at h
  · next inner =>
    have hcons := char?_eq_some_iff.mp h
    exact (suffix_cons _ rest).trans ((hcons ▸ dropWhile_suffix _).trans (suffix_cons _ inner))
  · obtain ⟨found, hfound, rfl⟩ := map_eq_some_iff.mp h
    unfold DataType.digits? at hfound
    split at hfound
    · cases hfound
    · obtain rfl := Option.some.inj hfound
      exact dropWhile_suffix _

theorem afterModifiers_suffix (t : Text) : afterModifiers t <:+ t := by
  have hdistinct : (distinct? t).getD t <:+ t := by
    cases hread : distinct? t with
    | none => exact suffix_rfl
    | some rest =>
      obtain ⟨t', ht', hrest⟩ := bind_eq_some_iff.mp hread
      obtain ⟨m, -, rfl⟩ := keyword?_eq_some_iff.mp ht'
      exact (suffix_of_blanks? hrest).trans (suffix_append m _)
  refine List.IsSuffix.trans ?_ hdistinct
  rw [afterModifiers]
  generalize (distinct? t).getD t = d
  cases hread : top? d with
  | none => exact suffix_rfl
  | some rest =>
    rw [top?_eq] at hread
    obtain ⟨t₁, h₁, hread⟩ := bind_eq_some_iff.mp hread
    obtain ⟨t₂, h₂, h₃⟩ := bind_eq_some_iff.mp hread
    obtain ⟨m, -, rfl⟩ := keyword?_eq_some_iff.mp h₁
    exact (suffix_of_afterCount? h₃).trans ((suffix_of_count? h₂).trans
      ((dropWhile_suffix _).trans (suffix_append m t₁)))

theorem failsAtTrailer_selectList? : FailsAtTrailer fun t => selectList? (afterModifiers t) := by
  intro t ht
  have hdistinct : distinct? t = none :=
    (failsAtTrailer_keyword? (by decide) (by decide)).bind blanks? t ht
  have htop : top? t = none := by
    rw [top?_eq]
    exact (failsAtTrailer_keyword? (by decide) (by decide)).bind _ t ht
  dsimp only
  rw [afterModifiers, hdistinct, getD_none, htop, getD_none]
  unfold selectList?
  rw [failsAtTrailer_atName? t ht]
  rfl

section

variable {l : CodeLine}

/-- A text from a variable up to the comment starts in the code. -/
theorem CodeLine.exists_of_at {u v : Text} (hs : '@' :: v <:+ u ++ l.tail)
    (hcomment : (splitComment ('@' :: v)).2 = l.comment) :
    ∃ m y, u = m ++ '@' :: y ∧ v = y ++ l.tail := by
  obtain ⟨x, hx⟩ := l.comment_suffix hcomment
  obtain ⟨m, hm⟩ := hs
  rw [← hx, CodeLine.tail, ← append_assoc, ← append_assoc] at hm
  have hm := append_cancel_right hm
  have hblank : '@' ∉ l.blanks := fun hin => absurd (isBlank_eq_true_iff.mp l.isBlank _ hin) (by decide)
  cases x with
  | nil => rcases l.isComment with hc | ⟨w, hc⟩ <;> rw [hc] at hx <;> cases hx
  | cons c x =>
    obtain ⟨rfl, rfl⟩ := List.cons.inj hx
    rcases append_eq_append_iff.mp hm with ⟨a, rfl, ha⟩ | ⟨a, rfl, ha⟩
    · cases a with
      | nil =>
        rw [nil_append] at ha
        exact absurd (ha ▸ mem_cons_self) hblank
      | cons c y =>
        obtain ⟨rfl, rfl⟩ := List.cons.inj ha
        exact ⟨m, y, rfl, by simp [CodeLine.tail]⟩
    · exact absurd (ha ▸ by simp) hblank

theorem head_of_itemStart? {t : Text} {found : Text × Text} (h : itemStart? t = some found) :
    ∃ u, t = '@' :: u := by
  obtain ⟨⟨name, rest⟩, hname, -⟩ := bind_eq_some_iff.mp h
  exact ⟨_, (atName?_spec hname).1⟩

/-- The modifiers before the list of a `SELECT` do not change with the semicolon. -/
theorem afterModifiers_terminated {u : Text} {found : Text × Text}
    (hfound : itemStart? (afterModifiers (u ++ l.tail)) = some found)
    (hcomment : (splitComment (afterModifiers (u ++ l.tail))).2 = l.comment) :
    ∃ m y, u = m ++ '@' :: y ∧ afterModifiers (u ++ l.tail) = '@' :: y ++ l.tail ∧
      afterModifiers (u ++ ';' :: l.tail) = '@' :: y ++ ';' :: l.tail ∧
      (itemStart? ('@' :: y ++ ';' :: l.tail)).isSome := by
  obtain ⟨v, hv⟩ := head_of_itemStart? hfound
  have hsuffix := afterModifiers_suffix (u ++ l.tail)
  rw [hv] at hsuffix hcomment hfound
  obtain ⟨m, y, rfl, rfl⟩ := CodeLine.exists_of_at hsuffix hcomment
  refine ⟨m, y, rfl, hv, ?_, ?_⟩
  · rw [append_assoc, cons_append] at hv ⊢
    exact afterModifiers_at hv _
  · have hstops : ∀ {z}, isTrailer z → StopsWith z itemStart? := opening_itemStart?.stops
    rw [← cons_append, hstops l.isTrailer_tail] at hfound
    obtain ⟨found', hfound', -⟩ := map_eq_some_iff.mp hfound
    rw [hstops l.isTrailer_terminated, hfound']
    rfl

/-- **The parts of a `SELECT` with a semicolon after its code.** -/
theorem selectLine?_terminated {s : SelectLine} (h : selectLine? l.source = some s)
    (hcomment : s.comment = l.comment) :
    (endsInCode s.clause ∧
        selectLine? l.terminated = some { s with clause := s.clause ++ [';'] }) ∨
      ∃ init last w w', (last = [] ∨ endsInCode last) ∧ Text.isBlank w ∧
        Text.isBlank w' ∧ (w ≠ [] → l.comment = []) ∧ s.clause = [] ∧
        s.items = init ++ [last ++ w] ∧
        selectLine? l.terminated = some { s with items := init ++ [last ++ ';' :: w'] } := by
  have hopening : Opening (keyword? "SELECT".toList) := opening_keyword? (by decide)
  rw [selectLine?_eq, l.trimStart_source, hopening.stops l.isTrailer_tail, l.indent_source] at h
  rw [selectLine?_eq, l.trimStart_terminated, hopening.stops l.isTrailer_terminated, l.indent_terminated]
  cases hstart : keyword? "SELECT".toList l.start with
  | none =>
    rw [hstart] at h
    cases h
  | some r =>
    have hr : r <:+ l.start := hopening.suffix hstart
    rw [hstart, map_some, bind_some] at h
    obtain ⟨t, hblanks, hread⟩ := bind_eq_some_iff.mp h
    obtain ⟨list, hlist, rfl⟩ := map_eq_some_iff.mp hread
    rcases blanks?_bind_append failsAtTrailer_selectList? r with hnone | ⟨u, hu, -, hu'⟩
    · have hfails := hnone _ l.isTrailer_tail
      rw [hblanks, bind_some, hlist] at hfails
      cases hfails
    obtain rfl := Option.some.inj ((hu' _).symm.trans hblanks)
    have hline : '\n' ∉ afterModifiers (u ++ l.tail) := by
      intro hin
      have hin := (afterModifiers_suffix (u ++ l.tail)).subset hin
      refine l.oneLine_of_suffix (hu.trans hr) ?_
      simp only [mem_append, mem_cons] at hin ⊢
      exact hin.imp id .inr
    rw [selectList?_eq hline] at hlist
    obtain ⟨found, hfound, rfl⟩ := map_eq_some_iff.mp hlist
    obtain ⟨m, y, rfl, hafter, hafter', hstart'⟩ := afterModifiers_terminated hfound hcomment
    have hy : '@' :: y <:+ l.start := (suffix_append m _).trans (hu.trans hr)
    have hat : ∀ v : Text, trimStart ('@' :: v) = '@' :: v := fun _ => trimStart_of_head rfl
    dsimp only at hcomment ⊢
    rw [hafter] at hcomment
    obtain ⟨w, w', hw, hw', hnone, hsplit, hsplit'⟩ := l.splitComment_rest hy (by rwa [cons_append, hat])
    rw [cons_append, hat, ← cons_append, hat] at hsplit hsplit'
    have hlist' : selectList? ('@' :: y ++ ';' :: l.tail) = some ('@' :: y ++ ';' :: l.tail) := by
      obtain ⟨found', hfound'⟩ := isSome_iff_exists.mp hstart'
      rw [selectList?_eq (l.oneLine_of_suffix hy), hfound']
      rfl
    rw [map_some, bind_some, hu', bind_some, hafter', hlist', map_some]
    have hmodifiers : ∀ z, readBefore ('@' :: y ++ z) (m ++ '@' :: y ++ z) = m := by
      intro z
      rw [append_assoc, readBefore_append]
    simp only [hafter, hsplit, hsplit', hmodifiers]
    have hcode : endsInCode ('@' :: y) := (l.endsInCode_of_suffix hy).resolve_left (by simp)
    rcases itemsAndClause_terminated hcode hw hw' with
      ⟨items, clause, hclause, h, h'⟩ | ⟨init, last, hlast, h, h'⟩
    · left
      rw [h, h']
      exact ⟨hclause, rfl⟩
    · right
      rw [h, h']
      exact ⟨init, last, w, w', hlast, hw, hw', hnone, rfl, rfl, rfl⟩

/-- **An assignment by `SELECT` with a semicolon after its code.** -/
theorem select?_terminated {st : Statement} (h : select? l.source = some st)
    (hcomment : ∀ c ∈ st.comment?, c = l.comment) :
    ∃ st', select? l.terminated = some st' ∧ st.Gains l st' := by
  obtain ⟨s, hs, hitems⟩ := bind_eq_some_iff.mp h
  obtain ⟨items, hread, hst⟩ := bind_eq_some_iff.mp hitems
  obtain rfl := Option.some.inj hst
  unfold select?
  rcases selectLine?_terminated hs (hcomment _ rfl) with
    ⟨hclause, hs'⟩ | ⟨init, last, w, w', hlast, hw, hw', hnone, hclause, hinit, hs'⟩
  · rw [hs']
    simp only [bind_eq_bind, bind_some, hread]
    exact ⟨_, rfl, .clause _ _ _ _ hclause⟩
  · rw [hs']
    rw [hinit, mapM_append] at hread
    obtain ⟨before, hbefore, hread⟩ := bind_eq_some_iff.mp hread
    obtain ⟨lasts, hlasts, hread⟩ := bind_eq_some_iff.mp hread
    obtain rfl := Option.some.inj hread
    simp only [mapM_cons, mapM_nil, bind_eq_bind] at hlasts
    obtain ⟨item, hitem, hlasts⟩ := bind_eq_some_iff.mp hlasts
    obtain rfl := Option.some.inj hlasts
    obtain ⟨target, value⟩ := item
    simp only [bind_eq_bind, bind_some, mapM_append, mapM_cons, mapM_nil,
      hbefore, hclause]
    rcases item?_terminated hlast hw hw' hitem with ⟨hvalue, hitem'⟩ | ⟨hne, ⟨c, hvalue, hc⟩, hitem'⟩
    · rw [hitem']
      exact ⟨_, rfl, .value _ _ _ _ _ hvalue⟩
    · dsimp only at hvalue
      rw [hitem', hvalue, (hcomment _ rfl).trans (hnone hne)]
      exact ⟨_, rfl, .noValue _ _ _ _ hc⟩

end

end SqlRoutine.Body

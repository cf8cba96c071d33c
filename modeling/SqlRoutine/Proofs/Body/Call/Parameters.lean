import SqlRoutine.Proofs.Body.Call.Marker
import SqlRoutine.Proofs.Body.Simple
import SqlRoutine.Proofs.Code.Literal
import SqlRoutine.Proofs.Expression.Respelling

/-! # Named parameters of a call

A call with a list of named parameters, where each value is a quoted literal or a name or number and may
be followed by an output marker. The markers are removed and the equals signs become arrows in the whole
list at once, without regard to quotes. Hence **the list is converted parameter by parameter, with every
value as it stands, just when** no value holds a marker itself and nothing in the list is spelled anew
(`convert_namedCall_iff`). -/

namespace SqlRoutine.Text

open List

/-! ### Lists with commas -/

theorem join_cons_flatMap (sep t : Text) (ts : List Text) :
    join sep (t :: ts) = t ++ ts.flatMap (sep ++ ·) := by
  induction ts generalizing t with
  | nil => exact (append_nil t).symm
  | cons u ts ih =>
    change t ++ sep ++ join sep (u :: ts) = _
    rw [ih, flatMap_cons, append_assoc, append_assoc]

/-- The text has ended or goes on with a comma. -/
def atComma (t : Text) : Bool := t.head?.all (· == ',')

theorem atWordEnd_of_atComma {t : Text} (h : atComma t) : atWordEnd t := by
  cases t with
  | nil => rfl
  | cons c t =>
    obtain rfl : c = ',' := by simpa [atComma] using h
    rfl

theorem trimStart_of_atComma {t : Text} (h : atComma t) : t.trimStart = t := by
  cases t with
  | nil => rfl
  | cons c t =>
    obtain rfl : c = ',' := by simpa [atComma] using h
    rfl

section

variable {α : Type} {f : α → Text}

/-- **What holds of a list is shown item by item**, from its end. -/
theorem join_induction {P : Text → Prop} (nil : P [])
    (item : ∀ x z, atComma z → P z → P (f x ++ z))
    (comma : ∀ x z, P (f x ++ z) → P (", ".toList ++ (f x ++ z))) (xs : List α) :
    P (join ", ".toList (xs.map f)) := by
  cases xs with
  | nil => exact nil
  | cons x xs =>
    rw [map_cons, join_cons_flatMap]
    induction xs generalizing x with
    | nil => exact item x [] rfl nil
    | cons y ys ih =>
      rw [map_cons, flatMap_cons, append_assoc]
      exact item x _ rfl (comma y _ (ih y))

/-- **A list is changed item by item.** -/
theorem change_join {change : Text → Text} {g : α → Text} (nil : change [] = [])
    (item : ∀ x z, atComma z → change (f x ++ z) = g x ++ change z)
    (comma : ∀ x z, change (", ".toList ++ (f x ++ z)) = ", ".toList ++ change (f x ++ z))
    (xs : List α) : change (join ", ".toList (xs.map f)) = join ", ".toList (xs.map g) := by
  cases xs with
  | nil => exact nil
  | cons x xs =>
    rw [map_cons, map_cons, join_cons_flatMap, join_cons_flatMap]
    induction xs generalizing x with
    | nil => rw [map_nil, flatMap_nil, item x [] rfl, nil]; rfl
    | cons y ys ih =>
      rw [map_cons, map_cons, flatMap_cons, flatMap_cons, append_assoc,
        item x _ rfl, comma y, ih y, append_assoc]

end

end SqlRoutine.Text

namespace SqlRoutine.Body

open Code Expression List Option Text

variable {c : Char} {prev : Option Char} {m rest t u z z' : Text}

/-! ### Parameters -/

/-- A value: a literal on one line without variables and plus signs, or a name or number. -/
inductive ParameterValue where
  | quoted (text : Text) (plain : (text.all fun c => !(['@', '+', '\n'].contains c)))
  | word (negative : Bool) (text : Text) (notEmpty : text ≠ [])
      (allowed : text.all (fun c => isWord c || c == '.'))

/-- A word that marks an output parameter. -/
structure OutputWord where
  text : Text
  isMarker : IsMarker text

/-- **A named parameter**, with an output marker or without. -/
structure NamedParameter where
  name : VariableName
  value : ParameterValue
  marker : Option OutputWord

/-- **A call with named parameters.** -/
structure NamedCall where
  indent : Indentation
  target : Target
  parameters : List NamedParameter

/-- The value as it stands in the source. -/
def ParameterValue.text : ParameterValue → Text
  | .quoted text _ => Code.literal text
  | .word negative text _ _ => (if negative then ['-'] else []) ++ text

namespace NamedParameter

/-- The blank and the word of an output parameter. -/
def markerText (x : NamedParameter) : Text :=
  match x.marker with
  | some m => ' ' :: m.text
  | none => []

/-- The parameter for SQL Server. -/
def source (x : NamedParameter) : Text :=
  '@' :: (x.name.text ++ (" = ".toList ++ (x.value.text ++ x.markerText)))

/-- The parameter for PL/pgSQL, where the sign before the name and the value are given. -/
def written (sign : Char) (value : ParameterValue → Text) (x : NamedParameter) : Text :=
  sign :: (x.name.text ++ (" => ".toList ++ value x.value))

end NamedParameter

namespace NamedCall

/-- The call for SQL Server. -/
def source (c : NamedCall) : Text :=
  c.indent.text ++ ("exec ".toList ++
    (c.target.text ++ ' ' :: join ", ".toList (c.parameters.map NamedParameter.source)))

/-- The parameters for PL/pgSQL. -/
def renderedParameters (c : NamedCall) : Text :=
  join ", ".toList (c.parameters.map (NamedParameter.written '_' ParameterValue.text))

/-- **The call for PL/pgSQL.** -/
def render (c : NamedCall) : Text :=
  c.indent.text ++ "Call ".toList ++ c.target.text.remove (fun c => c == '[' || c == ']') ++
    " (".toList ++ c.renderedParameters ++ ");".toList

end NamedCall

/-! ### Values -/

namespace ParameterValue

theorem mem_doubled {text : Text} (h : c ∈ doubled text) : c ∈ text := by
  obtain ⟨d, hd, hc⟩ := mem_flatMap.mp h
  split_ifs at hc with hquote
  · have hcd : c = d := by simpa [hquote] using hc
    rwa [hcd]
  · rwa [mem_singleton.mp hc]

theorem not_mem_text (v : ParameterValue) (hc : c ∈ ['@', '+', '\n']) : c ∉ v.text := by
  cases v with
  | quoted text plain =>
    intro hin
    have hquote : c ≠ quote := by
      rintro rfl
      exact absurd hc (by decide)
    simp only [ParameterValue.text, Code.literal, mem_cons, mem_append, hquote, false_or,
      not_mem_nil, or_false] at hin
    have hplain := List.all_eq_true.mp plain c (mem_doubled hin)
    rw [contains_iff_mem.mpr hc] at hplain
    cases hplain
  | word negative text notEmpty allowed =>
    intro hin
    have hplain : (isWord c || c == '.') = false := by
      simp only [mem_cons, not_mem_nil, or_false] at hc
      rcases hc with rfl | rfl | rfl <;> decide
    have hdash : c ∉ (if negative then ['-'] else [] : Text) := by
      simp only [mem_cons, not_mem_nil, or_false] at hc
      rcases hc with rfl | rfl | rfl <;> cases negative <;> decide
    rcases mem_append.mp hin with hin | hin
    · exact hdash hin
    · have hword := List.all_eq_true.mp allowed c hin
      rw [hplain] at hword
      cases hword

theorem not_blank_of_allowed (h : (isWord c || c == '.')) : isBlank c = false := by
  refine Bool.eq_false_of_not_eq_true fun hblank => ?_
  rw [isWord_blank hblank, Bool.false_or, beq_iff_eq] at h
  subst h
  cases hblank

/-- What is left of a value behind the equals sign when the markers have been removed. -/
def left (v : ParameterValue) : Text := trimStart (unmarked (' ' :: v.text))

theorem exists_cons_text (v : ParameterValue) : ∃ c t, v.text = c :: t ∧ isBlank c = false := by
  cases v with
  | quoted text plain => exact ⟨_, _, rfl, rfl⟩
  | word negative text notEmpty allowed =>
    cases negative with
    | true => exact ⟨_, _, rfl, rfl⟩
    | false =>
      obtain ⟨c, t, rfl⟩ := exists_cons_of_ne_nil notEmpty
      rw [all_cons, Bool.and_eq_true] at allowed
      exact ⟨c, t, rfl, not_blank_of_allowed allowed.1⟩

theorem exists_getLast?_text (v : ParameterValue) :
    ∃ c, v.text.getLast? = some c ∧ isBlank c = false ∧ c ≠ ';' := by
  cases v with
  | quoted text plain =>
    refine ⟨quote, ?_, rfl, by decide⟩
    rw [ParameterValue.text, Code.literal, ← cons_append, getLast?_concat]
  | word negative text notEmpty allowed =>
    refine ⟨text.getLast notEmpty, ?_, ?_⟩
    · rw [ParameterValue.text, getLast?_append, getLast?_eq_some_getLast notEmpty, some_or]
    · have hlast := List.all_eq_true.mp allowed _ (getLast_mem notEmpty)
      refine ⟨not_blank_of_allowed hlast, fun hsemicolon => ?_⟩
      rw [hsemicolon] at hlast
      exact absurd hlast (by decide)

theorem commentFrom_doubled (text z : Text) :
    commentFrom true (doubled text ++ quote :: z) = commentFrom false z := by
  induction text with
  | nil => rw [doubled, flatMap_nil, nil_append, commentFrom_cons, if_pos rfl]; rfl
  | cons c text ih =>
    by_cases hc : c = quote
    · rw [hc, doubled_cons_quote, cons_append, cons_append, commentFrom_cons,
        if_pos rfl, commentFrom_cons, if_pos rfl]
      exact ih
    · rw [doubled_cons hc, cons_append, commentFrom_cons, if_neg hc, if_neg (by simp)]
      exact ih

theorem commentFrom_append (v : ParameterValue) (z : Text) :
    commentFrom false (v.text ++ z) = commentFrom false z := by
  cases v with
  | quoted text plain =>
    rw [ParameterValue.text, Code.literal, cons_append, append_assoc, commentFrom_cons,
      if_pos rfl]
    exact commentFrom_doubled text z
  | word negative text notEmpty allowed =>
    have hbare : isBare text := by
      refine List.all_eq_true.mpr fun c hc => ?_
      have hword := List.all_eq_true.mp allowed c hc
      rw [Bool.and_eq_true, bne_iff_ne, bne_iff_ne]
      constructor
      · rintro rfl
        exact absurd hword (by decide)
      · rintro rfl
        exact absurd hword (by decide)
    cases negative with
    | false => exact Code.commentFrom_append hbare false z
    | true =>
      obtain ⟨c, t, rfl⟩ := exists_cons_of_ne_nil notEmpty
      have hc : c ≠ '-' := by
        rintro rfl
        exact absurd hbare (by simp [isBare])
      have hdashes : startsWith ('-' :: (c :: t ++ z)) ['-', '-'] = false := by
        rw [← Bool.not_eq_true, startsWith_dashes]
        exact fun h => hc (Option.some.inj h.2)
      change commentFrom false ('-' :: (c :: t ++ z)) = _
      rw [commentFrom_cons, if_neg (by decide), hdashes, Bool.and_false, if_neg (by simp)]
      exact Code.commentFrom_append hbare false z

end ParameterValue

/-! ### Reading the call -/

/-- The text ends with neither a blank nor a semicolon. -/
def endsFirm (t : Text) : Bool := t.getLast?.all fun c => !isBlank c && c != ';'

theorem endsFirm_append (ht : endsFirm t) (hz : endsFirm z) :
    endsFirm (t ++ z) := by
  unfold endsFirm at *
  rw [getLast?_append]
  cases hlast : z.getLast? with
  | none => exact ht
  | some c => rw [hlast] at hz; exact hz

theorem bareParameters_of_endsFirm (hstart : t.trimStart = t) (hend : endsFirm t) :
    bareParameters t = t := by
  have hdrop : ∀ P : Char → Bool, (∀ c, P c → (!isBlank c && c != ';') = false) →
      t.dropEndWhile P = t := by
    intro P hP
    refine rdropWhile_eq_self_iff.mpr fun hne hlast => ?_
    have hfirm : (!isBlank (t.getLast hne) && t.getLast hne != ';') := by
      rw [endsFirm, getLast?_eq_some_getLast hne] at hend
      exact hend
    rw [hP _ hlast] at hfirm
    cases hfirm
  have htrim : t.trim = t := by
    rw [trim, hstart]
    exact hdrop isBlank fun c hc => by rw [hc]; rfl
  have hterminator : t.dropEndWhile (· == ';') = t :=
    hdrop (· == ';') fun c hc => by rw [bne, hc, Bool.not_true, Bool.and_false]
  rw [bareParameters, htrim, hterminator, htrim]

theorem VariableName.not_mem (v : VariableName) (hc : isWord c = false) : c ∉ v.text := by
  intro hin
  have hword := List.all_eq_true.mp v.word c hin
  rw [hc] at hword
  cases hword

namespace NamedParameter

theorem markerText_cases (x : NamedParameter) :
    x.markerText = [] ∨ ∃ m, x.markerText = ' ' :: m ∧ IsMarker m := by
  unfold markerText
  cases x.marker with
  | none => exact .inl rfl
  | some m => exact .inr ⟨m.text, rfl, m.isMarker⟩

theorem endsFirm_markerText (x : NamedParameter) : endsFirm x.markerText := by
  rcases x.markerText_cases with h | ⟨m, h, hm⟩
  · rw [h]; rfl
  · obtain ⟨c, m', hcons, -⟩ := hm.exists_cons
    have hne : m ≠ [] := by rw [hcons]; exact cons_ne_nil c m'
    have hlast := List.all_eq_true.mp hm.all_isWord _ (getLast_mem hne)
    have hblank : isBlank (m.getLast hne) = false := Bool.eq_false_of_not_eq_true fun hblank => by
      rw [isWord_blank hblank] at hlast
      cases hlast
    have hsemicolon : m.getLast hne ≠ ';' := fun hsemicolon => by
      rw [hsemicolon] at hlast
      exact absurd hlast (by decide)
    rw [h, endsFirm, getLast?_cons, getLast?_eq_some_getLast hne, getD_some,
      all_some, hblank, bne_iff_ne.mpr hsemicolon]
    rfl

theorem endsFirm_source (x : NamedParameter) : endsFirm x.source := by
  have hvalue : endsFirm ('@' :: (x.name.text ++ " = ".toList) ++ x.value.text) := by
    obtain ⟨c, hlast, hblank, hsemicolon⟩ := x.value.exists_getLast?_text
    rw [endsFirm, getLast?_append, hlast, some_or, all_some, hblank,
      bne_iff_ne.mpr hsemicolon]
    rfl
  have hfirm := endsFirm_append hvalue x.endsFirm_markerText
  simpa only [source, cons_append, append_assoc] using hfirm

theorem not_mem_source (x : NamedParameter) : '\n' ∉ x.source := by
  have hname : '\n' ∉ x.name.text := x.name.not_mem rfl
  have hmarker : '\n' ∉ x.markerText := by
    rcases x.markerText_cases with h | ⟨m, h, hm⟩
    · rw [h]; exact not_mem_nil
    · rw [h, mem_cons]
      rintro (hblank | hin)
      · exact absurd hblank (by decide)
      · exact absurd (List.all_eq_true.mp hm.all_isWord _ hin) (by decide)
  have hvalue := x.value.not_mem_text (c := '\n') (by decide)
  simp only [source, mem_cons, mem_append, not_or]
  exact ⟨by decide, hname, by decide, hvalue, hmarker⟩

theorem commentFrom_append (x : NamedParameter) (z : Text) :
    commentFrom false (x.source ++ z) = commentFrom false z := by
  have hmarker : isBare x.markerText := by
    rcases x.markerText_cases with h | ⟨m, h, hm⟩
    · rw [h]; rfl
    · rw [h, isBare, all_cons]; exact isBare_of_isWord hm.all_isWord
  have hname : isBare ('@' :: (x.name.text ++ " = ".toList)) := by
    have hword := isBare_of_isWord x.name.word
    unfold isBare at hword ⊢
    rw [all_cons, all_append, hword]
    rfl
  calc commentFrom false (x.source ++ z)
      = commentFrom false
          ('@' :: (x.name.text ++ " = ".toList) ++ (x.value.text ++ (x.markerText ++ z))) := by
        simp only [source, cons_append, append_assoc]
    _ = commentFrom false z := by
        rw [Code.commentFrom_append hname, x.value.commentFrom_append, Code.commentFrom_append hmarker]

end NamedParameter

variable (xs : List NamedParameter)

/-- The parameters of a call for SQL Server. -/
def parametersText : Text := join ", ".toList (xs.map NamedParameter.source)

theorem bareParameters_parametersText : bareParameters (parametersText xs) = parametersText xs := by
  refine bareParameters_of_endsFirm ?_ ?_
  · exact join_induction (P := fun t => t.trimStart = t) rfl (fun _ _ _ _ => rfl) (fun _ _ _ => rfl) xs
  · refine join_induction (P := fun t => endsFirm t) rfl ?_ ?_ xs
    · exact fun x z _ hz => endsFirm_append x.endsFirm_source hz
    · intro x z h
      unfold endsFirm at h ⊢
      rw [getLast?_append]
      cases hlast : (x.source ++ z).getLast? with
      | none => simp [NamedParameter.source] at hlast
      | some c => rw [hlast] at h; exact h

theorem splitComment_parametersText : splitComment (parametersText xs) = (parametersText xs, []) := by
  refine splitComment_of_none ?_
  refine join_induction (P := fun t => commentFrom false t = []) rfl ?_ ?_ xs
  · exact fun x z _ hz => (x.commentFrom_append z).trans hz
  · exact fun x z h => (commentFrom_append (m := ", ".toList) rfl false _).trans h

theorem restOfLine?_parametersText :
    restOfLine? (trimStart (' ' :: parametersText xs)) = some (parametersText xs) := by
  have htrim : trimStart (' ' :: parametersText xs) = parametersText xs :=
    join_induction (P := fun t => trimStart (' ' :: t) = t) rfl (fun _ _ _ _ => rfl)
      (fun _ _ _ => rfl) xs
  rw [htrim]
  refine restOfLine?_of_oneLine ?_
  refine join_induction (P := fun t => '\n' ∉ t) not_mem_nil ?_ ?_ xs
  · intro x z _ hz
    rw [mem_append]
    exact not_or.mpr ⟨x.not_mem_source, hz⟩
  · intro x z h
    rw [mem_append]
    exact not_or.mpr ⟨by decide, h⟩

/-- **A call with named parameters is read as a call.** -/
theorem call?_source (c : NamedCall) :
    call? c.source = some (.call c.indent.text c.target.text (parametersText c.parameters) []) := by
  obtain ⟨hindent, htrim⟩ := indent_and_trimStart c.indent.blank "exec ".toList rfl
    (c.target.text ++ ' ' :: parametersText c.parameters)
  obtain ⟨htake, hdrop⟩ := run_append c.target.allowed
    (z := ' ' :: parametersText c.parameters) rfl
  obtain ⟨d, t, hcons⟩ := exists_cons_of_ne_nil c.target.notEmpty
  obtain ⟨hblank, -, hat⟩ := isTargetChar_iff.mp
    (List.all_eq_true.mp c.target.allowed d (by rw [hcons]; exact mem_cons_self))
  have hkeyword : ∀ t : Text, anyKeyword? ["Execute".toList, "Exec".toList] ("exec ".toList ++ t) =
      some (' ' :: t) := fun _ => rfl
  have hblanks : blanks? (' ' :: (c.target.text ++ ' ' :: parametersText c.parameters)) =
      some (c.target.text ++ ' ' :: parametersText c.parameters) := by
    rw [blanks?, if_pos (by decide), hcons, cons_append, trimStart_of_head hblank]
  have hresult : afterResult (c.target.text ++ ' ' :: parametersText c.parameters) =
      c.target.text ++ ' ' :: parametersText c.parameters := by
    rw [hcons, cons_append, afterResult, atName?, char?, if_neg hat]
    rfl
  have hne : c.target.text.isEmpty = false := isEmpty_eq_false_iff.mpr c.target.notEmpty
  unfold call? NamedCall.source
  rw [← parametersText, hindent, htrim, hkeyword]
  simp only [bind_eq_bind, bind_some, hblanks, hresult, htake, hdrop, hne,
    Bool.false_eq_true, if_false, restOfLine?_parametersText, splitComment_parametersText]
  rfl

/-! ### Converting the parameters -/

theorem unmarked_blank_of_sign (hblank : isBlank c = false) (hword : isWord c = false)
    (t : Text) : unmarked (' ' :: c :: t) = ' ' :: c :: unmarked t := by
  have hnone : outputMarker? (' ' :: c :: t) = none := by
    have hblanks : blanks? (' ' :: c :: t) = some (c :: t) := by
      rw [blanks?, if_pos (by decide), trimStart_of_head hblank]
    have hrun : (c :: t).takeWhile isWord = [] := takeWhile_cons_of_neg (by simp [hword])
    rw [outputMarker?_eq, hblanks, bind_some, hrun, if_neg (by decide)]
  rw [unmarked_of_none hnone, unmarked_of_none (outputMarker?_cons hblank t)]

/-- The marker of a parameter is removed, and with it what looks like a marker in the value. -/
theorem unmarked_source (x : NamedParameter) (hz : atComma z) :
    unmarked (x.source ++ z) =
      '@' :: (x.name.text ++ (" =".toList ++ unmarked (' ' :: x.value.text))) ++ unmarked z := by
  have hname : ∀ c ∈ '@' :: x.name.text, isBlank c = false := by
    intro c hc
    rcases mem_cons.mp hc with rfl | hc
    · rfl
    · exact Bool.eq_false_of_not_eq_true fun hblank => x.name.not_mem (isWord_blank hblank) hc
  have hvalue : (' ' :: x.value.text).getLast?.any (fun c => !isBlank c) := by
    obtain ⟨c, hlast, hblank, -⟩ := x.value.exists_getLast?_text
    rw [getLast?_cons, hlast, getD_some, any_some, hblank]
    rfl
  have hmarker : atWordEnd (x.markerText ++ z) ∧ unmarked (x.markerText ++ z) = unmarked z := by
    rcases x.markerText_cases with h | ⟨m, h, hm⟩
    · rw [h]
      exact ⟨atWordEnd_of_atComma hz, rfl⟩
    · rw [h]
      refine ⟨rfl, unmarked_of_marker (outputMarker?_eq_some_iff.mpr ?_)⟩
      exact ⟨[' '], m, cons_ne_nil _ _, rfl, hm, atWordEnd_of_atComma hz, rfl⟩
  calc unmarked (x.source ++ z)
      = unmarked (('@' :: x.name.text) ++
          ' ' :: '=' :: ((' ' :: x.value.text) ++ (x.markerText ++ z))) := by
        simp only [NamedParameter.source, cons_append, append_assoc]
        rfl
    _ = _ := by
        rw [unmarked_append_left hname, unmarked_blank_of_sign rfl rfl, unmarked_append hvalue hmarker.1,
          hmarker.2]
        simp only [cons_append, append_assoc]
        rfl

/-- The text with an arrow for the equals sign of every named parameter. -/
def arrowed (t : Text) : Text := t.replaceAll fun _ t => namedParameter? t

theorem replaceFrom_named (prev : Option Char) (t : Text) :
    replaceFrom (fun _ t => namedParameter? t) prev t = arrowed t := by
  cases t <;> rfl

theorem arrowed_append {x : Text} (hx : '@' ∉ x) (z : Text) : arrowed (x ++ z) = x ++ arrowed z := by
  induction x with
  | nil => rfl
  | cons c x ih =>
    rw [mem_cons, not_or] at hx
    have hnone : namedParameter? (c :: (x ++ z)) = none := by
      rw [namedParameter?, atName?, char?, if_neg (Ne.symm hx.1)]
      rfl
    rw [cons_append, arrowed, replaceAll_eq, replaceFrom_of_none hnone, replaceFrom_named,
      ih hx.2, cons_append]

theorem arrowed_named (name : VariableName) {y : Text} (hy : y.head? ≠ some '>') :
    arrowed ('@' :: (name.text ++ (" =".toList ++ y))) =
      '@' :: (name.text ++ (" => ".toList ++ arrowed y.trimStart)) := by
  have hname : atName? ('@' :: (name.text ++ (" =".toList ++ y))) =
      some (name.text, " =".toList ++ y) := by
    rw [atName?, char?_cons_self, bind_some]
    exact name?_append name.notEmpty name.word rfl
  have harrow : startsWith y ['>'] = false := by
    cases y with
    | nil => rfl
    | cons c y =>
      have hc : c ≠ '>' := fun h => hy (congrArg some h)
      simp [startsWith, List.isPrefixOf, Ne.symm hc]
  have hfound : namedParameter? ('@' :: (name.text ++ (" =".toList ++ y))) =
      some ('@' :: name.text ++ " => ".toList, y.trimStart) := by
    have hequals : char? '=' (trimStart (" =".toList ++ y)) = some y := rfl
    simp only [namedParameter?, hname, bind_eq_bind, bind_some, hequals, harrow,
      Bool.false_eq_true, if_false]
  have hsplit : '@' :: (name.text ++ (" =".toList ++ y)) =
      '@' :: (name.text ++ (" =".toList ++ indent y)) ++ trimStart y := by
    simp only [cons_append, append_assoc, indent_append_trimStart]
  rw [hsplit] at hfound ⊢
  rw [arrowed, replaceAll_eq, replaceFrom_of_found (cons_ne_nil _ _) hfound,
    replaceFrom_named]
  simp only [cons_append, append_assoc]

namespace ParameterValue

theorem not_mem_left (v : ParameterValue) (hc : c ∈ ['@', '+', '\n']) : c ∉ v.left := by
  intro hin
  rcases mem_cons.mp (unmarked_subset _ (trimStart_subset _ hin)) with rfl | hin
  · exact absurd hc (by decide)
  · exact v.not_mem_text hc hin

theorem head?_unmarked_append (v : ParameterValue) (hz : atComma z) :
    (unmarked (' ' :: v.text) ++ z).head? ≠ some '>' := by
  cases v with
  | quoted text plain =>
    have hkept := unmarked_blank_of_sign (c := quote) rfl rfl (doubled text ++ [quote])
    rw [ParameterValue.text, Code.literal, hkept]
    exact fun h => absurd (Option.some.inj h) (by decide)
  | word negative text notEmpty allowed =>
    intro h
    obtain ⟨t, ht⟩ := head?_eq_some_iff.mp h
    cases hleft : unmarked (' ' :: (ParameterValue.word negative text notEmpty allowed).text) with
    | nil =>
      rw [hleft, nil_append] at ht
      rw [ht] at hz
      cases hz
    | cons c s =>
      rw [hleft, cons_append] at ht
      obtain ⟨rfl, -⟩ := List.cons.inj ht
      have hin := unmarked_subset _ (by rw [hleft]; exact mem_cons_self)
      rcases mem_cons.mp hin with hblank | hin
      · exact absurd hblank (by decide)
      · rcases mem_append.mp hin with hin | hin
        · cases negative
          · cases hin
          · exact absurd hin (by decide)
        · exact absurd (List.all_eq_true.mp allowed _ hin) (by decide)

theorem trimStart_unmarked_append (v : ParameterValue) (hz : atComma z) :
    trimStart (unmarked (' ' :: v.text) ++ z) = v.left ++ z := by
  cases hblank : Text.isBlank (unmarked (' ' :: v.text)) with
  | false => exact (indent_and_trimStart_append hblank z).2
  | true =>
    rw [trimStart_append hblank, trimStart_of_atComma hz, left, trimStart_of_isBlank hblank]
    rfl

end ParameterValue

theorem replaceFrom_of_nowhere {find : Finder Text}
    (h : ∀ prev s, s <:+ t → find prev s = none) (prev : Option Char) :
    replaceFrom find prev t = t := by
  induction t generalizing prev with
  | nil => rfl
  | cons c t ih =>
    rw [replaceFrom_of_none (h prev _ suffix_rfl),
      ih fun prev s hs => h prev s (hs.trans (suffix_cons c t))]

theorem concatenation_of_not_mem (h : '+' ∉ t) : concatenation t = t := by
  have hafter : ∀ prev s, s <:+ t → plusAfterQuoted prev s = none := by
    intro prev s hs
    cases hfind : plusAfterQuoted prev s with
    | none => rfl
    | some found =>
      obtain ⟨inner, hopen, hfind⟩ := bind_eq_some_iff.mp hfind
      obtain ⟨next, hclose, hfind⟩ := bind_eq_some_iff.mp hfind
      obtain ⟨rest, hplus, -⟩ := bind_eq_some_iff.mp hfind
      have hin : '+' ∈ next := trimStart_subset _ (by
        rw [char?_eq_some_iff.mp hplus]; exact mem_cons_self)
      have hinner : '+' ∈ inner := (dropWhile_suffix _).subset (by
        rw [char?_eq_some_iff.mp hclose]; exact mem_cons_of_mem _ hin)
      rw [char?_eq_some_iff.mp hopen] at hs
      exact absurd (hs.subset (mem_cons_of_mem _ hinner)) h
  have hbefore : ∀ prev s, s <:+ t → plusBeforeQuoted prev s = none := by
    intro prev s hs
    cases hfind : plusBeforeQuoted prev s with
    | none => rfl
    | some found =>
      obtain ⟨rest, hplus, -⟩ := bind_eq_some_iff.mp hfind
      rw [char?_eq_some_iff.mp hplus] at hs
      exact absurd (hs.subset mem_cons_self) h
  rw [concatenation, replaceAll_eq, replaceAll_eq, replaceFrom_of_nowhere hafter,
    replaceFrom_of_nowhere hbefore]

/-- **The parameters before anything is spelled anew.** -/
theorem convertParameters_parametersText (p : Profile) : (convertParameters p (parametersText xs)).value =
    respell p (join ", ".toList (xs.map (NamedParameter.written '_' ParameterValue.left))) := by
  have hunmarked : unmarked (parametersText xs) = join ", ".toList (xs.map fun x =>
      '@' :: (x.name.text ++ (" =".toList ++ unmarked (' ' :: x.value.text)))) := by
    refine change_join rfl (fun x z hz => unmarked_source x hz) (fun x z => ?_) xs
    rw [show ", ".toList ++ (x.source ++ z) = ',' :: ' ' :: '@' :: (x.source.tail ++ z) from rfl,
      unmarked_of_none (outputMarker?_cons rfl _), unmarked_blank_of_sign rfl rfl,
      ← unmarked_of_none (outputMarker?_cons rfl _)]
    rfl
  have harrowed : arrowed (join ", ".toList (xs.map fun x =>
      '@' :: (x.name.text ++ (" =".toList ++ unmarked (' ' :: x.value.text))))) =
      join ", ".toList (xs.map (NamedParameter.written '@' ParameterValue.left)) := by
    refine change_join rfl (fun x z hz => ?_) (fun x z => arrowed_append (by decide) _) xs
    have hleft : '@' ∉ x.value.left := x.value.not_mem_left (by decide)
    simp only [cons_append, append_assoc]
    rw [arrowed_named x.name (x.value.head?_unmarked_append hz), x.value.trimStart_unmarked_append hz,
      arrowed_append hleft]
    simp only [NamedParameter.written, cons_append, append_assoc]
  have hnames : localNames
      (join ", ".toList (xs.map (NamedParameter.written '@' ParameterValue.left))) =
      join ", ".toList (xs.map (NamedParameter.written '_' ParameterValue.left)) := by
    refine change_join rfl (fun x z hz => ?_) (fun x z => localNames_append _ _) xs
    have hrest : '@' ∉ x.name.text ++ (" => ".toList ++ x.value.left) := by
      simp only [mem_append, not_or]
      exact ⟨x.name.not_mem rfl, by decide, x.value.not_mem_left (by decide)⟩
    rw [localNames_append]
    congr 1
    exact congrArg ('_' :: ·) (localNames_of_not_mem hrest)
  have hplus : '+' ∉ join ", ".toList (xs.map (NamedParameter.written '_' ParameterValue.left)) := by
    refine join_induction (P := fun t => '+' ∉ t) not_mem_nil ?_ ?_ xs
    · intro x z _ hz
      simp only [NamedParameter.written, mem_append, mem_cons, not_or]
      exact ⟨⟨by decide, x.name.not_mem rfl, by decide, x.value.not_mem_left (by decide)⟩, hz⟩
    · intro x z h
      rw [mem_append]
      exact not_or.mpr ⟨by decide, h⟩
  calc (convertParameters p (parametersText xs)).value
      = (convert p (arrowed (unmarked (bareParameters (parametersText xs))))).value := rfl
    _ = _ := by
        rw [bareParameters_parametersText, hunmarked, harrowed, convert_eq_respell, hnames,
          concatenation_of_not_mem hplus]

/-! ### What the spelling can hide -/

theorem getLast?_of_marker (hmarker : outputMarker? t = some rest)
    (h : t.getLast? = some quote) : rest.getLast? = some quote := by
  obtain ⟨b, m, -, -, hm, -, rfl⟩ := outputMarker?_eq_some_iff.mp hmarker
  rw [getLast?_append, getLast?_append] at h
  cases hrest : rest.getLast? with
  | some d => rwa [hrest] at h
  | none =>
    obtain ⟨c, m', hcons, -⟩ := hm.exists_cons
    have hne : m ≠ [] := by rw [hcons]; exact cons_ne_nil c m'
    rw [hrest, getLast?_eq_some_getLast hne] at h
    have hword := List.all_eq_true.mp hm.all_isWord _ (getLast_mem hne)
    rw [Option.some.inj h] at hword
    exact absurd hword (by decide)

theorem getLast?_unmarked (h : t.getLast? = some quote) : (unmarked t).getLast? = some quote := by
  refine unmarked_induction
    (P := fun t out => t.getLast? = some quote → out.getLast? = some quote) id ?_ ?_ t h
  · intro c t _ ih hlast
    rw [getLast?_cons] at hlast ⊢
    cases ht : t.getLast? with
    | none =>
      rw [ht] at hlast
      rw [getLast?_eq_none_iff.mp ht]
      exact hlast
    | some d =>
      rw [ht] at hlast
      rw [ih (ht.trans hlast)]
      rfl
  · exact fun t rest hmarker ih hlast => ih (getLast?_of_marker hmarker hlast)

theorem isWord_of_mem_newLetters (h : c ∈ newLetters) : isWord c :=
  List.all_eq_true.mp (by decide : newLetters.all isWord) c h

/-- The letters inside a word were there before. -/
theorem exists_of_respelled_word (hm : m.all isWord) (hc : isWord c)
    (h : Respelled (some c) t (m ++ u)) : ∃ s prev, t = m ++ s ∧ Respelled prev s u := by
  induction m generalizing c t with
  | nil => exact ⟨t, some c, rfl, h⟩
  | cons d m ih =>
    rw [all_cons, Bool.and_eq_true] at hm
    obtain ⟨s, rfl, hs⟩ := h.exists_tail fun hstart => by
      rw [atWordStart, hc] at hstart
      cases hstart
    obtain ⟨s, prev, rfl, hrest⟩ := ih hm.2 hm.1 hs
    exact ⟨s, prev, rfl, hrest⟩

/-- Blanks and an output word were there before: no new word starts with an o. -/
theorem exists_of_respelled_marker {b : Text} (hb : b.isBlank)
    (hm : IsMarker m) (h : Respelled prev t (b ++ (m ++ u))) :
    ∃ s prev', t = b ++ (m ++ s) ∧ Respelled prev' s u := by
  induction b generalizing prev t with
  | nil =>
    have hword := hm.all_isWord
    obtain ⟨c, m, rfl, hc⟩ := hm.exists_cons
    rw [all_cons, Bool.and_eq_true] at hword
    have hnew : c ∉ newLetters := by
      intro hin
      have hkeys : newLetters.all (fun c => letterKey c != 'o') := by decide
      exact bne_iff_ne.mp (List.all_eq_true.mp hkeys c hin) hc
    obtain ⟨s, rfl, hs⟩ := h.exists_tail fun _ => hnew
    obtain ⟨s, prev', rfl, hrest⟩ := exists_of_respelled_word hword.2 hword.1 hs
    exact ⟨s, prev', rfl, hrest⟩
  | cons c b ih =>
    rw [isBlank_cons, Bool.and_eq_true] at hb
    obtain ⟨s, rfl, hs⟩ := h.exists_tail fun _ hin => by
      have hword := isWord_of_mem_newLetters hin
      rw [isWord_blank hb.1] at hword
      cases hword
    obtain ⟨s, prev', rfl, hrest⟩ := ih hb.2 hs
    exact ⟨s, prev', rfl, hrest⟩

theorem atWordEnd_of_respelled (hu : atWordEnd u)
    (h : Respelled prev t u) : atWordEnd t := by
  cases u with
  | nil => rw [h.eq_nil]; rfl
  | cons d u =>
    obtain ⟨s, rfl, -⟩ := h.exists_tail fun _ hin => by
      rw [atWordEnd, isWord_of_mem_newLetters hin] at hu
      cases hu
    exact hu

/-- **A quoted text that has lost a marker is not brought back by new words.** -/
theorem unmarked_eq_self_of_respelled (ht : t.getLast? = some quote) (hz : atWordEnd z)
    (h : Respelled prev (unmarked t ++ z) (t ++ z')) : unmarked t = t := by
  induction t generalizing prev with
  | nil => rfl
  | cons c t ih =>
    cases hmarker : outputMarker? (c :: t) with
    | none =>
      rw [unmarked_of_none hmarker] at h ⊢
      rcases t with _ | ⟨d, t⟩
      · rfl
      · rw [ih ht h.tail]
    | some rest =>
      exfalso
      -- the marker would have to stand in what is left, and there is none in front of that
      have hlast := getLast?_of_marker hmarker ht
      obtain ⟨b, m, hne, hb, hm, hend, hsplit⟩ := outputMarker?_eq_some_iff.mp hmarker
      have hend' : atWordEnd (rest ++ z') := by
        cases rest with
        | nil => cases hlast
        | cons d rest => exact hend
      rw [unmarked_of_marker hmarker, hsplit, append_assoc, append_assoc] at h
      obtain ⟨s, prev', heq, hs⟩ := exists_of_respelled_marker hb hm h
      have hfound : outputMarker? (unmarked rest ++ z) = some s := outputMarker?_eq_some_iff.mpr
        ⟨b, m, hne, hb, hm, atWordEnd_of_respelled hend' hs, heq⟩
      have hvisible : (unmarked rest).getLast?.any (fun c => !isBlank c) := by
        rw [getLast?_unmarked hlast]
        rfl
      rw [outputMarker?_append hvisible hz, outputMarker?_unmarked] at hfound
      cases hfound

namespace ParameterValue

theorem unmarked_of_allowed {text : Text} (h : text.all (fun c => isWord c || c == '.')) :
    unmarked text = text := by
  have hkept := unmarked_append_left (fun c hc => not_blank_of_allowed (List.all_eq_true.mp h c hc)) []
  rwa [append_nil, show unmarked [] = [] from rfl, append_nil] at hkept

/-- A marker in front of a name is the name, up to a dot. -/
theorem exists_of_marker {text : Text} (h : text.all (fun c => isWord c || c == '.'))
    (hmarker : outputMarker? (' ' :: text) = some rest) :
    ∃ m, IsMarker m ∧ atWordEnd rest ∧ text = m ++ rest := by
  obtain ⟨b, m, hne, hb, hm, hend, hsplit⟩ := outputMarker?_eq_some_iff.mp hmarker
  obtain ⟨d, b, rfl⟩ := exists_cons_of_ne_nil hne
  obtain ⟨-, htext⟩ := List.cons.inj hsplit
  cases b with
  | nil => exact ⟨m, hm, hend, htext⟩
  | cons c b =>
    have hblank := isBlank_eq_true_iff.mp hb c (by simp)
    have hin : c ∈ text := by rw [htext]; exact mem_cons_self
    have hvisible := not_blank_of_allowed (List.all_eq_true.mp h c hin)
    rw [hvisible] at hblank
    cases hblank

/-- **A value that has lost a marker is not brought back by new words.** -/
theorem left_eq_of_respelled (v : ParameterValue)
    (hz : atComma z) (h : Respelled prev (v.left ++ z) (v.text ++ z')) : v.left = v.text := by
  cases v with
  | quoted text plain =>
    have hleft : (ParameterValue.quoted text plain).left = unmarked (Code.literal text) := by
      have hkept := unmarked_blank_of_sign (c := quote) rfl rfl (doubled text ++ [quote])
      rw [left, ParameterValue.text, Code.literal, hkept, unmarked_of_none (outputMarker?_cons rfl _)]
      rfl
    have hlast : (Code.literal text).getLast? = some quote := by
      rw [Code.literal, ← cons_append, getLast?_concat]
    rw [hleft] at h ⊢
    exact unmarked_eq_self_of_respelled hlast (atWordEnd_of_atComma hz) h
  | word negative text notEmpty allowed =>
    cases negative with
    | true =>
      have hkept := unmarked_blank_of_sign (c := '-') rfl rfl text
      change trimStart (unmarked (' ' :: '-' :: text)) = _
      rw [hkept, unmarked_of_allowed allowed]
      rfl
    | false =>
      change Respelled prev (trimStart (unmarked (' ' :: text)) ++ z) (text ++ z') at h
      change trimStart (unmarked (' ' :: text)) = text
      have htrim : ∀ t : Text, t ⊆ text → t.trimStart = t := by
        intro t ht
        cases t with
        | nil => rfl
        | cons c t =>
          exact trimStart_of_head (not_blank_of_allowed
            (List.all_eq_true.mp allowed c (ht mem_cons_self)))
      cases hmarker : outputMarker? (' ' :: text) with
      | none =>
        rw [unmarked_of_none hmarker, unmarked_of_allowed allowed]
        exact htrim text (List.Subset.refl text)
      | some rest =>
        exfalso
        obtain ⟨m, hm, hend, rfl⟩ := exists_of_marker allowed hmarker
        rw [all_append, Bool.and_eq_true] at allowed
        rw [unmarked_of_marker hmarker, unmarked_of_allowed allowed.2,
          htrim rest (subset_append_right m rest), append_assoc] at h
        obtain ⟨s, -, heq, -⟩ := exists_of_respelled_marker (b := []) rfl hm h
        have hend' : atWordEnd (rest ++ z) := by
          cases rest with
          | nil => exact atWordEnd_of_atComma hz
          | cons d rest => exact hend
        have hword := hm.all_isWord
        obtain ⟨c, m', rfl, -⟩ := hm.exists_cons
        rw [all_cons, Bool.and_eq_true] at hword
        rw [heq, nil_append, cons_append, atWordEnd, hword.1] at hend'
        cases hend'

theorem left_eq_text_iff (v : ParameterValue) : v.left = v.text ↔ hasMarker (' ' :: v.text) = false := by
  rcases unmarked_cases (' ' :: v.text) with ⟨hnone, hkept⟩ | ⟨hsome, hlength⟩
  · obtain ⟨c, t, htext, hc⟩ := v.exists_cons_text
    have hleft : v.left = v.text := by
      rw [left, hkept, htext]
      exact trimStart_of_head hc
    exact ⟨fun _ => hnone, fun _ => hleft⟩
  · have hshort : v.left.length ≤ (unmarked (' ' :: v.text)).length :=
      (dropWhile_suffix _).length_le
    rw [length_cons] at hlength
    constructor
    · intro hleft
      rw [hleft] at hshort
      omega
    · intro hnone
      rw [hsome] at hnone
      cases hnone

end ParameterValue

/-- One parameter and what follows it. -/
theorem left_eq_of_respelled_written (x : NamedParameter)
    (hz : atComma z) (h : Respelled prev (x.written '_' ParameterValue.left ++ z)
      (x.written '_' ParameterValue.text ++ z')) :
    x.value.left = x.value.text ∧ ∃ prev', Respelled prev' z z' := by
  have hname : ∀ value z, x.written '_' value ++ z =
      '_' :: (x.name.text ++ " => ".toList) ++ (value x.value ++ z) := fun value z => by
    simp only [NamedParameter.written, cons_append, append_assoc]
  rw [hname, hname] at h
  have hvalue := h.of_append
  have hkept := x.value.left_eq_of_respelled hz hvalue
  rw [hkept] at hvalue
  exact ⟨hkept, _, hvalue.of_append⟩

/-- Where the values that are left are brought to those of the source by new words, no value has lost
anything. -/
theorem left_eq_of_respelled_join
    (h : Respelled prev (join ", ".toList (xs.map (NamedParameter.written '_' ParameterValue.left)))
      (join ", ".toList (xs.map (NamedParameter.written '_' ParameterValue.text)))) :
    ∀ x ∈ xs, x.value.left = x.value.text := by
  cases xs with
  | nil => exact fun x hx => absurd hx not_mem_nil
  | cons x xs =>
    rw [map_cons, map_cons, join_cons_flatMap, join_cons_flatMap] at h
    induction xs generalizing x prev with
    | nil =>
      obtain ⟨hkept, -⟩ := left_eq_of_respelled_written x rfl h
      exact fun x' hx => mem_singleton.mp hx ▸ hkept
    | cons y ys ih =>
      rw [map_cons, map_cons, flatMap_cons, flatMap_cons] at h
      obtain ⟨hkept, prev', hrest⟩ := left_eq_of_respelled_written x rfl h
      rw [append_assoc, append_assoc] at hrest
      intro x' hx
      rcases mem_cons.mp hx with rfl | hx
      · exact hkept
      · exact ih y hrest.of_append x' hx

/-- **The parameters of a call are kept just when** no marker is found in a value and nothing is spelled
anew. -/
theorem convertParameters_eq_iff (p : Profile) :
    (convertParameters p (parametersText xs)).value =
        join ", ".toList (xs.map (NamedParameter.written '_' ParameterValue.text)) ↔
      (∀ x ∈ xs, hasMarker (' ' :: x.value.text) = false) ∧
        Settled p (join ", ".toList (xs.map (NamedParameter.written '_' ParameterValue.text))) := by
  have hlist : (∀ x ∈ xs, x.value.left = x.value.text) →
      xs.map (NamedParameter.written '_' ParameterValue.left) =
        xs.map (NamedParameter.written '_' ParameterValue.text) := fun hkept =>
    map_congr_left fun x hx => by rw [NamedParameter.written, NamedParameter.written, hkept x hx]
  rw [convertParameters_parametersText]
  constructor
  · intro h
    have hrespelled := respell_respelled p
      (join ", ".toList (xs.map (NamedParameter.written '_' ParameterValue.left)))
    rw [h] at hrespelled
    have hkept := left_eq_of_respelled_join xs hrespelled
    rw [hlist hkept] at h
    exact ⟨fun x hx => x.value.left_eq_text_iff.mp (hkept x hx), (respell_eq_self_iff p _).mp h⟩
  · rintro ⟨hnone, hsettled⟩
    rw [hlist fun x hx => x.value.left_eq_text_iff.mpr (hnone x hx)]
    exact (respell_eq_self_iff p _).mpr hsettled

/-- **A call with named parameters is converted parameter by parameter**, with the markers removed and every
value character for character as in the source, just when no value holds a marker itself and nothing in the
list of parameters is spelled anew. -/
theorem convert_namedCall_iff {p : Profile} (hp : p.snakeCase = false) (ahead : List Text) (c : NamedCall) :
    ∃ s, call? c.source = some s ∧ ((s.convert p ahead).value = c.render ↔
      (∀ x ∈ c.parameters, hasMarker (' ' :: x.value.text) = false) ∧ Settled p c.renderedParameters) := by
  refine ⟨_, call?_source c, ?_⟩
  have htarget : callTarget p c.target.text = c.target.text.remove fun c => c == '[' || c == ']' := by
    rw [callTarget, hp, Bool.false_and, if_neg Bool.false_ne_true]
  have hvalue : ((Statement.call c.indent.text c.target.text (parametersText c.parameters) []).convert
      p ahead).value = c.indent.text ++ "Call ".toList ++
        (c.target.text.remove fun c => c == '[' || c == ']') ++ " (".toList ++
        (convertParameters p (parametersText c.parameters)).value ++ ");".toList := by
    rw [Statement.convert, Noted.value_bind, Noted.value_pure, htarget]
    rfl
  rw [hvalue, NamedCall.render, List.append_cancel_right_eq, List.append_cancel_left_eq]
  exact convertParameters_eq_iff c.parameters p

/-- A note that ends with the word `output` loses it, and one that ends with `outputs` is kept; the marker
of the second parameter is removed from both calls. -/
theorem convert_namedCall_note :
    ((call? "exec Foo @note = 'its output', @count = 5 output".toList).map
        fun s => (s.convert .standard []).value) ≠
      some "Call Foo (_note => 'its output', _count => 5);".toList ∧
    ((call? "exec Foo @note = 'its outputs', @count = 5 output".toList).map
        fun s => (s.convert .standard []).value) =
      some "Call Foo (_note => 'its outputs', _count => 5);".toList := by
  have hcall := fun note plain => convert_namedCall_iff (p := .standard) rfl []
    ⟨⟨[], rfl⟩, ⟨"Foo".toList, by decide, by decide⟩,
      [⟨⟨"note".toList, by decide, by decide⟩, .quoted note plain, none⟩,
        ⟨⟨"count".toList, by decide, by decide⟩, .word false "5".toList (by decide) (by decide),
          some ⟨"output".toList, by decide⟩⟩]⟩
  constructor
  · obtain ⟨s, hread, hiff⟩ := hcall "its output".toList (by decide)
    intro h
    rw [show call? "exec Foo @note = 'its output', @count = 5 output".toList = some s from hread] at h
    have hnone := (hiff.mp (Option.some.inj h)).1 _ List.mem_cons_self
    exact absurd hnone (by decide)
  · obtain ⟨s, hread, hiff⟩ := hcall "its outputs".toList (by decide)
    rw [show call? "exec Foo @note = 'its outputs', @count = 5 output".toList = some s from hread]
    refine congrArg some (hiff.mpr ⟨?_, ?_⟩)
    · intro x hx
      simp only [List.mem_cons, List.not_mem_nil, or_false] at hx
      rcases hx with rfl | rfl <;> decide
    · exact ⟨by decide, by decide, by decide, by decide⟩

end SqlRoutine.Body

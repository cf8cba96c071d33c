import SqlRoutine.Proofs.Expression.Completeness
import SqlRoutine.Proofs.Expression.Sigil

/-! # Types inside a text are converted completely

Of the `varchar` types only the long ones are replaced (`longVarchar_eq`): a short one is passed over, and
no other starts within it. So **a converted text has neither a variable's sign nor a narrow
integer nor a long `varchar`** (`dataType_clean`), and converting it again changes nothing. -/

namespace SqlRoutine.DataType

open Expression List Option Text

variable {t rest : Text} {minimum : ℤ}

/-! ### Long ones -/

/-- Reads a `varchar` of at least the given length. -/
def longVarchar? (minimum : ℤ) (t : Text) : Option Text :=
  (varchar? t).bind fun (length, rest) => if length.atLeast minimum then some rest else none

/-- Long `varchar` types give way to `text`. -/
def longSubstitution (minimum : ℤ) : Substitution := ⟨true, longVarchar? minimum, "text".toList⟩

/-- **A `varchar` of at least the given length stands somewhere in the text**, where a word may start. -/
def HasLongVarchar (minimum : ℤ) (t : Text) : Prop :=
  ∃ before m after length, t = before ++ (m ++ after) ∧ IsVarchar length m ∧
    length.atLeast minimum ∧ atWordStart before.getLast?

theorem longVarchar?_eq_some_iff : longVarchar? minimum t = some rest ↔
    ∃ length, varchar? t = some (length, rest) ∧ length.atLeast minimum := by
  unfold longVarchar?
  rw [bind_eq_some_iff]
  constructor
  · rintro ⟨⟨length, rest'⟩, hread, hlong⟩
    dsimp only at hlong
    split_ifs at hlong with hleast
    obtain rfl := Option.some.inj hlong
    exact ⟨length, hread, hleast⟩
  · rintro ⟨length, hread, hleast⟩
    exact ⟨(length, rest), hread, if_pos hleast⟩

theorem occurs_longSubstitution_iff : (longSubstitution minimum).Occurs t ↔ HasLongVarchar minimum t := by
  constructor
  · rintro ⟨before, v, rfl, hfound⟩
    obtain ⟨hroom, hscan⟩ := Substitution.isSome_finder_iff.mp hfound
    obtain ⟨after, hafter⟩ := isSome_iff_exists.mp hscan
    obtain ⟨length, hread, hleast⟩ := longVarchar?_eq_some_iff.mp hafter
    obtain ⟨m, rfl, hm⟩ := varchar?_eq_some_iff.mp hread
    exact ⟨before, m, after, length, rfl, hm, hleast, hroom rfl⟩
  · rintro ⟨before, m, after, length, rfl, hm, hleast, hroom⟩
    have hread : longVarchar? minimum (m ++ after) = some after :=
      longVarchar?_eq_some_iff.mpr ⟨length, varchar?_eq_some_iff.mpr ⟨m, rfl, hm⟩, hleast⟩
    refine ⟨before, m ++ after, rfl, Substitution.isSome_finder_iff.mpr ⟨fun _ => hroom, ?_⟩⟩
    exact isSome_iff_exists.mpr ⟨after, hread⟩

theorem varcharWords_initial : varcharWords.all (fun word => word.head?.any fun c =>
    isAscii c && isInitial c) := by decide

theorem isInitial_of_isVarchar {length : Length} {m : Text} (h : IsVarchar length m) :
    ∃ c m', m = c :: m' ∧ isInitial c := by
  obtain ⟨word, hmem, w, b₁, b₂, l, b₃, rfl, hw, -⟩ := h
  have hfirst := List.all_eq_true.mp varcharWords_initial word hmem
  cases word with
  | nil => cases hfirst
  | cons k ks =>
    rw [head?_cons, any_some, Bool.and_eq_true] at hfirst
    cases w with
    | nil => cases hw
    | cons c w =>
      exact ⟨c, _, rfl, isInitial_of_sameLetter hfirst.1 hfirst.2 (List.cons.inj hw).1⟩

theorem named_longSubstitution (minimum : ℤ) : (longSubstitution minimum).Named where
  reads := by
    intro t rest hscan
    obtain ⟨length, hread, -⟩ := longVarchar?_eq_some_iff.mp hscan
    obtain ⟨m, rfl, hm⟩ := varchar?_eq_some_iff.mp hread
    obtain ⟨c, m', rfl, hc⟩ := isInitial_of_isVarchar hm
    have hlast : atWordStart "text".toList.getLast? = false := by decide
    exact ⟨c, m', rfl, hc, fun hroom => absurd hroom (Bool.eq_false_iff.mp hlast)⟩
  writes := show "text".toList.head?.any isInitial = true by decide

/-! ### Short ones are passed over -/

/-- The letter starts none of the words for the type. -/
def isOtherLetter (c : Char) : Bool := letterKey c != 'n' && letterKey c != 'v'

theorem varchar?_of_isOtherLetter {c : Char} (hc : isOtherLetter c) (u : Text) :
    varchar? (c :: u) = none := by
  rw [isOtherLetter, Bool.and_eq_true, bne_iff_ne, bne_iff_ne] at hc
  have hword : ∀ word ∈ varcharWords, keyword? word (c :: u) = none := by
    intro word hmem
    simp only [varcharWords, mem_cons, not_mem_nil, or_false] at hmem
    rcases hmem with rfl | rfl
    · exact if_neg fun hsame => hc.1 (sameLetter_iff.mp hsame).symm
    · exact if_neg fun hsame => hc.2 (sameLetter_iff.mp hsame).symm
  have hnone : anyKeyword? varcharWords (c :: u) = none := findSome?_eq_none_iff.mpr hword
  unfold varchar?
  rw [← varcharWords, hnone]
  rfl

theorem isOtherLetter_of_isBlank {c : Char} (h : isBlank c) : isOtherLetter c := by
  have hother : ∀ k, isWord k → letterKey c ≠ k := by
    rintro k hk rfl
    rw [letterKey_blank h, isWord_blank h] at hk
    cases hk
  rw [isOtherLetter, Bool.and_eq_true, bne_iff_ne, bne_iff_ne]
  exact ⟨hother 'n' rfl, hother 'v' rfl⟩

theorem isOtherLetter_of_isWritten {length : Length} {l : Text} (h : length.IsWritten l) :
    l.all isOtherLetter := by
  cases length with
  | max =>
    have hkeys : l.map letterKey = ['m', 'a', 'x'] := h
    rw [List.all_eq_true]
    intro c hc
    have hkey : letterKey c ∈ ['m', 'a', 'x'] := hkeys ▸ List.mem_map_of_mem hc
    simp only [mem_cons, not_mem_nil, or_false] at hkey
    rw [isOtherLetter]
    rcases hkey with hkey | hkey | hkey
    · rw [hkey]; rfl
    · rw [hkey]; rfl
    · rw [hkey]; rfl
  | characters n =>
    obtain ⟨-, hall, -⟩ := h
    rw [List.all_eq_true] at hall ⊢
    intro c hc
    have hother : ∀ k, isPlainLetter k → isDecimal k = false → isDecimal k.toUpper = false →
        letterKey c ≠ k := by
      intro k hplain hsmall hcapital hkey
      rcases eq_of_letterKey hplain hkey with rfl | rfl
      · rw [hall _ hc] at hsmall
        cases hsmall
      · rw [hall _ hc] at hcapital
        cases hcapital
    rw [isOtherLetter, Bool.and_eq_true, bne_iff_ne, bne_iff_ne]
    exact ⟨hother 'n' rfl rfl rfl, hother 'v' rfl rfl rfl⟩

theorem varcharWords_word : varcharWords.all (·.all isAsciiWord) := by decide

/-- **No `varchar` starts within another one.** -/
theorem varchar?_within {length : Length} {a b : Text} (h : IsVarchar length (a ++ b)) (ha : a ≠ [])
    (hb : b ≠ []) (hroom : atWordStart a.getLast?) (u : Text) : varchar? (b ++ u) = none := by
  obtain ⟨word, hmem, w, b₁, b₂, l, b₃, hsplit, hw, hb₁, hb₂, hb₃, hl⟩ := h
  have hword : w.all isWord :=
    all_isWord_of_spells (List.all_eq_true.mp varcharWords_word word hmem) hw
  have hblank : ∀ {b : Text}, Text.isBlank b → b.all isOtherLetter := fun hb =>
    List.all_eq_true.mpr fun c hc => isOtherLetter_of_isBlank (isBlank_eq_true_iff.mp hb c hc)
  have hother : (b₁ ++ '(' :: (b₂ ++ (l ++ (b₃ ++ [')'])))).all isOtherLetter := by
    simp only [all_append, all_cons, hblank hb₁, hblank hb₂, hblank hb₃,
      isOtherLetter_of_isWritten hl]
    decide
  rcases append_eq_append_iff.mp hsplit with ⟨a', rfl, hb'⟩ | ⟨a', rfl, hrest⟩
  · -- inside the word no word may start
    have hlast : a.getLast?.any isWord := by
      rw [getLast?_eq_some_getLast ha, any_some]
      exact List.all_eq_true.mp hword _ (mem_append_left _ (getLast_mem ha))
    cases hc : a.getLast? with
    | none => rw [hc] at hlast; cases hlast
    | some c =>
      rw [hc, any_some] at hlast
      simp [hc, atWordStart, hlast] at hroom
  · obtain ⟨c, b, rfl⟩ := exists_cons_of_ne_nil hb
    rw [hrest, all_append, Bool.and_eq_true, all_cons, Bool.and_eq_true] at hother
    exact varchar?_of_isOtherLetter hother.2.1 (b ++ u)

/-- **Only the long ones are replaced.** -/
theorem longVarchar_eq (minimum : ℤ) (t : Text) :
    longVarchar minimum t = replaceAll (longSubstitution minimum).finder t := by
  refine replaceFrom_induction (keeps_varcharFinder minimum).proper
    (P := fun prev t out => out = replaceFrom (longSubstitution minimum).finder prev t) ?_ ?_ ?_ none t
  · intro prev
    rfl
  · intro prev c cs hnone ih
    have hlong : (longSubstitution minimum).finder prev (c :: cs) = none := by
      rw [← not_isSome_iff_eq_none, Substitution.isSome_finder_iff]
      rintro ⟨hroom, hscan⟩
      obtain ⟨rest, hrest⟩ := isSome_iff_exists.mp hscan
      obtain ⟨length, hread, -⟩ := longVarchar?_eq_some_iff.mp hrest
      rw [varcharFinder, if_pos (hroom rfl), hread] at hnone
      cases hnone
    rw [replaceFrom_of_none hlong, ih]
  · intro prev m r rest hm hfind ih
    unfold varcharFinder at hfind
    split_ifs at hfind with hroom
    obtain ⟨⟨length, rest'⟩, hread, heq⟩ := map_eq_some_iff.mp hfind
    obtain ⟨rfl, rfl⟩ := Prod.mk.inj heq
    obtain ⟨m', hsplit, hvarchar⟩ := varchar?_eq_some_iff.mp hread
    obtain rfl := append_cancel_right hsplit
    rw [ih]
    split_ifs with hleast
    · have hfound : (longSubstitution minimum).finder prev (m ++ rest') = some ("text".toList, rest') :=
        Substitution.finder_eq_some_iff.mpr
          ⟨fun _ => hroom, longVarchar?_eq_some_iff.mpr ⟨length, hread, hleast⟩, rfl⟩
      rw [replaceFrom_of_found hm hfound]
    · have hlast : m.getLast?.or prev = m.getLast? := by
        rw [getLast?_eq_some_getLast hm, some_or]
      rw [readBefore_append, replaceFrom_passedOver m rest' prev ?_, hlast]
      intro a b hsplit hb
      rw [← not_isSome_iff_eq_none, Substitution.isSome_finder_iff]
      rintro ⟨hstart, hscan⟩
      obtain ⟨rest, hrest⟩ := isSome_iff_exists.mp hscan
      obtain ⟨length', hread', hleast'⟩ := longVarchar?_eq_some_iff.mp hrest
      by_cases ha : a = []
      · -- the one that is read is too short
        subst ha
        rw [nil_append] at hsplit
        rw [← hsplit, hread] at hread'
        obtain ⟨rfl, -⟩ := Prod.mk.inj (Option.some.inj hread')
        exact hleast hleast'
      · rw [hsplit] at hvarchar
        have hinside : atWordStart a.getLast? := by
          have hany := hstart rfl
          rwa [getLast?_eq_some_getLast ha, some_or, ← getLast?_eq_some_getLast ha] at hany
        rw [varchar?_within hvarchar ha hb hinside rest'] at hread'
        cases hread'

/-! ### Nothing is brought back -/

/-- Reads blanks and a length that is at least the given one. -/
def longLength? (minimum : ℤ) (t : Text) : Option Text :=
  (length? t.trimStart).bind fun (length, rest) => if length.atLeast minimum then some rest else none

/-- Reads a word for the type with a long length. -/
def longVarcharOf? (minimum : ℤ) (word t : Text) : Option Text :=
  (((keyword? word t).bind fun t => char? '(' t.trimStart).bind (longLength? minimum)).bind
    fun t => char? ')' t.trimStart

theorem isSome_longVarchar?_iff : (longVarchar? minimum t).isSome ↔
    ∃ word ∈ varcharWords, (longVarcharOf? minimum word t).isSome := by
  have hword : ∀ {word left : Text}, word ∈ varcharWords → keyword? word t = some left →
      longVarchar? minimum t = longVarcharOf? minimum word t := by
    intro word left hmem hkeyword
    obtain ⟨w, hw, rfl⟩ := keyword?_eq_some_iff.mp hkeyword
    unfold longVarchar? varchar? longVarcharOf? longLength?
    rw [← varcharWords, anyKeyword?_of_spells hmem hw, hkeyword]
    simp only [bind_eq_bind, bind_some, bind_assoc]
    cases char? '(' left.trimStart with
    | none => rfl
    | some inner =>
      simp only [bind_some]
      cases length? inner.trimStart with
      | none => rfl
      | some read =>
        obtain ⟨length, after⟩ := read
        simp only [bind_some]
        by_cases hleast : length.atLeast minimum
        · rw [if_pos hleast, bind_some]
          cases char? ')' after.trimStart with
          | none => rfl
          | some rest => exact if_pos hleast
        · rw [if_neg hleast, bind_none]
          cases char? ')' after.trimStart with
          | none => rfl
          | some rest => exact if_neg hleast
  constructor
  · intro hsome
    obtain ⟨rest, hrest⟩ := isSome_iff_exists.mp hsome
    obtain ⟨length, hread, -⟩ := longVarchar?_eq_some_iff.mp hrest
    obtain ⟨left, hany, -⟩ := bind_eq_some_iff.mp hread
    obtain ⟨word, hmem, hkeyword⟩ := exists_of_findSome?_eq_some hany
    exact ⟨word, hmem, by rw [← hword hmem hkeyword, hsome]⟩
  · rintro ⟨word, hmem, hsome⟩
    cases hkeyword : keyword? word t with
    | none =>
      unfold longVarcharOf? at hsome
      rw [hkeyword] at hsome
      cases hsome
    | some left => rw [hword hmem hkeyword, hsome]

section

variable {s : Substitution} (hs : s.Named)
include hs

theorem through_longLength? (hmax : clashes s.atStart s.replacement none "max".toList)
    (minimum : ℤ) : ReadsThrough s.finder (longLength? minimum) := by
  refine hs.through_trimStart (r := fun t => (length? t).bind fun (length, rest) =>
    if length.atLeast minimum then some rest else none) ?_
  intro prev t u hread
  have hinitial : ∀ c, isInitial c → isDecimal c = false := fun c hc =>
    (isInitial_iff.mp hc).2
  obtain ⟨prev', htake, hdrop⟩ := hs.run_replaceFrom hinitial prev t
  obtain ⟨⟨length, rest⟩, hlength, hleast⟩ := bind_eq_some_iff.mp hread
  dsimp only at hleast
  split_ifs at hleast with hlong
  obtain rfl := Option.some.inj hleast
  unfold length? digits? at hlength
  rw [htake, hdrop] at hlength
  by_cases hdigits : t.takeWhile isDecimal = []
  · -- the length is `max`
    have hnone : digits? t = none := by
      rw [digits?, hdigits]
    rw [hdigits] at hlength
    obtain ⟨left, hkeyword, heq⟩ := map_eq_some_iff.mp hlength
    obtain ⟨rfl, rfl⟩ := Prod.mk.inj heq
    obtain ⟨prev'', t', ht', rfl⟩ := hs.through_keyword? hmax prev t left hkeyword
    refine ⟨prev'', t', ?_, rfl⟩
    dsimp only
    rw [length?, hnone, ht', map_some, bind_some]
    rfl
  · obtain ⟨d, ds, hcons⟩ := exists_cons_of_ne_nil hdigits
    rw [hcons] at hlength
    obtain ⟨rfl, rfl⟩ := Prod.mk.inj (Option.some.inj hlength)
    have hsome : digits? t = some (d :: ds, t.dropWhile isDecimal) := by
      rw [digits?, hcons]
    refine ⟨prev', t.dropWhile isDecimal, ?_, rfl⟩
    dsimp only
    rw [length?, hsome]
    exact if_pos hlong

/-- **A substitution that spares long `varchar` types**: its replacement takes part neither in the words nor
in the length. -/
theorem spares_longSubstitution (hmax : clashes s.atStart s.replacement none "max".toList)
    (hwords : varcharWords.all (clashes s.atStart s.replacement none))
    (hinside : startsNone true varcharWords none s.replacement) (minimum : ℤ) :
    s.Spares (longSubstitution minimum) where
  through := by
    intro prev t hscan
    obtain ⟨word, hmem, hread⟩ := isSome_longVarchar?_iff.mp hscan
    have hthrough : ReadsThrough s.finder (longVarcharOf? minimum word) :=
      (((hs.through_keyword? (List.all_eq_true.mp hwords word hmem)).bind
        (hs.through_sign (by decide))).bind (through_longLength? hs hmax minimum)).bind
        (hs.through_sign (by decide))
    exact isSome_longVarchar?_iff.mpr ⟨word, hmem, hthrough.isSome hread⟩
  inside := by
    intro a b hsplit hb prev u
    have hasks : ∀ t rest, (longSubstitution minimum).scan t = some rest →
        ∃ word ∈ varcharWords, (keyword? word t).isSome := by
      intro t rest hscan
      obtain ⟨length, hread, -⟩ := longVarchar?_eq_some_iff.mp hscan
      obtain ⟨left, hany, -⟩ := bind_eq_some_iff.mp hread
      obtain ⟨word, hmem, hkeyword⟩ := exists_of_findSome?_eq_some hany
      exact ⟨word, hmem, by rw [hkeyword]; rfl⟩
    refine Substitution.finder_of_startsNone hasks a none prev (fun hin => by cases hin) ?_ hb u
    rw [← hsplit]
    exact hinside

end

theorem longVarchar_clean (minimum : ℤ) (t : Text) : ¬HasLongVarchar minimum (longVarchar minimum t) := by
  have hnamed := named_longSubstitution minimum
  have hspares : (longSubstitution minimum).Spares (longSubstitution minimum) :=
    spares_longSubstitution hnamed (show clashes true "text".toList none "max".toList = true by decide)
      (show varcharWords.all (clashes true "text".toList none) = true by decide)
      (show startsNone true varcharWords none "text".toList = true by decide) minimum
  rw [longVarchar_eq, ← occurs_longSubstitution_iff]
  exact hspares.not_occurs_self hnamed t

theorem longVarchar_eq_self (h : ¬HasLongVarchar minimum t) : longVarchar minimum t = t := by
  rw [longVarchar_eq]
  exact Substitution.replaceAll_of_not_occurs (occurs_longSubstitution_iff.not.mpr h)

/-! ### Narrow integers -/

theorem narrowIntegers_clean (t : Text) : ¬narrowRule.OccursIn (narrowIntegers t) := by
  rw [narrowIntegers_eq]
  exact not_occursIn_applyRule narrowRule_mem narrowRule_mem (.inl rfl)

theorem narrowIntegers_eq_self (h : ¬narrowRule.OccursIn t) : narrowIntegers t = t := by
  rw [narrowIntegers_eq]
  exact Substitution.replaceAll_of_not_occurs (Rule.occurs_iff.not.mpr h)

theorem narrowIntegers_keeps_clean (h : ¬HasLongVarchar minimum t) :
    ¬HasLongVarchar minimum (narrowIntegers t) := by
  have hnamed := (rules_naming narrowRule narrowRule_mem).named
  have hspares : narrowRule.substitution.Spares (longSubstitution minimum) :=
    spares_longSubstitution hnamed (show clashes true "int".toList none "max".toList = true by decide)
      (show varcharWords.all (clashes true "int".toList none) = true by decide)
      (show startsNone true varcharWords none "int".toList = true by decide) minimum
  rw [narrowIntegers_eq, ← occurs_longSubstitution_iff]
  exact hspares.not_occurs hnamed (named_longSubstitution minimum).scan_nil
    (occurs_longSubstitution_iff.not.mpr h)

end SqlRoutine.DataType

namespace SqlRoutine.Expression

open DataType

/-- **A type is converted completely**: no variable's sign, no narrow integer and no long `varchar` is
left. -/
theorem dataType_clean (p : Profile) (t : Text) :
    '@' ∉ dataType p t ∧ ¬narrowRule.OccursIn (dataType p t) ∧
      ¬HasLongVarchar p.textLength (dataType p t) :=
  ⟨dataType_free p t, narrowIntegers_clean _,
    narrowIntegers_keeps_clean (longVarchar_clean _ _)⟩

theorem dataType_idempotent (p : Profile) (t : Text) : dataType p (dataType p t) = dataType p t := by
  obtain ⟨hsign, hnarrow, hlong⟩ := dataType_clean p t
  rw [dataType.eq_1 p (dataType p t), localNames_of_not_mem hsign, longVarchar_eq_self hlong,
    narrowIntegers_eq_self hnarrow]

/-- **Renaming and the conversion of types are complete and idempotent.** With the built-in functions, a
renamed line holds none of the calls, types and functions that the rules ask for, so that renaming it again
changes nothing. A converted type has no sign of a variable, no narrow integer and no `varchar` of length
`max` or at least the limit, whatever the limit is, and converting it again changes nothing. -/
theorem renaming_complete (p : Profile) (t : Text) :
    (p.functionNames = Profile.builtInFunctionNames →
      (∀ r ∈ rules, ¬r.OccursIn (literal p t)) ∧ literal p (literal p t) = literal p t) ∧
    '@' ∉ dataType p t ∧ ¬DataType.narrowRule.OccursIn (dataType p t) ∧
      ¬DataType.HasLongVarchar p.textLength (dataType p t) ∧
      dataType p (dataType p t) = dataType p t := by
  obtain ⟨hsign, hnarrow, hlong⟩ := dataType_clean p t
  exact ⟨fun hp => ⟨literal_clean hp t, literal_idempotent hp t⟩, hsign, hnarrow, hlong,
    dataType_idempotent p t⟩

/-- A replacement glues to the word behind it, which is a type no longer. -/
theorem renaming_complete_glued :
    Profile.standard.functionNames = Profile.builtInFunctionNames ∧
      literal Profile.standard "GetDate()tinyint".toList = "CURRENT_TIMESTAMPtinyint".toList ∧
      (∀ r ∈ rules, ¬r.OccursIn (literal Profile.standard "GetDate()tinyint".toList)) ∧
      literal Profile.standard "CURRENT_TIMESTAMPtinyint".toList = "CURRENT_TIMESTAMPtinyint".toList := by
  have hliteral : literal Profile.standard "GetDate()tinyint".toList = "CURRENT_TIMESTAMPtinyint".toList := by
    decide +kernel
  obtain ⟨hclean, hagain⟩ := (renaming_complete Profile.standard "GetDate()tinyint".toList).1 rfl
  rw [hliteral] at hagain
  exact ⟨rfl, hliteral, hclean, hagain⟩

end SqlRoutine.Expression

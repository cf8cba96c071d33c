import SqlRoutine.Proofs.Code.Level
import SqlRoutine.Proofs.Code.Terminator

/-! # Three scanners and one lexer

The level of a position says whether it stands in quotes and how deep in parentheses (`levelAt`). What a
scanner looks for stands at some positions of a text (`At`), and the first of them is found by one
recursion along the levels (`first?`, `first?_eq_some_iff`). The scanners for comments and words stop
there (`splitAtDashes_first`, `topLevelWordFrom_first`), and the one for commas cuts at all of them
(`splitCommasFrom_cuts`). So **all three read a text by the same levels** (`scanners_follow_levels`). -/

namespace SqlRoutine.Code

open List Option Text

variable {c : Char} {cs t : Text} {here : Level → Option Char → Text → Bool} {i : ℕ} {l : Level}
  {prev : Option Char}

/-! ### Positions -/

/-- What is looked for stands at the position `i` of a text that starts at the level `l` behind `prev`. -/
def At (here : Level → Option Char → Text → Bool) (l : Level) (prev : Option Char) (t : Text) (i : ℕ) :
    Prop :=
  i < t.length ∧ here (l.after (t.take i)) ((t.take i).getLast?.or prev) (t.drop i)

instance : Decidable (At here l prev t i) := inferInstanceAs (Decidable (_ ∧ _))

theorem at_zero : At here l prev (c :: cs) 0 ↔ here l prev (c :: cs) :=
  and_iff_right (Nat.succ_pos _)

theorem at_succ : At here l prev (c :: cs) (i + 1) ↔ At here (l.next c) (some c) cs i := by
  rw [At, At, take_succ_cons, drop_succ_cons, Level.after_cons, getLast?_cons_or,
    length_cons, Nat.add_lt_add_iff_right]

theorem not_at_nil : ¬At here l prev [] i := fun h => nomatch h.1

/-- **The first position** at which something is found. -/
def first? (here : Level → Option Char → Text → Bool) : Level → Option Char → Text → Option ℕ
  | _, _, [] => none
  | l, prev, c :: cs =>
    if here l prev (c :: cs) then some 0 else (first? here (l.next c) (some c) cs).map (· + 1)

theorem first?_eq_some_iff : first? here l prev t = some i ↔ IsLeast {i | At here l prev t i} i := by
  induction t generalizing l prev i with
  | nil => exact iff_of_false nofun fun h => not_at_nil h.1
  | cons c cs ih =>
    rw [first?]
    split_ifs with hhere
    · have hzero : IsLeast {i | At here l prev (c :: cs) i} 0 :=
        ⟨at_zero.mpr hhere, fun j _ => Nat.zero_le j⟩
      rw [Option.some.injEq]
      exact ⟨fun h => h ▸ hzero, fun h => hzero.unique h⟩
    · -- nothing stands at the first character, so the positions are those of the rest, one further on
      have hzero : ¬At here l prev (c :: cs) 0 := fun h => hhere (at_zero.mp h)
      cases i with
      | zero => exact iff_of_false (by simp) fun h => hzero h.1
      | succ i =>
        rw [map_eq_some_iff]
        simp only [Nat.add_right_cancel_iff, exists_eq_right, ih]
        refine ⟨fun h => ⟨at_succ.mpr h.1, fun j hj => ?_⟩,
          fun h => ⟨at_succ.mp h.1, fun j hj => ?_⟩⟩
        · cases j with
          | zero => exact absurd hj hzero
          | succ j => exact Nat.succ_le_succ (h.2 (at_succ.mp hj))
        · exact Nat.le_of_succ_le_succ (h.2 (at_succ.mpr hj))

theorem first?_eq_none_iff : first? here l prev t = none ↔ ∀ i, ¬At here l prev t i := by
  constructor
  · intro hnone i hi
    -- some position is the least one
    obtain ⟨j, hj⟩ : ∃ j, IsLeast {i | At here l prev t i} j :=
      ⟨_, Nat.isLeast_find ⟨i, hi⟩⟩
    rw [first?_eq_some_iff.mpr hj] at hnone
    cases hnone
  · intro hnone
    rw [eq_none_iff_forall_ne_some]
    exact fun i hi => hnone i (first?_eq_some_iff.mp hi).1

/-! ### Comments and words -/

theorem splitAtDashes_first (l : Level) (prev : Option Char) (t : Text) : splitAtDashes l.quoted t =
    (first? dashesHere l prev t).elim (t, []) fun i => (t.take i, t.drop i) := by
  have hcomment : commentFrom l.quoted t = ((first? dashesHere l prev t).map t.drop).getD [] := by
    induction t generalizing l prev with
    | nil => rfl
    | cons c cs ih =>
      have hhere : dashesHere l prev (c :: cs) = dashesHere l none (c :: cs) := rfl
      rw [commentFrom_level, first?, hhere]
      split_ifs
      · rfl
      · rw [ih (l.next c) (some c), Option.map_map]
        rfl
  have hsplit := splitAtDashes_fst_append_snd l.quoted t
  cases hfirst : first? dashesHere l prev t with
  | none =>
    rw [hfirst] at hcomment
    exact splitAtDashes_of_none hcomment
  | some i =>
    have hrest : (splitAtDashes l.quoted t).2 = t.drop i := by
      rw [hfirst] at hcomment
      exact hcomment
    refine Prod.ext ?_ hrest
    rw [hrest] at hsplit
    exact append_cancel_right (hsplit.trans (take_append_drop i t).symm)

theorem topLevelWordFrom_first {word : Text} (hword : isIdentifier word) (l : Level)
    (prev : Option Char) (t : Text) (position : ℕ) :
    topLevelWordFrom word l.quoted l.depth prev position t =
      (first? (wordHere word) l prev t).map (position + ·) := by
  induction t generalizing l prev position with
  | nil => rfl
  | cons c cs ih =>
    rw [topLevelWordFrom_level l c cs hword, first?]
    split_ifs
    · rfl
    · rw [ih, Option.map_map]
      congr 1
      funext i
      exact (Nat.add_right_comm ..).trans (Nat.add_assoc ..)

/-! ### Commas -/

/-- The positions of the separators when the pieces are put together, from the position `n` on. -/
def cuts : ℕ → List Text → List ℕ
  | n, piece :: next :: pieces => (n + piece.length) :: cuts (n + piece.length + 1) (next :: pieces)
  | _, _ => []

theorem cuts_cons (n : ℕ) (c : Char) (piece : Text) (pieces : List Text) :
    cuts n ((c :: piece) :: pieces) = cuts (n + 1) (piece :: pieces) := by
  cases pieces with
  | nil => rfl
  | cons next pieces =>
    have hlength : n + (c :: piece).length = n + 1 + piece.length := by
      rw [length_cons]
      omega
    rw [cuts, cuts, hlength]

/-- **The pieces make up the text**, and the text is cut at the commas of the top level. -/
theorem splitCommasFrom_cuts (l : Level) (prev : Option Char) (t : Text) :
    ∃ piece pieces, splitCommasFrom l.quoted l.depth t = piece :: pieces ∧
      Text.join [','] (piece :: pieces) = t ∧
        ∀ n i, i ∈ cuts n (piece :: pieces) ↔ ∃ j, At commaHere l prev t j ∧ i = n + j := by
  induction t generalizing l prev with
  | nil =>
    refine ⟨[], [], rfl, rfl, fun n i => iff_of_false nofun ?_⟩
    rintro ⟨j, hj, -⟩
    exact not_at_nil hj
  | cons c cs ih =>
    obtain ⟨piece, pieces, hsplit, hjoin, hcuts⟩ := ih (l.next c) (some c)
    rw [splitCommasFrom_level, hsplit]
    -- the positions of the rest, one further on
    have hrest (n i : ℕ) : i ∈ cuts (n + 1) (piece :: pieces) ↔
        ∃ j, At commaHere l prev (c :: cs) (j + 1) ∧ i = n + (j + 1) := by
      simp only [hcuts, at_succ, Nat.add_right_comm n 1, Nat.add_assoc n]
    by_cases hcomma : commaHere l none (c :: cs)
    · have hc : c = ',' := by simpa [commaHere] using (Bool.and_eq_true_iff.mp hcomma).2
      rw [if_pos hcomma]
      refine ⟨[], piece :: pieces, rfl, ?_, fun n i => ?_⟩
      · rw [Text.join, hjoin, hc]
        · rfl
        · simp
      · rw [cuts, length_nil, Nat.add_zero, mem_cons, hrest]
        refine ⟨?_, ?_⟩
        · rintro (rfl | ⟨j, hj, rfl⟩)
          · exact ⟨0, at_zero.mpr hcomma, rfl⟩
          · exact ⟨j + 1, hj, rfl⟩
        · rintro ⟨j, hj, rfl⟩
          cases j with
          | zero => exact .inl rfl
          | succ j => exact .inr ⟨j, hj, rfl⟩
    · rw [if_neg hcomma]
      refine ⟨c :: piece, pieces, rfl, ?_, fun n i => ?_⟩
      · rw [← hjoin]
        cases pieces <;> simp [Text.join]
      · rw [cuts_cons, hrest]
        refine ⟨?_, ?_⟩
        · rintro ⟨j, hj, rfl⟩
          exact ⟨j + 1, hj, rfl⟩
        · rintro ⟨j, hj, rfl⟩
          cases j with
          | zero => exact absurd (at_zero.mp hj) hcomma
          | succ j => exact ⟨j, hj, rfl⟩

/-! ### What a reader sees -/

/-- The level of a position. -/
def levelAt (t : Text) (i : ℕ) : Level := Level.after {} (t.take i)

/-- Two dashes outside quotes start at the position. -/
def DashesAt (t : Text) (i : ℕ) : Prop := (levelAt t i).quoted = false ∧ ['-', '-'] <+: t.drop i

/-- A comma outside quotes and parentheses stands at the position. -/
def CommaAt (t : Text) (i : ℕ) : Prop := (levelAt t i).isTop ∧ t[i]? = some ','

/-- The letters of the word, each small or capital. -/
def InAnyCase (small word : Text) : Prop := List.Forall₂ (fun k c => c = k ∨ c = k.toUpper) small word

/-- The whole word `FROM` starts at the position, outside quotes and parentheses. -/
def FromAt (t : Text) (i : ℕ) : Prop :=
  (levelAt t i).isTop ∧ ∃ before word after, t = before ++ (word ++ after) ∧ before.length = i ∧
    InAnyCase "from".toList word ∧ before.getLast?.any isWord = false ∧ after.head?.any isWord = false

theorem at_dashes_iff : At dashesHere {} none t i ↔ DashesAt t i := by
  rw [At, DashesAt, dashesHere, Bool.and_eq_true, Bool.not_eq_true', startsWith,
    isPrefixOf_iff_prefix, levelAt]
  refine and_iff_right_of_imp fun h => ?_
  have hlength := h.2.length_le
  rw [length_drop] at hlength
  exact Nat.lt_of_sub_pos (Nat.lt_of_lt_of_le Nat.zero_lt_two hlength)

theorem at_comma_iff : At commaHere {} none t i ↔ CommaAt t i := by
  rw [At, CommaAt, commaHere, Bool.and_eq_true, beq_iff_eq, head?_drop, levelAt]
  exact and_iff_right_of_imp fun h => (List.getElem?_eq_some_iff.mp h.2).1

theorem letterKey_small : ∀ n < 128, isSmall (Char.ofNat n) →
    letterKey (Char.ofNat n) = Char.ofNat n ∧ letterKey (Char.ofNat n).toUpper = Char.ofNat n := by
  decide

theorem map_letterKey_eq_iff {small w : Text} (h : small.all isPlainLetter) :
    w.map letterKey = small ↔ InAnyCase small w := by
  induction small generalizing w with
  | nil => rw [map_eq_nil_iff, InAnyCase, forall₂_nil_left_iff]
  | cons k small ih =>
    rw [all_cons, Bool.and_eq_true] at h
    have hk {c : Char} : letterKey c = k ↔ c = k ∨ c = k.toUpper := by
      refine ⟨eq_of_letterKey h.1, ?_⟩
      have hsmall : isSmall k := by
        simp only [isPlainLetter, Bool.and_eq_true] at h
        exact h.1.1.1.1
      have hkey := letterKey_small k.toNat (by
        have hle : k.toNat ≤ 'z'.toNat := of_decide_eq_true (Bool.and_eq_true_iff.mp hsmall).2
        exact Nat.lt_of_le_of_lt hle (by decide))
      rw [Char.ofNat_toNat] at hkey
      rintro (rfl | rfl)
      · exact (hkey hsmall).1
      · exact (hkey hsmall).2
    rw [map_eq_cons_iff, InAnyCase, forall₂_cons_left_iff]
    simp only [ih h.2, hk, InAnyCase]
    constructor
    · rintro ⟨c, w, hw, hc, hrest⟩
      exact ⟨c, w, hc, hrest, hw⟩
    · rintro ⟨c, w, hc, hrest, hw⟩
      exact ⟨c, w, hw, hc, hrest⟩

theorem word?_from_iff : (word? "FROM".toList t).isSome ↔
    ∃ word after, t = word ++ after ∧ InAnyCase "from".toList word ∧ after.head?.any isWord = false := by
  have hspells {w : Text} : Spells "FROM".toList w ↔ InAnyCase "from".toList w :=
    map_letterKey_eq_iff (by decide)
  have hend (after : Text) : atWordEnd after ↔ after.head?.any isWord = false := by
    cases after <;> simp [atWordEnd]
  rw [isSome_iff_exists]
  constructor
  · rintro ⟨rest, hrest⟩
    obtain ⟨after, hkeyword, hafter⟩ := bind_eq_some_iff.mp hrest
    obtain ⟨word, hword, rfl⟩ := keyword?_eq_some_iff.mp hkeyword
    split_ifs at hafter with hwordEnd
    exact ⟨word, after, rfl, hspells.mp hword, (hend after).mp hwordEnd⟩
  · rintro ⟨word, after, rfl, hword, hafter⟩
    refine ⟨after, ?_⟩
    rw [word?, keyword?_eq_some_iff.mpr ⟨word, hspells.mpr hword, rfl⟩, bind_some,
      if_pos ((hend after).mpr hafter)]

theorem at_from_iff : At (wordHere "FROM".toList) {} none t i ↔ FromAt t i := by
  have hstart (before : Option Char) : atWordStart before ↔ before.any isWord = false := by
    cases before <;> simp [atWordStart]
  rw [At, FromAt, wordHere, Bool.and_eq_true, Bool.and_eq_true, hstart, word?_from_iff, or_none,
    levelAt]
  constructor
  · rintro ⟨hlength, ⟨htop, hbefore⟩, word, after, hsplit, hword, hafter⟩
    refine ⟨htop, t.take i, word, after, ?_, length_take_of_le hlength.le, hword, hbefore, hafter⟩
    rw [← hsplit, take_append_drop]
  · rintro ⟨htop, before, word, after, rfl, rfl, hword, hbefore, hafter⟩
    rw [take_left] at htop ⊢
    rw [drop_left]
    refine ⟨?_, ⟨htop, hbefore⟩, word, after, rfl, hword, hafter⟩
    have hlength : 4 = word.length := hword.length_eq
    simp only [length_append]
    omega

theorem occurs_eq : occurs here l prev t = (first? here l prev t).isSome := by
  induction t generalizing l prev with
  | nil => rfl
  | cons c cs ih =>
    rw [occurs, first?, ih]
    split_ifs with hhere
    · rw [hhere]
      rfl
    · simp [hhere]

/-- **Pieces are found again**: balanced texts without commas of their own. -/
theorem splitCommas_join : ∀ {items : List Text}, items ≠ [] →
    (∀ item ∈ items, Level.after {} item = {} ∧ ∀ i, ¬CommaAt item i) →
      splitCommas (Text.join [','] items) = items
  | [], hne, _ => absurd rfl hne
  | item :: items, _, h => by
    obtain ⟨⟨hlevel, hnone⟩, hitems⟩ := forall_mem_cons.mp h
    have hcomma : occurs commaHere {} none item = false := by
      rw [occurs_eq, first?_eq_none_iff.mpr fun i hi => hnone i (at_comma_iff.mp hi)]
      rfl
    cases items with
    | nil => exact splitCommas_of_none hcomma
    | cons next items =>
      have hrest := splitCommas_join (cons_ne_nil next items) hitems
      rw [Text.join, append_assoc, singleton_append, splitCommas_append hcomma hlevel, hrest]
      simp

theorem exists_trimEnd_append (t : Text) :
    ∃ blanks : Text, blanks.isBlank ∧ t = t.trimEnd ++ blanks :=
  ⟨t.rtakeWhile SqlRoutine.isBlank, List.all_eq_true.mpr fun _ => mem_rtakeWhile_imp,
    (rdropWhile_append_rtakeWhile ..).symm⟩

theorem splitComment_eq : splitComment t =
    (first? dashesHere {} none t).elim (t, []) fun i => (trimEnd (t.take i), t.drop i) := by
  rw [splitComment, splitAtDashes_first {} none t]
  cases hfirst : first? dashesHere {} none t with
  | none => rfl
  | some i =>
    obtain ⟨hlength, -⟩ := (first?_eq_some_iff.mp hfirst).1
    rw [elim_some, elim_some, drop_eq_getElem_cons hlength]

/-- **The three scanners read a text by the same levels.** A comment starts at the first two dashes outside
quotes, and only white space is lost before it. A list is cut at exactly the commas outside quotes and
parentheses, so that its pieces make up the text, and balanced pieces without such commas are found again.
The word `FROM` is found where it first stands outside quotes and parentheses. -/
theorem scanners_follow_levels :
    (∀ t : Text, (∀ i, IsLeast {i | DashesAt t i} i → splitComment t = (trimEnd (t.take i), t.drop i) ∧
        ∃ blanks : Text, blanks.isBlank = true ∧ t = trimEnd (t.take i) ++ blanks ++ t.drop i) ∧
      ((∀ i, ¬DashesAt t i) → splitComment t = (t, []))) ∧
    (∀ t : Text, Text.join [','] (splitCommas t) = t ∧ ∀ i, i ∈ cuts 0 (splitCommas t) ↔ CommaAt t i) ∧
    (∀ items : List Text, items ≠ [] →
      (∀ item ∈ items, Level.after {} item = {} ∧ ∀ i, ¬CommaAt item i) →
        splitCommas (Text.join [','] items) = items) ∧
    ∀ t : Text, (∀ i, topLevelWord? "FROM".toList t = some i ↔ IsLeast {i | FromAt t i} i) ∧
      (topLevelWord? "FROM".toList t = none ↔ ∀ i, ¬FromAt t i) := by
  have hdashes (t : Text) : {i | At dashesHere {} none t i} = {i | DashesAt t i} :=
    Set.ext fun _ => at_dashes_iff
  have hfrom (t : Text) : {i | At (wordHere "FROM".toList) {} none t i} = {i | FromAt t i} :=
    Set.ext fun _ => at_from_iff
  refine ⟨fun t => ⟨fun i hi => ?_, fun hnone => ?_⟩, fun t => ?_, fun _ => splitCommas_join, fun t => ?_⟩
  · obtain ⟨blanks, hblanks, hsplit⟩ := exists_trimEnd_append (t.take i)
    rw [splitComment_eq, first?_eq_some_iff.mpr (hdashes t ▸ hi), Option.elim_some]
    refine ⟨rfl, blanks, hblanks, ?_⟩
    rw [← hsplit, List.take_append_drop]
  · rw [splitComment_eq, first?_eq_none_iff.mpr fun i hi => hnone i (at_dashes_iff.mp hi)]
    rfl
  · obtain ⟨piece, pieces, hsplit, hjoin, hcuts⟩ := splitCommasFrom_cuts {} none t
    rw [show splitCommas t = piece :: pieces from hsplit]
    refine ⟨hjoin, fun i => ?_⟩
    rw [hcuts, ← at_comma_iff]
    simp
  · have hfirst : topLevelWord? "FROM".toList t = first? (wordHere "FROM".toList) {} none t := by
      have hword : isIdentifier "FROM".toList = true := by decide
      have hfound := topLevelWordFrom_first hword {} none t 0
      rw [topLevelWord?]
      simpa using hfound
    rw [hfirst, first?_eq_none_iff]
    refine ⟨fun i => ?_, forall_congr' fun i => not_congr at_from_iff⟩
    rw [first?_eq_some_iff, hfrom]

/-- A comma in parentheses and one in quotes, and dashes in quotes before a comment. -/
theorem scanners_follow_levels_quoted :
    let items := ["f(a, b)".toList, "','".toList]
    let line := "'--' -- it's".toList
    (∀ item ∈ items, Level.after {} item = {} ∧ ∀ i, ¬CommaAt item i) ∧
      splitCommas (Text.join [','] items) = items ∧ IsLeast {i | DashesAt line i} 5 ∧
        splitComment line = ("'--'".toList, "-- it's".toList) := by
  intro items line
  have hitems : ∀ item ∈ items, Level.after {} item = {} ∧ ∀ i, ¬CommaAt item i := by
    have hnone : ∀ item ∈ items, Level.after {} item = {} ∧ first? commaHere {} none item = none := by
      decide
    refine fun item hitem => ⟨(hnone item hitem).1, fun i hi => ?_⟩
    exact first?_eq_none_iff.mp (hnone item hitem).2 i (at_comma_iff.mpr hi)
  have hdashes : IsLeast {i | DashesAt line i} 5 := by
    simp only [← at_dashes_iff]
    exact first?_eq_some_iff.mp (by decide)
  obtain ⟨hcomment, -, hpieces, -⟩ := scanners_follow_levels
  exact ⟨hitems, hpieces items (by decide) hitems, hdashes, ((hcomment line).1 5 hdashes).1⟩

end SqlRoutine.Code

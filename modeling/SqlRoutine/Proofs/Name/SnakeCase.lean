import SqlRoutine.Name.SnakeCase
import SqlRoutine.Proofs.Text.Identifier

/-! # Where the words of a name start

A name is put in snake case in two passes: the first one looks for the last capital of an acronym, the
second one for a capital after a small letter or a digit. Both together are one rule for each position
(`startsWord`): **an underscore goes before every character that starts a word, all others are kept, and
the result is lower-cased** (`snakeCase_eq`). Read off the positions of the name, that is
`snakeCase_underscored`. -/

namespace SqlRoutine.Name

open List Text

variable {a b c : Char} {prev : Option Char} {rule : Option Char → Char → Option Char → Bool}
  {cs r rest t : Text}

/-! ### Rules for a position -/

/-- A small letter or a digit. -/
def isSmallOrDigit (c : Char) : Bool := isSmall c || isDecimal c

/-- A capital after a capital and before a small letter: the last one of an acronym. -/
def endsAcronym (prev : Option Char) (c : Char) (next : Option Char) : Bool :=
  isCapital c && prev.any isCapital && next.any isSmall

/-- A capital after a small letter or a digit. -/
def followsWord (prev : Option Char) (c : Char) (_ : Option Char) : Bool :=
  isCapital c && prev.any isSmallOrDigit

/-- **The character starts a word** of a name, between `prev` and `next`. -/
def startsWord (prev : Option Char) (c : Char) (next : Option Char) : Bool :=
  followsWord prev c next || endsAcronym prev c next

/-- The text with an underscore before each character that satisfies the rule. -/
def marked (rule : Option Char → Char → Option Char → Bool) (prev : Option Char) : Text → Text
  | [] => []
  | c :: cs =>
    if rule prev c cs.head? then '_' :: c :: marked rule (some c) cs else c :: marked rule (some c) cs

theorem marked_of_neg (h : rule prev c cs.head? = false) :
    marked rule prev (c :: cs) = c :: marked rule (some c) cs := by
  rw [marked, h, if_neg Bool.false_ne_true]

theorem marked_of_pos (h : rule prev c cs.head?) :
    marked rule prev (c :: cs) = '_' :: c :: marked rule (some c) cs := by
  rw [marked, if_pos h]

theorem ascii_capital : ∀ n < 128, isCapital (Char.ofNat n) →
    isSmallOrDigit (Char.ofNat n) = false ∧ isSmall (Char.ofNat n) = false ∧
      lowerLetter (Char.ofNat n) ≠ Char.ofNat n := by
  decide +kernel

theorem not_of_isCapital (h : isCapital c) :
    isSmallOrDigit c = false ∧ isSmall c = false ∧ lowerLetter c ≠ c := by
  have hle : c.toNat ≤ 'Z'.toNat := of_decide_eq_true (Bool.and_eq_true_iff.mp h).2
  have hZ : 'Z'.toNat = 90 := rfl
  have hascii := ascii_capital c.toNat (by omega)
  rw [Char.ofNat_toNat] at hascii
  exact hascii h

theorem isCapital_of_isSmallOrDigit (h : isSmallOrDigit c) : isCapital c = false := by
  rw [← Bool.not_eq_true]
  intro hcapital
  rw [(not_of_isCapital hcapital).1] at h
  cases h

theorem isCapital_of_isSmall (h : isSmall c) : isCapital c = false :=
  isCapital_of_isSmallOrDigit (Bool.or_eq_true_iff.mpr (.inl h))

/-! ### The first pass -/

/-- **What the first pass finds**: two or more capitals and the small letter after them. -/
theorem acronymEnd_eq_some (h : acronymEnd prev t = some (r, rest)) :
    ∃ a run last c, t = (a :: run) ++ last :: c :: rest ∧ r = (a :: run) ++ ['_', last, c] ∧
      (a :: run).all isCapital ∧ isCapital last ∧ isSmall c := by
  unfold acronymEnd at h
  split at h
  · next last c rest' hlast hdrop =>
    split_ifs at h with hfound
    cases h
    obtain ⟨init, hrun⟩ := getLast?_eq_some_iff.mp hlast
    have hall : (t.takeWhile isCapital).all isCapital := all_takeWhile ..
    have hsplit := takeWhile_append_dropWhile (p := isCapital) (l := t)
    rw [hrun] at hall hfound ⊢
    rw [hrun, hdrop] at hsplit
    rw [all_append, Bool.and_eq_true] at hall
    simp only [length_append, length_singleton, ge_iff_le, Bool.and_eq_true,
      decide_eq_true_eq] at hfound
    obtain ⟨a, run, rfl⟩ := exists_cons_of_ne_nil (l := init) (by rintro rfl; simp at hfound)
    refine ⟨a, run, last, c, ?_, ?_, hall.1, by simpa using hall.2, hfound.2⟩
    · rw [← hsplit, append_assoc]
      rfl
    · rw [dropLast_concat]
  · cases h

/-- Two capitals at which nothing is found belong to no acronym before a small letter. -/
theorem acronymEnd_eq_none
    (h : acronymEnd prev (a :: b :: cs) = none) (ha : isCapital a) (hb : isCapital b) :
    ((b :: cs).dropWhile isCapital).head?.any isSmall = false := by
  have htake : (a :: b :: cs).takeWhile isCapital = a :: b :: cs.takeWhile isCapital := by
    rw [takeWhile_cons_of_pos ha, takeWhile_cons_of_pos hb]
  have hdrop : (a :: b :: cs).dropWhile isCapital = (b :: cs).dropWhile isCapital :=
    dropWhile_cons_of_pos ha
  unfold acronymEnd at h
  rw [htake, hdrop, getLast?_cons_cons, getLast?_cons] at h
  cases hrest : (b :: cs).dropWhile isCapital with
  | nil => rfl
  | cons c rest =>
    rw [hrest] at h
    simpa using h

theorem proper_acronymEnd : Proper acronymEnd := by
  intro prev t r rest h
  obtain ⟨a, run, last, c, rfl, -⟩ := acronymEnd_eq_some h
  exact ⟨(a :: run) ++ [last, c], by simp, by simp⟩

/-- The capitals of an acronym: only the last one is marked. -/
theorem marked_acronym {last c : Char} (hlast : isCapital last) (hc : isSmall c)
    (rest : Text) : ∀ (run : Text) (prev : Option Char), run.all isCapital →
      (run = [] → prev.any isCapital) →
      marked endsAcronym prev (run ++ last :: c :: rest) =
        run ++ '_' :: last :: c :: marked endsAcronym (some c) rest
  | [], prev, _, hprev => by
    have hcapital := isCapital_of_isSmall hc
    have hlast' : endsAcronym prev last (c :: rest).head? := by
      simp [endsAcronym, hlast, hprev rfl, hc]
    rw [nil_append, marked_of_pos hlast', marked_of_neg (by simp [endsAcronym, hcapital])]
    rfl
  | a :: run, prev, hrun, _ => by
    rw [all_cons, Bool.and_eq_true] at hrun
    have hnext : (run ++ last :: c :: rest).head?.any isSmall = false := by
      cases run with
      | nil => simpa using (not_of_isCapital hlast).2.1
      | cons b run =>
        rw [all_cons, Bool.and_eq_true] at hrun
        simpa using (not_of_isCapital hrun.2.1).2.1
    rw [cons_append, marked_of_neg (by rw [endsAcronym, hnext, Bool.and_false]),
      marked_acronym hlast hc rest run (some a) hrun.2 (fun _ => hrun.1)]
    rfl

/-- The first pass comes to a position inside an acronym only if no small letter follows it. -/
def AcronymPassed (prev : Option Char) (t : Text) : Prop :=
  prev.any isCapital → t.head?.any isCapital →
    (t.dropWhile isCapital).head?.any isSmall = false

theorem replaceFrom_acronymEnd (prev : Option Char) (t : Text) :
    AcronymPassed prev t → replaceFrom acronymEnd prev t = marked endsAcronym prev t := by
  refine replaceFrom_induction proper_acronymEnd
    (P := fun prev t out => AcronymPassed prev t → out = marked endsAcronym prev t) ?_ ?_ ?_ prev t
  · intro prev _
    rfl
  · intro prev c cs hnone ih hpassed
    have hrule : endsAcronym prev c cs.head? = false := by
      rw [← Bool.not_eq_true]
      intro hends
      simp only [endsAcronym, Bool.and_eq_true] at hends
      obtain ⟨⟨hc, hprev⟩, hnext⟩ := hends
      have hsmall := hpassed hprev hc
      cases cs with
      | nil => cases hnext
      | cons d cs =>
        have hd : isCapital d = false := isCapital_of_isSmall hnext
        rw [dropWhile_cons_of_pos hc, dropWhile_cons_of_neg (by simp [hd]), hnext] at hsmall
        cases hsmall
    rw [marked_of_neg hrule, ih]
    intro hc hhead
    cases cs with
    | nil => cases hhead
    | cons b cs => exact acronymEnd_eq_none hnone hc hhead
  · intro prev m r rest _ hfound ih _
    obtain ⟨a, run, last, c, hm, rfl, hrun, hlast, hc⟩ := acronymEnd_eq_some hfound
    have hm' : m = (a :: run) ++ [last, c] := by
      refine append_cancel_right (hm.trans ?_)
      simp
    have hgetLast : m.getLast? = some c := by
      rw [hm', getLast?_append]
      rfl
    have hnext : AcronymPassed m.getLast? rest := by
      intro hprev
      rw [hgetLast, Option.any_some, isCapital_of_isSmall hc] at hprev
      cases hprev
    rw [ih hnext, hm, marked_acronym hlast hc rest (a :: run) prev hrun nofun, hgetLast]
    simp

/-! ### The second pass -/

theorem wordStart_eq_some (h : wordStart prev t = some (r, rest)) :
    ∃ a b, t = a :: b :: rest ∧ r = [a, '_', b] ∧ isSmallOrDigit a ∧ isCapital b := by
  unfold wordStart at h
  split at h
  · next a b rest' =>
    split_ifs at h with hfound
    cases h
    exact ⟨a, b, rfl, rfl, Bool.and_eq_true_iff.mp hfound⟩
  · cases h

theorem wordStart_eq_none
    (h : wordStart prev (a :: b :: cs) = none) (ha : isSmallOrDigit a) : isCapital b = false := by
  rw [← Bool.not_eq_true]
  intro hb
  have hfound : ((isSmall a || isDecimal a) && isCapital b) := Bool.and_eq_true_iff.mpr ⟨ha, hb⟩
  unfold wordStart at h
  dsimp only at h
  rw [if_pos hfound] at h
  cases h

theorem proper_wordStart : Proper wordStart := by
  intro prev t r rest h
  obtain ⟨a, b, rfl, -⟩ := wordStart_eq_some h
  exact ⟨[a, b], by simp, rfl⟩

theorem replaceFrom_wordStart (prev : Option Char) (t : Text) :
    (prev.any isSmallOrDigit → t.head?.any isCapital = false) →
      replaceFrom wordStart prev t = marked followsWord prev t := by
  refine replaceFrom_induction proper_wordStart
    (P := fun prev t out => (prev.any isSmallOrDigit → t.head?.any isCapital = false) →
      out = marked followsWord prev t) ?_ ?_ ?_ prev t
  · intro prev _
    rfl
  · intro prev c cs hnone ih hpassed
    have hrule : followsWord prev c cs.head? = false := by
      rw [← Bool.not_eq_true]
      intro hfollows
      simp only [followsWord, Bool.and_eq_true] at hfollows
      have hhead := hpassed hfollows.2
      rw [head?_cons, Option.any_some, hfollows.1] at hhead
      cases hhead
    rw [marked_of_neg hrule, ih]
    intro hc
    cases cs with
    | nil => rfl
    | cons b cs => exact wordStart_eq_none hnone hc
  · intro prev m r rest _ hfound ih _
    obtain ⟨a, b, hm, rfl, ha, hb⟩ := wordStart_eq_some hfound
    have hm' : m = [a, b] := append_cancel_right (hm.trans rfl)
    subst hm'
    have hfirst : followsWord prev a (b :: rest).head? = false := by
      rw [followsWord, isCapital_of_isSmallOrDigit ha, Bool.false_and]
    have hnext : ([a, b].getLast?.any isSmallOrDigit → rest.head?.any isCapital = false) := by
      intro hprev
      have hword : isSmallOrDigit b := hprev
      rw [(not_of_isCapital hb).1] at hword
      cases hword
    have hsecond : followsWord (some a) b rest.head? := by simp [followsWord, hb, ha]
    rw [ih hnext, hm, marked_of_neg hfirst, marked_of_pos hsecond]
    rfl

/-! ### Both passes -/

theorem isSmallOrDigit_underscore : isSmallOrDigit '_' = false := by decide

theorem marked_marked : ∀ (t : Text) (prev : Option Char),
    marked followsWord prev (marked endsAcronym prev t) = marked startsWord prev t
  | [], _ => rfl
  | c :: cs, prev => by
    cases hacronym : endsAcronym prev c cs.head? with
    | true =>
      have hstarts : startsWord prev c cs.head? := by rw [startsWord, hacronym, Bool.or_true]
      -- the underscore of the first pass neither starts nor ends a word for the second one
      have hsecond : followsWord (some '_') c (marked endsAcronym (some c) cs).head? = false := by
        rw [followsWord, Option.any_some, isSmallOrDigit_underscore, Bool.and_false]
      rw [marked_of_pos hacronym, marked_of_pos hstarts, marked_of_neg rfl, marked_of_neg hsecond,
        marked_marked cs]
    | false =>
      have hsame : startsWord prev c cs.head? = followsWord prev c cs.head? := by
        rw [startsWord, hacronym, Bool.or_false]
      rw [marked_of_neg hacronym, marked, marked, marked_marked cs, hsame]
      rfl

/-- **A name in snake case** has an underscore before each start of a word, and is lower-cased. -/
theorem snakeCase_eq (name : Text) : snakeCase name = (marked startsWord none name).lower := by
  unfold snakeCase
  rw [replaceAll_eq, replaceAll_eq, replaceFrom_acronymEnd none name nofun,
    replaceFrom_wordStart none _ nofun, marked_marked]

/-! ### Identifiers -/

open Text (isAsciiWord isAscii)

theorem mem_marked {rule : Option Char → Char → Option Char → Bool} {d : Char} :
    ∀ {t : Text} {prev : Option Char}, d ∈ marked rule prev t → d = '_' ∨ d ∈ t
  | [], _, h => .inr h
  | c :: cs, prev, h => by
    have htail : d ∈ c :: marked rule (some c) cs → d = '_' ∨ d ∈ c :: cs := by
      intro hd
      rcases mem_cons.mp hd with rfl | hd
      · exact .inr mem_cons_self
      · exact (mem_marked hd).imp_right (mem_cons_of_mem c)
    rw [marked] at h
    split_ifs at h
    · rcases mem_cons.mp h with hd | hd
      · exact .inl hd
      · exact htail hd
    · exact htail h

/-- An identifier is lower-cased character by character. -/
theorem snakeCase_of_word {name : Text} (h : name.all isAsciiWord) :
    snakeCase name = (marked startsWord none name).map Char.toLower ∧
      (snakeCase name).all isAsciiWord := by
  have hmarked : (marked startsWord none name).all isAsciiWord := by
    refine all_eq_true.mpr fun d hd => ?_
    rcases mem_marked hd with rfl | hd
    · decide
    · exact all_eq_true.mp h d hd
  have hlower := lower_of_ascii (all_ascii_of_word hmarked)
  rw [snakeCase_eq, hlower, all_map]
  refine ⟨rfl, all_eq_true.mpr fun d hd => ?_⟩
  obtain ⟨hascii, hword⟩ := isAsciiWord_iff.mp (all_eq_true.mp hmarked d hd)
  obtain ⟨hword', hascii', -⟩ := toLower_of_ascii hascii
  exact isAsciiWord_iff.mpr ⟨hascii', hword'.trans hword⟩

/-! ### Positions -/

/-- **A word starts at the position**: a capital after a small letter or a digit, or after a capital and
before a small letter. -/
def startsWordAt (x : Text) (i : ℕ) : Bool :=
  x[i]?.any isCapital && i != 0 &&
    (x[i - 1]?.any isSmallOrDigit || x[i - 1]?.any isCapital && x[i + 1]?.any isSmall)

/-- **A name with an underscore before each start of a word.** -/
def underscored (x : Text) : Text :=
  x.zipIdx.flatMap fun p => if startsWordAt x p.2 then ['_', p.1] else [p.1]

theorem startsWordAt_append (before : Text) (c : Char) (cs : Text) :
    startsWordAt (before ++ c :: cs) before.length = startsWord before.getLast? c cs.head? := by
  have hhere : (before ++ c :: cs)[before.length]? = some c := by simp
  have hnext : (before ++ c :: cs)[before.length + 1]? = cs.head? := by
    simp [getElem?_append_right, head?_eq_getElem?]
  rw [startsWordAt, hhere, hnext, startsWord, followsWord, endsAcronym, Option.any_some]
  rcases eq_nil_or_concat before with rfl | ⟨init, d, rfl⟩
  · simp
  · simp [Bool.and_or_distrib_left, Bool.and_assoc]

theorem flatMap_startsWordAt : ∀ (before t : Text), ((t.zipIdx before.length).flatMap fun p =>
      if startsWordAt (before ++ t) p.2 then ['_', p.1] else [p.1]) = marked startsWord before.getLast? t
  | _, [] => rfl
  | before, c :: cs => by
    have hrest := flatMap_startsWordAt (before ++ [c]) cs
    rw [append_assoc, singleton_append, length_append, length_singleton,
      getLast?_concat] at hrest
    rw [zipIdx_cons, flatMap_cons, hrest, startsWordAt_append, marked]
    split_ifs <;> rfl

theorem sublist_marked : ∀ (t : Text) (prev : Option Char), t.Sublist (marked rule prev t)
  | [], _ => .slnil
  | c :: cs, prev => by
    have hrest := (sublist_marked cs (some c)).cons_cons c
    rw [marked]
    split_ifs
    · exact hrest.cons '_'
    · exact hrest

theorem marked_of_not_capital : ∀ {t : Text} (prev : Option Char), (∀ c ∈ t, isCapital c = false) →
    marked startsWord prev t = t
  | [], _, _ => rfl
  | c :: cs, prev, h => by
    obtain ⟨hc, hcs⟩ := forall_mem_cons.mp h
    rw [marked_of_neg (by simp [startsWord, followsWord, endsAcronym, hc]), marked_of_not_capital _ hcs]

/-- **Underscores are inserted where words start**, and nowhere else; then the name is lower-cased. Nothing
is removed, and a name in snake case is left alone. -/
theorem snakeCase_underscored (x : Text) :
    snakeCase x = (underscored x).lower ∧ x.Sublist (underscored x) ∧
      snakeCase (snakeCase x) = snakeCase x := by
  have hmarked : underscored x = marked startsWord none x := flatMap_startsWordAt [] x
  refine ⟨?_, ?_, ?_⟩
  · rw [hmarked, snakeCase_eq]
  · rw [hmarked]
    exact sublist_marked x none
  · have hsmall : ∀ c ∈ snakeCase x, isCapital c = false := by
      rw [snakeCase_eq]
      intro c hc
      have hlower := lowerLetter_of_mem_lowerFrom [] hc
      rw [← Bool.not_eq_true]
      exact fun hcapital => (not_of_isCapital hcapital).2.2 hlower
    rw [snakeCase_eq (snakeCase x), marked_of_not_capital none hsmall, snakeCase_eq, lower_lower]

end SqlRoutine.Name

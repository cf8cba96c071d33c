import Mathlib.Tactic
import SqlRoutine.Text.Letter

/-! # Letters and their forms

Which characters are forms of one letter. A blank is a form of nothing but itself (`letterKey_blank`),
and beyond ASCII only `i`, `k` and `s` have further forms (`letterKey_beyond`), so that every other
letter is either small or capital (`eq_of_letterKey`), and a sign of ASCII is a form of nothing but itself
(`eq_of_letterKey_eq`). So the sign `@` of variables is the case of no other character
(`Text.sigil_mem_lower`, `Text.sigil_mem_upper`). -/

namespace SqlRoutine

open List

variable {a b c : Char} {t : Text} {n : ℕ}

theorem sameLetter_iff : sameLetter a b ↔ letterKey a = letterKey b := by
  simp [sameLetter]

/-- The code points of the blanks. -/
def blankCodes : List ℕ :=
  [9, 10, 11, 12, 13, 28, 29, 30, 31, 32, 133, 160, 5760, 8192, 8193, 8194, 8195, 8196, 8197, 8198,
    8199, 8200, 8201, 8202, 8232, 8233, 8239, 8287, 12288]

theorem mem_blankCodes (h : isBlank b) : b.toNat ∈ blankCodes := by
  simp only [isBlank, inIntervals, any_cons, any_nil, Bool.or_false, Bool.or_eq_true,
    Bool.and_eq_true, decide_eq_true_eq] at h
  simp only [blankCodes, mem_cons, not_mem_nil, or_false]
  rcases h with h | h | h | h | h | h | h | h | h | h <;> omega

theorem ofNat_of_mem_blankCodes : ∀ n ∈ blankCodes, letterKey (Char.ofNat n) = Char.ofNat n ∧
    isWord (Char.ofNat n) = false ∧ isDecimal (Char.ofNat n) = false := by
  decide +kernel

/-- **A blank is a form of itself only.** -/
theorem letterKey_blank (h : isBlank b) : letterKey b = b := by
  have hb := (ofNat_of_mem_blankCodes b.toNat (mem_blankCodes h)).1
  rwa [Char.ofNat_toNat] at hb

theorem sameLetter_blank (ha : isBlank (letterKey a) = false) (hb : isBlank b) :
    sameLetter a b = false := by
  rw [← Bool.not_eq_true, sameLetter_iff, letterKey_blank hb]
  rintro rfl
  rw [hb] at ha
  cases ha

theorem isWord_blank (h : isBlank b) : isWord b = false := by
  have hword := (ofNat_of_mem_blankCodes b.toNat (mem_blankCodes h)).2.1
  rwa [Char.ofNat_toNat] at hword

theorem isDecimal_blank (h : isBlank b) : isDecimal b = false := by
  have hdecimal := (ofNat_of_mem_blankCodes b.toNat (mem_blankCodes h)).2.2
  rwa [Char.ofNat_toNat] at hdecimal

/-! ### Letters beyond ASCII -/

/-- A run of the table leads to code points of characters beyond ASCII, or to `i` or `k`. -/
def runStaysBeyond (r : ℕ × ℕ × ℕ × ℤ) : Bool :=
  (decide (128 ≤ (r.1 : ℤ) + r.2.2.2) && decide ((r.2.1 : ℤ) + r.2.2.2 < 55296)) ||
    (decide (57343 < (r.1 : ℤ) + r.2.2.2) && decide ((r.2.1 : ℤ) + r.2.2.2 < 1114112)) ||
    r == (304, 304, 1, -199) || r == (8490, 8490, 1, -8383)

theorem lowerRuns_stay_beyond : Table.lowerRuns.all runStaysBeyond := by decide

theorem letterVariants_stay_beyond :
    (Table.letterVariants.all fun v =>
      decide (128 ≤ v.2 ∧ v.2.isValidChar) || v.2 == 105 || v.2 == 115) := by decide

theorem toNat_ofNat_of_valid (h : n.isValidChar) : (Char.ofNat n).toNat = n := by
  unfold Char.ofNat
  rw [dif_pos h]
  rfl

/-- A letter beyond ASCII is its own lower case, or a run of the table leads from it. -/
theorem lowerLetter_cases (hc : 128 ≤ c.toNat) : lowerLetter c = c ∨ ∃ r ∈ Table.lowerRuns,
    r.1 ≤ c.toNat ∧ c.toNat ≤ r.2.1 ∧ (c.toNat - r.1) % r.2.2.1 = 0 ∧
      lowerLetter c = Char.ofNat ((c.toNat : ℤ) + r.2.2.2).toNat := by
  unfold lowerLetter shiftInRuns
  rw [if_neg (Nat.not_lt.mpr hc)]
  cases hfind : Table.lowerRuns.find? _ with
  | none => exact .inl rfl
  | some r =>
    have hin := find?_some hfind
    simp only [Bool.and_eq_true, decide_eq_true_eq, beq_iff_eq] at hin
    exact .inr ⟨r, mem_of_find?_eq_some hfind, hin.1.1, hin.1.2, hin.2, rfl⟩

theorem lowerLetter_beyond (hc : 128 ≤ c.toNat) :
    128 ≤ (lowerLetter c).toNat ∨ lowerLetter c = 'i' ∨ lowerLetter c = 'k' := by
  rcases lowerLetter_cases hc with heq | ⟨r, hmem, hlo, hhi, -, heq⟩
  · rw [heq]
    exact .inl hc
  · have hr := all_eq_true.mp lowerRuns_stay_beyond r hmem
    simp only [runStaysBeyond, Bool.or_eq_true, Bool.and_eq_true, decide_eq_true_eq, beq_iff_eq] at hr
    rw [heq]
    rcases hr with ((hr | hr) | rfl) | rfl
    · left; rw [toNat_ofNat_of_valid (Or.inl (by omega))]; omega
    · left; rw [toNat_ofNat_of_valid (Or.inr (by omega))]; omega
    · right; left
      have hn : c.toNat = 304 := by dsimp only at hlo hhi; omega
      rw [hn]; decide
    · right; right
      have hn : c.toNat = 8490 := by dsimp only at hlo hhi; omega
      rw [hn]; decide

/-- **Beyond ASCII only `i`, `k` and `s` have further forms.** -/
theorem letterKey_beyond (hc : 128 ≤ c.toNat) :
    128 ≤ (letterKey c).toNat ∨ letterKey c = 'i' ∨ letterKey c = 'k' ∨ letterKey c = 's' := by
  unfold letterKey
  dsimp only
  rcases lowerLetter_beyond hc with h | h | h
  · rw [if_neg (by omega)]
    cases hlook : Table.letterVariants.lookup (lowerLetter c).toNat with
    | none => exact Or.inl h
    | some n =>
      obtain ⟨l₁, l₂, hl, -⟩ := lookup_eq_some_iff.mp hlook
      have hv := all_eq_true.mp letterVariants_stay_beyond ((lowerLetter c).toNat, n)
        (by rw [hl]; simp)
      simp only [Bool.or_eq_true, decide_eq_true_eq, beq_iff_eq] at hv
      rcases hv with (hv | rfl) | rfl
      · left; dsimp only; rw [toNat_ofNat_of_valid hv.2]; exact hv.1
      · right; left; rfl
      · right; right; right; rfl
  · rw [h]; right; left; decide
  · rw [h]; right; right; left; decide

theorem letterKey_ascii : ∀ n < 128, letterKey (Char.ofNat n) = (Char.ofNat n).toLower := by
  decide

/-- The letter `k` has no form beyond ASCII. -/
def isPlainLetter (k : Char) : Bool := isSmall k && k != 'i' && k != 'k' && k != 's'

theorem toLower_ascii : ∀ n < 128, isSmall (Char.ofNat n).toLower →
    Char.ofNat n = (Char.ofNat n).toLower ∨ Char.ofNat n = (Char.ofNat n).toLower.toUpper := by
  decide

/-- **A letter other than `i`, `k` and `s` is either small or capital.** -/
theorem eq_of_letterKey {k : Char} (hk : isPlainLetter k) (h : letterKey c = k) :
    c = k ∨ c = k.toUpper := by
  simp only [isPlainLetter, isSmall, Bool.and_eq_true, bne_iff_ne, decide_eq_true_eq] at hk
  obtain ⟨⟨⟨⟨hlo, hhi⟩, hi⟩, hkk⟩, hs⟩ := hk
  by_cases hc : c.toNat < 128
  · have hlow := letterKey_ascii c.toNat hc
    have hcase := toLower_ascii c.toNat hc
    rw [Char.ofNat_toNat] at hlow hcase
    rw [← hlow, h] at hcase
    exact hcase (by simp [isSmall, hlo, hhi])
  · rcases letterKey_beyond (c := c) (by omega) with hb | hb | hb | hb
    · have hle : k.toNat ≤ 'z'.toNat := hhi
      rw [h] at hb
      have : 'z'.toNat = 122 := rfl
      omega
    · exact absurd (h ▸ hb) hi
    · exact absurd (h ▸ hb) hkk
    · exact absurd (h ▸ hb) hs

/-! ### Characters without case -/

theorem toLower_ascii_other : ∀ n < 128, isSmall (Char.ofNat n).toLower = false →
    (Char.ofNat n).toLower = Char.ofNat n := by
  decide

theorem eq_of_toLower_eq (hsmall : isSmall a = false) (hc : c.toNat < 128) (h : c.toLower = a) :
    c = a := by
  have hother := toLower_ascii_other c.toNat hc
  rw [Char.ofNat_toNat, h] at hother
  exact (hother hsmall).symm

section

variable (ha : a.toNat < 128) (hsmall : isSmall a = false)
include ha hsmall

/-- **Of ASCII only a small letter is the lower case of another character.** -/
theorem eq_of_lowerLetter_eq (h : lowerLetter c = a) : c = a := by
  by_cases hc : c.toNat < 128
  · rw [lowerLetter, if_pos hc] at h
    exact eq_of_toLower_eq hsmall hc h
  · rcases lowerLetter_beyond (Nat.le_of_not_lt hc) with hb | hb | hb <;> rw [h] at hb
    · omega
    · subst hb
      cases hsmall
    · subst hb
      cases hsmall

/-- **Of ASCII only a small letter has other forms.** -/
theorem eq_of_letterKey_eq (h : letterKey c = a) : c = a := by
  by_cases hc : c.toNat < 128
  · have hlow := letterKey_ascii c.toNat hc
    rw [Char.ofNat_toNat, h] at hlow
    exact eq_of_toLower_eq hsmall hc hlow.symm
  · rcases letterKey_beyond (Nat.le_of_not_lt hc) with hb | hb | hb | hb <;> rw [h] at hb
    · omega
    · subst hb
      cases hsmall
    · subst hb
      cases hsmall
    · subst hb
      cases hsmall

end

/-! ### The sign of variables -/

theorem ascii_upper_sigil : ∀ n < 128, (Char.ofNat n).toUpper = '@' → Char.ofNat n = '@' := by
  decide

theorem eq_of_ofNat_eq_sigil (h : Char.ofNat n = '@') : n = 64 := by
  by_cases hn : n.isValidChar
  · rw [← toNat_ofNat_of_valid hn, h]
    rfl
  · rw [Char.ofNat, dif_neg hn] at h
    exact absurd h (by decide)

theorem upperRuns_above : (Table.upperRuns.all fun r => decide (64 < (r.1 : ℤ) + r.2.2.2)) := by
  decide

theorem upperSequences_other : (Table.upperSequences.all fun e => e.2.all (· != 64)) := by
  decide

/-- **No other character has `@` in its upper case.** -/
theorem eq_of_sigil_mem_upperLetters (h : '@' ∈ upperLetters c) : c = '@' := by
  unfold upperLetters at h
  split_ifs at h with hc
  · have hcase := ascii_upper_sigil c.toNat hc
    rw [Char.ofNat_toNat] at hcase
    exact hcase (mem_singleton.mp h).symm
  · split at h
    · next ns hlook =>
      obtain ⟨n, hn, heq⟩ := mem_map.mp h
      obtain ⟨l₁, l₂, hl, -⟩ := lookup_eq_some_iff.mp hlook
      have hother := all_eq_true.mp upperSequences_other (c.toNat, ns) (by rw [hl]; simp)
      have hne := all_eq_true.mp hother n hn
      rw [eq_of_ofNat_eq_sigil heq] at hne
      cases hne
    · split at h
      · next n hshift =>
        have hn := eq_of_ofNat_eq_sigil (mem_singleton.mp h).symm
        obtain ⟨r, hfind, hr⟩ := Option.map_eq_some_iff.mp hshift
        have habove := all_eq_true.mp upperRuns_above r (mem_of_find?_eq_some hfind)
        have hin := find?_some hfind
        simp only [Bool.and_eq_true, decide_eq_true_eq] at hin habove
        omega
      · exact (mem_singleton.mp h).symm

theorem Text.sigil_mem_upper (h : '@' ∈ t.upper) : '@' ∈ t := by
  obtain ⟨c, hc, hupper⟩ := mem_flatMap.mp h
  rwa [eq_of_sigil_mem_upperLetters hupper] at hc

theorem Text.sigil_mem_lowerFrom : ∀ {t : Text} (before : Text), '@' ∈ lowerFrom before t → '@' ∈ t
  | [], _, h => h
  | c :: t, before, h => by
    rw [lowerFrom] at h
    rw [mem_cons]
    have hrest : '@' ∈ lowerFrom (c :: before) t → '@' = c ∨ '@' ∈ t :=
      fun h => .inr (sigil_mem_lowerFrom _ h)
    split_ifs at h
    · exact hrest ((mem_cons.mp h).resolve_left (by decide))
    · exact hrest ((mem_cons.mp h).resolve_left (by decide))
    · exact hrest ((mem_cons.mp ((mem_cons.mp h).resolve_left (by decide))).resolve_left
        (by decide))
    · rcases mem_cons.mp h with h | h
      · exact .inl (eq_of_lowerLetter_eq (by decide) rfl h.symm).symm
      · exact hrest h

theorem Text.sigil_mem_lower (h : '@' ∈ t.lower) : '@' ∈ t := sigil_mem_lowerFrom [] h

/-! ### Lower case twice -/

/-- The code points of a run are all even or all odd. -/
def alternates (r : ℕ × ℕ × ℕ × ℤ) : Bool := r.2.2.1 == 2 || r.1 == r.2.1

/-- No code point that the run `r` leads to is one of the run `s`. -/
def leadsPast (r s : ℕ × ℕ × ℕ × ℤ) : Bool :=
  Nat.blt ((r.2.1 : ℤ) + r.2.2.2).toNat s.1 || Nat.blt s.2.1 ((r.1 : ℤ) + r.2.2.2).toNat ||
    (((r.1 : ℤ) + r.2.2.2 - s.1) % 2 == 1 && alternates r && alternates s)

theorem lowerRuns_leadPast :
    (Table.lowerRuns.all fun r => Table.lowerRuns.all (leadsPast r)) := by decide +kernel

theorem lowerLetter_ascii : ∀ n < 128, lowerLetter (Char.ofNat n).toLower = (Char.ofNat n).toLower := by
  decide

/-- **A small letter is its own lower case.** -/
theorem lowerLetter_lowerLetter (c : Char) : lowerLetter (lowerLetter c) = lowerLetter c := by
  by_cases hc : c.toNat < 128
  · have hlower := lowerLetter_ascii c.toNat hc
    rw [Char.ofNat_toNat] at hlower
    rwa [show lowerLetter c = c.toLower from if_pos hc]
  · rcases lowerLetter_beyond (Nat.le_of_not_lt hc) with hbeyond | hi | hk
    · rcases lowerLetter_cases (Nat.le_of_not_lt hc) with heq | ⟨r, hr, hlo, hhi, hstep, heq⟩
      · rw [heq, heq]
      rcases lowerLetter_cases hbeyond with heq' | ⟨s, hs, hlo', hhi', hstep', -⟩
      · exact heq'
      -- the small letter would be a code point of the run `s`
      have hpast := all_eq_true.mp (all_eq_true.mp lowerRuns_leadPast r hr) s hs
      simp only [leadsPast, alternates, Bool.or_eq_true, Bool.and_eq_true, beq_iff_eq, Nat.blt_eq] at hpast
      have hcode : (lowerLetter c).toNat = ((c.toNat : ℤ) + r.2.2.2).toNat := by
        rw [heq] at hbeyond ⊢
        by_cases hvalid : Nat.isValidChar ((c.toNat : ℤ) + r.2.2.2).toNat
        · exact toNat_ofNat_of_valid hvalid
        · rw [Char.ofNat, dif_neg hvalid] at hbeyond
          exact absurd hbeyond (by decide)
      rw [hcode] at hbeyond hlo' hhi' hstep'
      rcases hpast with (hpast | hpast) | ⟨⟨hodd, hr' | hr'⟩, hs' | hs'⟩
      · omega
      · omega
      · rw [hr'] at hstep
        rw [hs'] at hstep'
        omega
      · rw [hr'] at hstep
        omega
      · rw [hs'] at hstep'
        omega
      · omega
    · rw [hi]
      decide
    · rw [hk]
      decide

theorem Text.lowerLetter_of_mem_lowerFrom {d : Char} : ∀ {t : Text} (before : Text), d ∈ lowerFrom before t →
    lowerLetter d = d
  | [], _, h => nomatch h
  | c :: t, before, h => by
    rw [lowerFrom] at h
    split_ifs at h <;> simp only [mem_cons] at h
    · rcases h with rfl | h
      · decide
      · exact lowerLetter_of_mem_lowerFrom _ h
    · rcases h with rfl | h
      · decide
      · exact lowerLetter_of_mem_lowerFrom _ h
    · rcases h with rfl | rfl | h
      · decide
      · decide
      · exact lowerLetter_of_mem_lowerFrom _ h
    · rcases h with rfl | h
      · exact lowerLetter_lowerLetter c
      · exact lowerLetter_of_mem_lowerFrom _ h

theorem Text.lowerFrom_eq_self : ∀ {t : Text} (before : Text), (∀ d ∈ t, lowerLetter d = d) →
    lowerFrom before t = t
  | [], _, _ => rfl
  | c :: t, before, h => by
    obtain ⟨hc, ht⟩ := forall_mem_cons.mp h
    have hsigma : c ≠ 'Σ' := by
      rintro rfl
      exact absurd hc (by decide)
    have hdotted : c ≠ 'İ' := by
      rintro rfl
      exact absurd hc (by decide)
    rw [lowerFrom, if_neg hsigma, if_neg hdotted, hc, lowerFrom_eq_self _ ht]

/-- **Lower case is its own lower case.** -/
theorem Text.lower_lower (t : Text) : t.lower.lower = t.lower :=
  lowerFrom_eq_self [] fun _ => lowerLetter_of_mem_lowerFrom []

end SqlRoutine

import SqlRoutine.Proofs.Text.Identifier

/-! # Identifiers in texts of any script

Four letters beyond ASCII are forms of ASCII letters: the dotted capital and the dotless small i, the long
s and the Kelvin sign (`asciiForms`, `mem_asciiForms`). All of them are characters of words, so whatever
the script of a text, an identifier is read off it as far as a word goes: **a scan for an identifier at
the end of a word succeeds just when the identifier spells the longest run of word characters**
(`keyword?_bind_run`). -/

namespace SqlRoutine.Text

open List

/-! ### Letters that are forms of ASCII letters -/

/-- The letters beyond ASCII that are forms of ASCII letters. -/
def asciiForms : List Char := ['İ', 'ı', 'ſ', '\u212a']

section

variable {c : Char}

/-- No run of the table leads to the code point. -/
def isUnreached (n : ℤ) : Bool :=
  Table.lowerRuns.all fun r => decide (n - r.2.2.2 < r.1) || decide (r.2.1 < n - r.2.2.2)

theorem isUnreached_variants : isUnreached 305 ∧ isUnreached 383 := by decide

theorem eq_of_isUnreached {n : ℕ} (hc : 128 ≤ c.toNat) (hn : isUnreached n) (hpos : n ≠ 0)
    (h : (lowerLetter c).toNat = n) : c.toNat = n := by
  rcases lowerLetter_cases hc with heq | ⟨r, hr, hlo, hhi, -, heq⟩
  · rwa [heq] at h
  · have hreach := all_eq_true.mp hn r hr
    rw [Bool.or_eq_true, decide_eq_true_eq, decide_eq_true_eq] at hreach
    rw [heq] at h
    by_cases hvalid : Nat.isValidChar ((c.toNat : ℤ) + r.2.2.2).toNat
    · rw [toNat_ofNat_of_valid hvalid] at h
      omega
    · rw [Char.ofNat, dif_neg hvalid] at h
      exact absurd h.symm hpos

theorem mem_asciiForms_of_lowerLetter (hc : 128 ≤ c.toNat) (h : (lowerLetter c).toNat < 128) :
    c ∈ asciiForms := by
  rcases lowerLetter_cases hc with heq | ⟨r, hr, hlo, hhi, -, heq⟩
  · rw [heq] at h
    omega
  · have hrun := all_eq_true.mp lowerRuns_stay_beyond r hr
    simp only [runStaysBeyond, Bool.or_eq_true, Bool.and_eq_true, decide_eq_true_eq, beq_iff_eq] at hrun
    rw [heq] at h
    rcases hrun with ((hrun | hrun) | rfl) | rfl
    · rw [toNat_ofNat_of_valid (.inl (by omega))] at h
      omega
    · rw [toNat_ofNat_of_valid (.inr (by omega))] at h
      omega
    · have hn : c.toNat = 304 := by dsimp only at hlo hhi; omega
      rw [← Char.ofNat_toNat c, hn]
      decide
    · have hn : c.toNat = 8490 := by dsimp only at hlo hhi; omega
      rw [← Char.ofNat_toNat c, hn]
      decide

theorem letterVariants_ascii : (Table.letterVariants.all fun v =>
    decide (v.2.isValidChar) && (decide (128 ≤ v.2) || v.1 == 305 || v.1 == 383)) := by
  decide

/-- **Only four letters beyond ASCII are forms of ASCII letters.** -/
theorem mem_asciiForms (hc : 128 ≤ c.toNat) (h : (letterKey c).toNat < 128) : c ∈ asciiForms := by
  unfold letterKey at h
  dsimp only at h
  split_ifs at h with hlower
  · exact mem_asciiForms_of_lowerLetter hc hlower
  · split at h
    · next n hlook =>
      obtain ⟨l₁, l₂, hl, -⟩ := lookup_eq_some_iff.mp hlook
      have hv := all_eq_true.mp letterVariants_ascii ((lowerLetter c).toNat, n) (by rw [hl]; simp)
      simp only [Bool.or_eq_true, Bool.and_eq_true, decide_eq_true_eq, beq_iff_eq] at hv
      obtain ⟨hvalid, hv⟩ := hv
      rw [toNat_ofNat_of_valid hvalid] at h
      rcases hv with (hv | hv) | hv
      · omega
      · have hn := eq_of_isUnreached hc isUnreached_variants.1 (by decide) hv
        rw [← Char.ofNat_toNat c, hn]
        decide
      · have hn := eq_of_isUnreached hc isUnreached_variants.2 (by decide) hv
        rw [← Char.ofNat_toNat c, hn]
        decide
    · exact absurd h hlower

theorem isWord_asciiForms : (asciiForms.all isWord) := by decide +kernel

theorem isWord_of_sameLetter {k : Char} (hk : isAsciiWord k) (h : letterKey c = letterKey k) :
    isWord c := by
  obtain ⟨hascii, hword⟩ := isAsciiWord_iff.mp hk
  obtain ⟨hlower, hlowerAscii, -⟩ := toLower_of_ascii hascii
  rw [letterKey_of_ascii hascii] at h
  by_cases hc : c.toNat < 128
  · have hcascii : isAscii c := decide_eq_true hc
    rw [letterKey_of_ascii hcascii] at h
    rw [← (toLower_of_ascii hcascii).1, h, hlower, hword]
  · have hmem := mem_asciiForms (c := c) (by omega) (by rw [h]; exact of_decide_eq_true hlowerAscii)
    exact all_eq_true.mp isWord_asciiForms c hmem

end

/-! ### Forms and lower case -/

/-- The forms of ASCII letters that are not lower-cased to them. -/
def strangeForms : List Char := ['İ', 'ı', 'ſ']

theorem lowerLetter_eq_letterKey {c : Char} (h : isAscii (letterKey c)) (hc : c ∉ strangeForms) :
    lowerLetter c = letterKey c := by
  by_cases hascii : c.toNat < 128
  · rw [letterKey_of_ascii (decide_eq_true hascii), lowerLetter, if_pos hascii]
  · have hmem := mem_asciiForms (c := c) (by omega) (of_decide_eq_true h)
    obtain rfl : c = '\u212a' := by
      simp only [asciiForms, strangeForms, mem_cons, not_mem_nil, or_false, not_or] at hmem hc
      rcases hmem with hmem | hmem | hmem | hmem
      · exact absurd hmem hc.1
      · exact absurd hmem hc.2.1
      · exact absurd hmem hc.2.2
      · exact hmem
    decide

theorem lowerFrom_eq_map : ∀ {t : Text} (before : Text), 'Σ' ∉ t → 'İ' ∉ t →
    lowerFrom before t = t.map lowerLetter
  | [], _, _, _ => rfl
  | c :: t, before, hsigma, hdotted => by
    rw [mem_cons, not_or] at hsigma hdotted
    rw [lowerFrom, if_neg (Ne.symm hsigma.1), if_neg (Ne.symm hdotted.1),
      lowerFrom_eq_map (c :: before) hsigma.2 hdotted.2, map_cons]

theorem exists_of_strangeForm : ∀ {t : Text} (before : Text), (∃ c ∈ t, c ∈ strangeForms) →
    ∃ c ∈ lowerFrom before t, isAscii c = false
  | [], _, h => by
    obtain ⟨c, hc, -⟩ := h
    cases hc
  | d :: t, before, h => by
    obtain ⟨c, hc, hstrange⟩ := h
    rcases mem_cons.mp hc with rfl | hc
    · rw [strangeForms] at hstrange
      simp only [mem_cons, not_mem_nil, or_false] at hstrange
      rcases hstrange with rfl | rfl | rfl
      · exact ⟨'\u0307', by simp [lowerFrom], by decide⟩
      · exact ⟨'ı', by rw [lowerFrom]; exact mem_cons_self, by decide⟩
      · exact ⟨'ſ', by rw [lowerFrom]; exact mem_cons_self, by decide⟩
    · obtain ⟨e, he, hascii⟩ := exists_of_strangeForm (d :: before) ⟨c, hc, hstrange⟩
      refine ⟨e, ?_, hascii⟩
      rw [lowerFrom]
      split_ifs <;> simp [he]

/-- **A spelling of a lower-case text in ASCII is lower-cased to it just when it has no strange form.** -/
theorem lower_eq_iff_of_spells {k m : Text} (hascii : k.all isAscii) (hlower : k.lower = k)
    (h : Spells k m) : m.lower = k ↔ ∀ c ∈ m, c ∉ strangeForms := by
  have hkeys : m.map letterKey = k := by
    rw [lower_of_ascii hascii] at hlower
    rw [show m.map letterKey = k.map letterKey from h]
    conv_rhs => rw [← hlower]
    exact map_congr_left fun c hc => letterKey_of_ascii (all_eq_true.mp hascii c hc)
  have hform : ∀ c ∈ m, isAscii (letterKey c) := fun c hc =>
    all_eq_true.mp hascii _ (hkeys ▸ mem_map_of_mem hc)
  constructor
  · intro heq c hc hstrange
    obtain ⟨d, hd, hbeyond⟩ := exists_of_strangeForm [] ⟨c, hc, hstrange⟩
    rw [show lowerFrom [] m = k from heq] at hd
    rw [all_eq_true.mp hascii d hd] at hbeyond
    cases hbeyond
  · intro hplain
    have hsigma : 'Σ' ∉ m := fun hin => absurd (hform _ hin) (by decide)
    have hdotted : 'İ' ∉ m := fun hin => hplain _ hin (by decide)
    rw [lower, lowerFrom_eq_map [] hsigma hdotted, ← hkeys]
    exact map_congr_left fun c hc => lowerLetter_eq_letterKey (hform c hc) (hplain c hc)

/-! ### Identifiers and words -/

section

variable {k m t : Text}

theorem all_isWord_of_spells (hk : k.all isAsciiWord) (h : Spells k m) : m.all isWord := by
  unfold Spells at h
  induction m generalizing k with
  | nil => rfl
  | cons c m ih =>
    cases k with
    | nil => cases h
    | cons a k =>
      rw [map_cons, map_cons, List.cons.injEq] at h
      rw [all_cons, Bool.and_eq_true] at hk ⊢
      exact ⟨isWord_of_sameLetter hk.1 h.1, ih hk.2 h.2⟩

theorem length_of_spells (h : Spells k m) : m.length = k.length := by
  have hlength := congrArg List.length h
  simpa using hlength

theorem lower_eq_map_letterKey (hk : k.all isAsciiWord) : k.lower = k.map letterKey := by
  have hascii := all_ascii_of_word hk
  rw [lower_of_ascii hascii]
  exact map_congr_left fun c hc =>
    (letterKey_of_ascii (all_eq_true.mp hascii c hc)).symm

theorem lower_eq_of_spells {l : Text} (hk : k.all isAsciiWord) (hl : l.all isAsciiWord)
    (hkm : Spells k m) (hlm : Spells l m) : k.lower = l.lower := by
  rw [lower_eq_map_letterKey hk, lower_eq_map_letterKey hl]
  exact hkm.symm.trans hlm

theorem spells_iff_lower_eq (hk : k.all isAsciiWord) (hm : m.all isAsciiWord) :
    Spells k m ↔ k.lower = m.lower := by
  rw [lower_eq_map_letterKey hk, lower_eq_map_letterKey hm]
  exact eq_comm

theorem run_of_atWordEnd {w z : Text} (hw : w.all isWord) (hz : atWordEnd z) :
    (w ++ z).takeWhile isWord = w ∧ (w ++ z).dropWhile isWord = z := by
  refine run_append hw ?_
  cases z with
  | nil => rfl
  | cons c z => exact hz

/-- **A scan for an identifier up to the end of a word** succeeds just when the identifier spells the
whole word. -/
theorem keyword?_bind_run {α : Type} {next : Text → Option α} (hnext : Refuses next)
    (hk : k.all isAsciiWord) (t : Text) : (keyword? k t).bind next =
      if Spells k (t.takeWhile isWord) then next (t.dropWhile isWord) else none := by
  cases hread : keyword? k t with
  | none =>
    rw [if_neg fun hspells => ?_]
    · rfl
    · have happend := keyword?_append hspells (t.dropWhile isWord)
      rw [takeWhile_append_dropWhile, hread] at happend
      cases happend
  | some rest =>
    obtain ⟨m, hm, rfl⟩ := keyword?_eq_some_iff.mp hread
    have hall := all_eq_true.mp (all_isWord_of_spells hk hm)
    rw [takeWhile_append_of_pos hall, dropWhile_append_of_pos hall, Option.bind_some]
    cases rest with
    | nil => simp [hm]
    | cons c rest =>
      by_cases hc : isWord c
      · have hlength : ¬Spells k (m ++ (c :: rest).takeWhile isWord) := by
          intro hspells
          have hlonger := length_of_spells hspells
          rw [takeWhile_cons_of_pos hc, length_append, length_of_spells hm,
            length_cons] at hlonger
          omega
        rw [if_neg hlength, hnext c rest hc]
      · rw [takeWhile_cons_of_neg hc, dropWhile_cons_of_neg hc, append_nil, if_pos hm]

/-- **After an identifier a word is at its end just when it is the identifier**, in any case. -/
theorem keyword?_bind_word {α : Type} {next : Text → Option α} (hnext : Refuses next) {w z : Text}
    (hk : k.all isAsciiWord) (hw : w.all isAsciiWord) (hz : atSign z) :
    (keyword? k (w ++ z)).bind next = if k.lower = w.lower then next z else none := by
  obtain ⟨htake, hdrop⟩ := run_of_atWordEnd (all_isWord_of_ascii hw) (atWordEnd_of_atSign hz)
  rw [keyword?_bind_run hnext hk, htake, hdrop]
  exact if_congr (spells_iff_lower_eq hk hw) rfl rfl

/-- **An identifier is read as a word** just when it spells the whole word. -/
theorem word?_run (hk : k.all isAsciiWord) (t : Text) : word? k t =
    if Spells k (t.takeWhile isWord) then some (t.dropWhile isWord) else none := by
  have hrefuses : Refuses fun rest : Text => if atWordEnd rest = true then some rest else none := by
    intro c t hc
    simp [atWordEnd, hc]
  rw [word?, keyword?_bind_run hrefuses hk, if_pos (atWordEnd_dropWhile t)]

theorem word?_word {w z : Text} (hk : k.all isAsciiWord) (hw : w.all isAsciiWord) (hz : atSign z) :
    word? k (w ++ z) = if k.lower = w.lower then some z else none := by
  obtain ⟨htake, hdrop⟩ := run_of_atWordEnd (all_isWord_of_ascii hw) (atWordEnd_of_atSign hz)
  rw [word?_run hk, htake, hdrop]
  exact if_congr (spells_iff_lower_eq hk hw) rfl rfl

end

end SqlRoutine.Text

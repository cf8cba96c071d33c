import SqlRoutine.Proofs.Text.Replace

/-! # Identifiers in ASCII

Below 128 the two ways to disregard case are one: `Text.lower` lower-cases each character
(`lower_of_ascii`), and two characters are the same letter when they have the same lower case
(`sameLetter_of_ascii`).

A finder that finds nothing within words passes over a word as a whole or not at all
(`segmentsFrom_run`). -/

namespace SqlRoutine.Text

open List

variable {c : Char} {prev : Option Char} {t w z : Text}

/-! ### ASCII -/

/-- The characters below 128. -/
def isAscii (c : Char) : Bool := decide (c.toNat < 128)

/-- The characters of an identifier. -/
def isAsciiWord (c : Char) : Bool := isAscii c && isWord c

theorem isAsciiWord_iff : isAsciiWord c ↔ isAscii c ∧ isWord c :=
  Bool.and_eq_true_iff

/-- **An identifier**: ASCII letters, digits and underscores, at least one. -/
def isIdentifier (w : Text) : Bool := !w.isEmpty && w.all isAsciiWord

theorem isIdentifier_iff : isIdentifier w ↔ w ≠ [] ∧ w.all isAsciiWord := by
  simp [isIdentifier]

theorem ascii_case : ∀ n < 128, isWord (Char.ofNat n).toLower = isWord (Char.ofNat n) ∧
    isAscii (Char.ofNat n).toLower ∧ (Char.ofNat n).toLower.toLower = (Char.ofNat n).toLower := by
  decide +kernel

section

variable {a b c : Char}

theorem letterKey_of_ascii (h : isAscii c) : letterKey c = c.toLower := by
  have hkey := letterKey_ascii c.toNat (of_decide_eq_true h)
  rwa [Char.ofNat_toNat] at hkey

theorem toLower_of_ascii (h : isAscii c) : isWord c.toLower = isWord c ∧
    isAscii c.toLower ∧ c.toLower.toLower = c.toLower := by
  have hcase := ascii_case c.toNat (of_decide_eq_true h)
  rwa [Char.ofNat_toNat] at hcase

theorem sameLetter_of_ascii (ha : isAscii a) (hb : isAscii b) :
    sameLetter a b ↔ a.toLower = b.toLower := by
  rw [sameLetter_iff, letterKey_of_ascii ha, letterKey_of_ascii hb]

theorem sameLetter_sign (ha : isAsciiWord a) (hb : isAscii b) (hword : isWord b = false) :
    sameLetter a b = false := by
  rw [isAsciiWord_iff] at ha
  rw [← Bool.not_eq_true, sameLetter_of_ascii ha.1 hb]
  intro heq
  have hsame : isWord a = isWord b := by
    rw [← (toLower_of_ascii ha.1).1, heq, (toLower_of_ascii hb).1]
  rw [ha.2, hword] at hsame
  cases hsame

end

/-! ### Lower case -/

theorem lowerFrom_of_ascii : ∀ {t : Text} (before : Text), t.all isAscii →
    lowerFrom before t = t.map Char.toLower
  | [], _, _ => rfl
  | c :: t, before, h => by
    rw [all_cons, Bool.and_eq_true] at h
    have hc : c.toNat < 128 := of_decide_eq_true h.1
    have hsigma : c ≠ 'Σ' := by rintro rfl; exact absurd hc (by decide)
    have hdotted : c ≠ 'İ' := by rintro rfl; exact absurd hc (by decide)
    rw [lowerFrom, if_neg hsigma, if_neg hdotted, lowerLetter, if_pos hc, lowerFrom_of_ascii _ h.2]
    rfl

theorem lower_of_ascii (h : t.all isAscii) : t.lower = t.map Char.toLower :=
  lowerFrom_of_ascii [] h

theorem all_ascii_of_word (h : w.all isAsciiWord) : w.all isAscii := by
  rw [all_eq_true] at h ⊢
  exact fun c hc => (isAsciiWord_iff.mp (h c hc)).1

theorem isIdentifier_lower (h : isIdentifier w) :
    isIdentifier w.lower ∧ w.lower.lower = w.lower := by
  obtain ⟨hne, hall⟩ := isIdentifier_iff.mp h
  have hlower := lower_of_ascii (all_ascii_of_word hall)
  have hall' : w.lower.all isAsciiWord := by
    rw [hlower, all_map]
    refine all_eq_true.mpr fun c hc => ?_
    obtain ⟨hascii, hword⟩ := isAsciiWord_iff.mp (all_eq_true.mp hall c hc)
    obtain ⟨hword', hascii', -⟩ := toLower_of_ascii hascii
    exact isAsciiWord_iff.mpr ⟨hascii', hword'.trans hword⟩
  refine ⟨isIdentifier_iff.mpr ⟨?_, hall'⟩, lower_lower w⟩
  rw [hlower]
  simpa using hne

/-! ### Scanning for an identifier -/

/-- The text is at its end, or goes on with a sign. -/
def atSign (t : Text) : Bool := t.head?.all fun c => isAscii c && !isWord c

/-- A scan that does not start with a word character. -/
def Refuses {α : Type} (next : Text → Option α) : Prop :=
  ∀ c t, isWord c → next (c :: t) = none

theorem refuses_char? (h : isWord c = false) : Refuses (char? c) := by
  intro d t hd
  have hne : d ≠ c := by
    rintro rfl
    rw [h] at hd
    cases hd
  rw [char?, if_neg hne]

theorem atWordEnd_of_atSign (hz : atSign z) : atWordEnd z := by
  cases z with
  | nil => rfl
  | cons c z =>
    simp only [atSign, head?_cons, Option.all_some, Bool.and_eq_true] at hz
    exact hz.2

theorem exists_cons_of_identifier (h : isIdentifier w) :
    ∃ c cs, w = c :: cs ∧ isWord c := by
  obtain ⟨hne, hall⟩ := isIdentifier_iff.mp h
  obtain ⟨c, cs, rfl⟩ := exists_cons_of_ne_nil hne
  rw [all_cons, Bool.and_eq_true, isAsciiWord_iff] at hall
  exact ⟨c, cs, rfl, hall.1.2⟩

theorem all_isWord_of_ascii (h : w.all isAsciiWord) : w.all isWord := by
  rw [all_eq_true] at h ⊢
  exact fun c hc => (isAsciiWord_iff.mp (h c hc)).2

theorem all_isWord_of_identifier (h : isIdentifier w) : w.all isWord :=
  all_isWord_of_ascii (isIdentifier_iff.mp h).2

theorem getLast?_identifier (h : isIdentifier w) : w.getLast?.any isWord := by
  have hne := (isIdentifier_iff.mp h).1
  rw [getLast?_eq_some_getLast hne, Option.any_some]
  exact all_eq_true.mp (all_isWord_of_identifier h) _ (getLast_mem hne)

theorem atWordEnd_dropWhile (t : Text) : atWordEnd (t.dropWhile isWord) := by
  have hhead := head?_dropWhile_not isWord t
  cases hdrop : t.dropWhile isWord with
  | nil => rfl
  | cons c rest =>
    rw [hdrop] at hhead
    simpa [atWordEnd] using hhead

/-- **The word that a text starts with**, if it starts with a character of a word. -/
theorem exists_identifier (hascii : (c :: t).all isAscii) (hc : isWord c) :
    ∃ w z, c :: t = w ++ z ∧ isIdentifier w ∧ atWordEnd z := by
  refine ⟨(c :: t).takeWhile isWord, (c :: t).dropWhile isWord,
    takeWhile_append_dropWhile.symm, isIdentifier_iff.mpr ⟨?_, ?_⟩, atWordEnd_dropWhile _⟩
  · rw [takeWhile_cons_of_pos hc]
    exact cons_ne_nil c _
  · refine all_eq_true.mpr fun d hd => isAsciiWord_iff.mpr ⟨?_, mem_takeWhile_imp hd⟩
    exact all_eq_true.mp hascii d ((takeWhile_sublist isWord).subset hd)

/-! ### Finders of words -/

section

variable {α : Type} {finder : Finder α}

/-- The finder finds nothing within words. -/
def OutsideWords (finder : Finder α) : Prop :=
  ∀ prev t, prev.any isWord → finder prev t = none

/-- All characters of words are alike before a finder: `_` stands for them. -/
theorem segmentsFrom_after_word (h : OutsideWords finder) (prev : Option Char)
    (hprev : prev.any isWord) (t : Text) :
    segmentsFrom finder prev 0 t = segmentsFrom finder (some '_') 0 t := by
  cases t with
  | nil => rfl
  | cons c t => rw [segmentsFrom, segmentsFrom, h _ _ hprev, h (some '_') _ (by decide)]

/-- **A run of word characters in which nothing starts is passed over.** -/
theorem segmentsFrom_run (h : OutsideWords finder) (hne : w ≠ []) (hw : w.all isWord)
    (hfind : finder prev (w ++ z) = none) :
    segmentsFrom finder prev 0 (w ++ z) = w.map .inl ++ segmentsFrom finder (some '_') 0 z := by
  induction w generalizing prev with
  | nil => exact absurd rfl hne
  | cons c w ih =>
    rw [all_cons, Bool.and_eq_true] at hw
    rw [cons_append] at hfind ⊢
    rw [segmentsFrom_of_none hfind, map_cons, cons_append]
    congr 1
    cases w with
    | nil => exact segmentsFrom_after_word h (some c) hw.1 z
    | cons d w => exact ih (by simp) hw.2 (h (some c) _ hw.1)

theorem segmentsFrom_word (h : OutsideWords finder) (hw : isIdentifier w)
    (hfind : finder prev (w ++ z) = none) :
    segmentsFrom finder prev 0 (w ++ z) = w.map .inl ++ segmentsFrom finder (some '_') 0 z :=
  segmentsFrom_run h (isIdentifier_iff.mp hw).1 (all_isWord_of_identifier hw) hfind

theorem segmentsFrom_found (h : OutsideWords finder) {m : Text} {a : α}
    (hm : m.getLast?.any isWord) (hfind : finder prev (m ++ z) = some (a, z)) :
    segmentsFrom finder prev 0 (m ++ z) = .inr a :: segmentsFrom finder (some '_') 0 z := by
  have hne : m ≠ [] := by
    rintro rfl
    cases hm
  rw [segmentsFrom_of_found hne hfind, segmentsFrom_after_word h _ hm]

end

variable {find : Finder Text}

theorem replaceFrom_run (h : OutsideWords find) (hne : w ≠ []) (hw : w.all isWord)
    (hfind : find prev (w ++ z) = none) :
    replaceFrom find prev (w ++ z) = w ++ replaceFrom find (some '_') z := by
  rw [replaceFrom, segmentsFrom_run h hne hw hfind, flatMap_append, flatMap_map]
  simp [fill, replaceFrom]

theorem replaceFrom_word (h : OutsideWords find) (hw : isIdentifier w)
    (hfind : find prev (w ++ z) = none) :
    replaceFrom find prev (w ++ z) = w ++ replaceFrom find (some '_') z :=
  replaceFrom_run h (isIdentifier_iff.mp hw).1 (all_isWord_of_identifier hw) hfind

end SqlRoutine.Text

import SqlRoutine.Proofs.Code.Quoting
import SqlRoutine.Proofs.Text.Identifier

/-! # Levels of code

The **level** of a place in a line tells whether it stands in quotes, and in how many parentheses. The
scanners for comments, commas and words each keep their own account of it; here it is kept once
(`Level.after`), and each scanner is shown to follow it (`commentFrom_level`, `splitCommasFrom_level`,
`topLevelWordFrom_level`). So they agree on where a piece of code ends: **a text in which nothing occurs
at the level they look for is passed over as a whole** (`commentFrom_passed`, `splitCommasFrom_passed`,
`topLevelWordFrom_passed`). -/

namespace SqlRoutine.Code

open List Option Text

variable {c : Char} {l : Level} {prev : Option Char} {s t u w word : Text}

/-! ### Levels -/

/-- Where a place stands in a line of code. -/
structure Level where
  quoted : Bool := false
  depth : Int := 0
  deriving DecidableEq, Repr

namespace Level

/-- The level after one more character. Parentheses in quotes do not count. -/
def next (l : Level) (c : Char) : Level :=
  if c = quote then { l with quoted := !l.quoted }
  else if l.quoted then l
  else if c = '(' then { l with depth := l.depth + 1 }
  else if c = ')' then { l with depth := l.depth - 1 }
  else l

/-- **The level after a text.** -/
def after (l : Level) (t : Text) : Level := t.foldl next l

/-- Outside quotes and parentheses. -/
def isTop (l : Level) : Bool := !l.quoted && l.depth == 0

theorem after_cons (l : Level) (c : Char) (t : Text) : l.after (c :: t) = (l.next c).after t := rfl

theorem after_append (l : Level) (t u : Text) : l.after (t ++ u) = (l.after t).after u :=
  foldl_append

end Level

/-- Something is found at a place of the text, where `here` sees the level, the character before the
place and the text from there on. -/
def occurs (here : Level → Option Char → Text → Bool) : Level → Option Char → Text → Bool
  | _, _, [] => false
  | l, prev, c :: cs => here l prev (c :: cs) || occurs here (l.next c) (some c) cs

/-- A comma outside quotes and parentheses. -/
def commaHere (l : Level) (_ : Option Char) (t : Text) : Bool := l.isTop && t.head? == some ','

/-- The word, outside quotes and parentheses. -/
def wordHere (word : Text) (l : Level) (prev : Option Char) (t : Text) : Bool :=
  l.isTop && atWordStart prev && (word? word t).isSome

/-- Two dashes outside quotes. -/
def dashesHere (l : Level) (_ : Option Char) (t : Text) : Bool := !l.quoted && t.startsWith ['-', '-']

section

variable {here : Level → Option Char → Text → Bool} {l : Level} {prev : Option Char}

theorem occurs_cons_eq_false {cs : Text} : occurs here l prev (c :: cs) = false ↔
    here l prev (c :: cs) = false ∧ occurs here (l.next c) (some c) cs = false := by
  rw [occurs, Bool.or_eq_false_iff]

theorem occurs_prev (hprev : ∀ l prev t, here l prev t = here l none t) :
    occurs here l prev t = occurs here l none t := by
  cases t with
  | nil => rfl
  | cons c cs => rw [occurs, occurs, hprev]

theorem occurs_at (h : occurs here l prev (s ++ c :: t) = false) :
    here (l.after s) (s.getLast?.or prev) (c :: t) = false := by
  induction s generalizing l prev with
  | nil => exact (occurs_cons_eq_false.mp h).1
  | cons d s ih =>
    rw [getLast?_cons_or]
    exact ih (occurs_cons_eq_false.mp h).2

theorem occurs_append_eq_false (ht : occurs here l prev t = false)
    (hu : ∀ prev', occurs here (l.after t) prev' u = false)
    (hlocal : ∀ l prev s, s ≠ [] → s <:+ t → here l prev (s ++ u) = here l prev s) :
    occurs here l prev (t ++ u) = false := by
  induction t generalizing l prev with
  | nil => exact hu prev
  | cons c cs ih =>
    obtain ⟨hhere, hrest⟩ := occurs_cons_eq_false.mp ht
    refine occurs_cons_eq_false.mpr ⟨?_, ?_⟩
    · exact (hlocal l prev _ (cons_ne_nil c cs) suffix_rfl).trans hhere
    · exact ih hrest hu fun l prev s hne hs => hlocal l prev s hne (hs.trans (suffix_cons c cs))

end

/-! ### The scanners follow the level -/

section

variable (l : Level) (c : Char) (cs : Text)

theorem commentFrom_level : commentFrom l.quoted (c :: cs) =
    if dashesHere l none (c :: cs) then c :: cs else commentFrom (l.next c).quoted cs := by
  have hquote : startsWith (quote :: cs) ['-', '-'] = false := rfl
  rw [commentFrom_cons, dashesHere, Level.next]
  by_cases hc : c = quote
  · rw [if_pos hc, if_pos hc, hc, hquote, Bool.and_false, if_neg Bool.false_ne_true]
  · rw [if_neg hc, if_neg hc]
    congr 2
    split_ifs <;> rfl

theorem splitCommasFrom_level : splitCommasFrom l.quoted l.depth (c :: cs) =
    if commaHere l none (c :: cs) then [] :: splitCommasFrom (l.next c).quoted (l.next c).depth cs
    else consFirst c (splitCommasFrom (l.next c).quoted (l.next c).depth cs) := by
  have hquote : (quote == ',') = false := rfl
  have hhere : commaHere l none (c :: cs) = (l.isTop && c == ',') := rfl
  rw [splitCommasFrom, hhere, Level.next, Level.isTop]
  obtain ⟨quoted, depth⟩ := l
  by_cases hc : c = quote
  · simp [hc, hquote]
  · rw [if_neg hc, if_neg hc]
    cases quoted with
    | true => simp
    | false =>
      by_cases hopen : c = '('
      · simp [hopen]
      · by_cases hclose : c = ')'
        · simp [hclose]
        · simp [hopen, hclose]

theorem word?_sign (hword : isIdentifier word) (hascii : isAscii c)
    (hsign : isWord c = false) : word? word (c :: cs) = none := by
  obtain ⟨hne, hword⟩ := isIdentifier_iff.mp hword
  obtain ⟨k, ks, rfl⟩ := exists_cons_of_ne_nil hne
  rw [all_cons, Bool.and_eq_true] at hword
  rw [word?, keyword?, if_neg (by simp [sameLetter_sign hword.1 hascii hsign])]
  rfl

theorem topLevelWordFrom_level (hword : isIdentifier word) (prev : Option Char)
    (position : ℕ) :
    topLevelWordFrom word l.quoted l.depth prev position (c :: cs) =
      if wordHere word l prev (c :: cs) then some position
      else topLevelWordFrom word (l.next c).quoted (l.next c).depth (some c) (position + 1) cs := by
  have hsign : ∀ d, isAscii d → isWord d = false → word? word (d :: cs) = none :=
    fun d => word?_sign d cs hword
  rw [topLevelWordFrom, wordHere, Level.next, Level.isTop]
  obtain ⟨quoted, depth⟩ := l
  by_cases hc : c = quote
  · simp [hc, hsign quote rfl rfl]
  · rw [if_neg hc, if_neg hc]
    cases quoted with
    | true => simp
    | false =>
      by_cases hopen : c = '('
      · simp [hopen, hsign '(' rfl rfl]
      · by_cases hclose : c = ')'
        · simp [hclose, hsign ')' rfl rfl]
        · simp [hopen, hclose]

end

/-! ### Pieces of code -/

/-- A character that ends a word and does not start a comment. -/
def isSeparator (c : Char) : Bool := isAscii c && !isWord c && c != '-'

/-- No word and no comment starts in `t` and goes on in `u`. -/
def Apart (t u : Text) : Prop := u.head?.all isSeparator ∨ t.getLast?.any isSeparator

theorem isSeparator_iff : isSeparator c ↔ isAscii c ∧ isWord c = false ∧ c ≠ '-' := by
  simp [isSeparator, and_assoc]

theorem getLast?_of_suffix (hne : s ≠ []) (h : s <:+ t) : t.getLast? = s.getLast? := by
  obtain ⟨r, rfl⟩ := h
  rw [getLast?_append, getLast?_eq_some_getLast hne]
  rfl

theorem Apart.of_suffix (h : Apart t u) (hne : s ≠ []) (hs : s <:+ t) : Apart s u := by
  rw [Apart, getLast?_of_suffix hne hs] at h
  exact h

theorem keyword?_apart {k : Text} (hk : k.all isAsciiWord) (h : Apart s u) :
    keyword? k (s ++ u) = (keyword? k s).map (· ++ u) := by
  induction k generalizing s with
  | nil => rfl
  | cons a k ih =>
    rw [all_cons, Bool.and_eq_true] at hk
    have hsign : ∀ c, isSeparator c → sameLetter a c = false := by
      intro c hc
      obtain ⟨hascii, hword, -⟩ := isSeparator_iff.mp hc
      exact sameLetter_sign hk.1 hascii hword
    cases s with
    | nil =>
      have hhead : u.head?.all isSeparator := h.resolve_right (by simp)
      cases u with
      | nil => rfl
      | cons c u => simp [keyword?, hsign c hhead]
    | cons c s =>
      rw [cons_append, keyword?, keyword?]
      by_cases hsame : sameLetter a c
      · rw [if_pos hsame, if_pos hsame]
        refine ih hk.2 ?_
        rcases h with hhead | hlast
        · exact .inl hhead
        -- a letter of the keyword has been read, so it was not a separator that ended `s`
        · cases s with
          | nil =>
            rw [hsign c hlast] at hsame
            cases hsame
          | cons d s => exact .inr hlast
      · rw [if_neg hsame, if_neg hsame]
        rfl

theorem not_separator_of_spells (hword : isIdentifier word)
    (h : Spells word s) : s.getLast?.any isSeparator = false := by
  obtain ⟨hne, hword⟩ := isIdentifier_iff.mp hword
  have hlast : s.getLast?.map letterKey = word.getLast?.map letterKey := by
    rw [← getLast?_map, ← getLast?_map, h]
  rw [getLast?_eq_some_getLast hne] at hlast
  obtain ⟨c, hc, hkey⟩ := map_eq_some_iff.mp hlast
  have hletter := List.all_eq_true.mp hword _ (getLast_mem hne)
  rw [hc, any_some, ← Bool.not_eq_true]
  intro hsep
  obtain ⟨hascii, hsign, -⟩ := isSeparator_iff.mp hsep
  have hother := sameLetter_sign hletter hascii hsign
  rw [sameLetter_iff.mpr hkey.symm] at hother
  cases hother

theorem word?_apart (hword : isIdentifier word) (h : Apart s u) :
    (word? word (s ++ u)).isSome = (word? word s).isSome := by
  rw [word?, word?, keyword?_apart (isIdentifier_iff.mp hword).2 h]
  cases hread : keyword? word s with
  | none => rfl
  | some r =>
    obtain ⟨m, hm, hs⟩ := keyword?_eq_some_iff.mp hread
    rw [map_some, bind_some, bind_some]
    cases r with
    | cons c r =>
      rw [cons_append, atWordEnd, atWordEnd]
      split_ifs <;> rfl
    | nil =>
      have hhead : u.head?.all isSeparator := by
        rw [append_nil] at hs
        refine h.resolve_right ?_
        rw [hs, not_separator_of_spells hword hm]
        exact Bool.false_ne_true
      cases u with
      | nil => rfl
      | cons c u =>
        have hc : isWord c = false := (isSeparator_iff.mp hhead).2.1
        simp [atWordEnd, hc]

theorem startsWith_dashes_apart (hne : s ≠ []) (h : Apart s u) :
    startsWith (s ++ u) ['-', '-'] = startsWith s ['-', '-'] := by
  obtain ⟨c, s, rfl⟩ := exists_cons_of_ne_nil hne
  rw [Bool.eq_iff_iff, cons_append, startsWith_dashes, startsWith_dashes]
  cases s with
  | cons d s => rfl
  | nil =>
    refine ⟨fun ⟨hc, hu⟩ => absurd h ?_, fun ⟨_, hnone⟩ => nomatch hnone⟩
    rw [nil_append] at hu
    rw [Apart, hu, hc]
    decide

theorem occurs_comma_append
    (ht : occurs commaHere l prev t = false) (hu : occurs commaHere (l.after t) none u = false) :
    occurs commaHere l prev (t ++ u) = false := by
  refine occurs_append_eq_false ht (fun prev' => ?_) fun l prev s hne _ => ?_
  · rw [occurs_prev fun _ _ _ => rfl]
    exact hu
  · obtain ⟨c, cs, rfl⟩ := exists_cons_of_ne_nil hne
    rfl

theorem occurs_dashes_append
    (ht : occurs dashesHere l prev t = false) (hu : occurs dashesHere (l.after t) none u = false)
    (h : Apart t u) : occurs dashesHere l prev (t ++ u) = false := by
  refine occurs_append_eq_false ht (fun prev' => ?_) fun l prev s hs hsuffix => ?_
  · rw [occurs_prev fun _ _ _ => rfl]
    exact hu
  · rw [dashesHere, dashesHere, startsWith_dashes_apart hs (h.of_suffix hs hsuffix)]

/-- **A text in which no comma is at the top level is passed over** when a text is split. -/
theorem splitCommasFrom_passed
    (h : occurs commaHere l prev t = false) (u : Text) : splitCommasFrom l.quoted l.depth (t ++ u) =
      t.foldr consFirst (splitCommasFrom (l.after t).quoted (l.after t).depth u) := by
  induction t generalizing l prev with
  | nil => rfl
  | cons c cs ih =>
    obtain ⟨hhere, hrest⟩ := occurs_cons_eq_false.mp h
    have hcomma : commaHere l none (c :: (cs ++ u)) = false := hhere
    rw [cons_append, splitCommasFrom_level, hcomma, if_neg Bool.false_ne_true, ih hrest,
      foldr_cons, Level.after_cons]

theorem foldr_consFirst (t piece : Text) (pieces : List Text) :
    t.foldr consFirst (piece :: pieces) = (t ++ piece) :: pieces := by
  induction t with
  | nil => rfl
  | cons c t ih =>
    rw [foldr_cons, ih]
    rfl

theorem splitCommas_of_none (h : occurs commaHere {} none t = false) : splitCommas t = [t] := by
  have hpassed := splitCommasFrom_passed h []
  rw [append_nil] at hpassed
  rw [splitCommas, hpassed, splitCommasFrom, foldr_consFirst, append_nil]

/-- **The first piece ends at the comma** after a balanced text without one. -/
theorem splitCommas_append (h : occurs commaHere {} none t = false)
    (hlevel : Level.after {} t = {}) (u : Text) : splitCommas (t ++ ',' :: u) = t :: splitCommas u := by
  have hcomma : splitCommasFrom false 0 (',' :: u) = [] :: splitCommas u := rfl
  rw [splitCommas, splitCommasFrom_passed h, hlevel, hcomma, foldr_consFirst, append_nil]

/-- **A text that keeps to itself** on the top level of a line: it is balanced, and neither the word nor
a comment starts in it. -/
structure Sealed (word t : Text) : Prop where
  balanced : Level.after {} t = {}
  noWord : occurs (wordHere word) {} none t = false
  noComment : occurs dashesHere {} none t = false

theorem occurs_wordHere_of_none (h : occurs (wordHere word) l none t = false) (prev : Option Char) :
    occurs (wordHere word) l prev t = false := by
  cases t with
  | nil => rfl
  | cons c cs =>
    obtain ⟨hhere, hrest⟩ := occurs_cons_eq_false.mp h
    refine occurs_cons_eq_false.mpr ⟨?_, hrest⟩
    rw [wordHere, atWordStart, Bool.and_true] at hhere
    rw [wordHere, Bool.and_right_comm, hhere, Bool.false_and]

theorem Sealed.append (hword : isIdentifier word)
    (ht : Sealed word t) (hu : Sealed word u) (h : Apart t u) : Sealed word (t ++ u) where
  balanced := by rw [Level.after_append, ht.balanced, hu.balanced]
  noWord := by
    refine occurs_append_eq_false ht.noWord (fun prev => ?_) fun l prev s hs hsuffix => ?_
    · rw [ht.balanced]
      exact occurs_wordHere_of_none hu.noWord prev
    · rw [wordHere, wordHere, word?_apart hword (h.of_suffix hs hsuffix)]
  noComment := occurs_dashes_append ht.noComment (by rw [ht.balanced]; exact hu.noComment) h

/-- **A text that keeps to itself is passed over** when a comment is looked for. -/
theorem commentFrom_passed (h : occurs dashesHere l prev t = false) (hapart : t ≠ [] → Apart t u) :
    commentFrom l.quoted (t ++ u) = commentFrom (l.after t).quoted u := by
  induction t generalizing l prev with
  | nil => rfl
  | cons c cs ih =>
    obtain ⟨hhere, hrest⟩ := occurs_cons_eq_false.mp h
    have hne := cons_ne_nil c cs
    have hdashes : dashesHere l none (c :: (cs ++ u)) = false := by
      rw [dashesHere, ← cons_append, startsWith_dashes_apart hne (hapart hne)]
      exact hhere
    rw [cons_append, commentFrom_level, hdashes, if_neg Bool.false_ne_true, Level.after_cons]
    exact ih hrest fun hcs => (hapart hne).of_suffix hcs (suffix_cons c cs)

theorem commentFrom_of_none (h : occurs dashesHere {} none t = false) : commentFrom false t = [] := by
  have hpassed := commentFrom_passed (u := []) h fun _ => .inl rfl
  rwa [append_nil] at hpassed

/-- **A text that keeps to itself is passed over** when a word is looked for. -/
theorem topLevelWordFrom_passed (hword : isIdentifier word)
    (h : occurs (wordHere word) l prev t = false) (hapart : t ≠ [] → Apart t u) (position : ℕ) :
    topLevelWordFrom word l.quoted l.depth prev position (t ++ u) =
      topLevelWordFrom word (l.after t).quoted (l.after t).depth (t.getLast?.or prev)
        (position + t.length) u := by
  induction t generalizing l prev position with
  | nil => rfl
  | cons c cs ih =>
    obtain ⟨hhere, hrest⟩ := occurs_cons_eq_false.mp h
    have hcons := cons_ne_nil c cs
    have hnot : wordHere word l prev (c :: (cs ++ u)) = false := by
      rw [wordHere, ← cons_append, word?_apart hword (hapart hcons)]
      exact hhere
    rw [cons_append, topLevelWordFrom_level l c _ hword, hnot, if_neg Bool.false_ne_true,
      ih hrest (fun hcs => (hapart hcons).of_suffix hcs (suffix_cons c cs)), Level.after_cons,
      length_cons, getLast?_cons_or, Nat.add_right_comm, Nat.add_assoc]

/-! ### Plain texts -/

/-- A character that changes no level and is no comma and no dash. -/
def isPlain (c : Char) : Bool := c ∉ [quote, '(', ')', ',', '-']

theorem isPlain_of_class {p : Char → Bool} (hp : [quote, '(', ')', ',', '-'].any p = false)
    (h : t.all p) : t.all isPlain := by
  refine List.all_eq_true.mpr fun c hc => decide_eq_true fun hmem => ?_
  exact List.any_eq_false.mp hp c hmem (List.all_eq_true.mp h c hc)

theorem isPlain_of_isWord (h : t.all isWord) : t.all isPlain :=
  isPlain_of_class rfl h

theorem isPlain_of_isBlank (h : t.isBlank) : t.all isPlain :=
  isPlain_of_class rfl h

section

variable {l : Level} {t : Text} (h : t.all isPlain)
include h

theorem Level.after_of_isPlain : l.after t = l := by
  induction t with
  | nil => rfl
  | cons c t ih =>
    rw [all_cons, Bool.and_eq_true] at h
    have hc : c ∉ [quote, '(', ')', ',', '-'] := of_decide_eq_true h.1
    have hnext : l.next c = l := by
      simp only [mem_cons, not_or] at hc
      rw [next, if_neg hc.1, if_neg hc.2.1, if_neg hc.2.2.1, ite_self]
    rw [after_cons, hnext]
    exact ih h.2

/-- Nothing that starts with a comma or a dash occurs in a plain text. -/
theorem occurs_of_isPlain {here : Level → Option Char → Text → Bool}
    (hhere : ∀ l prev c cs, isPlain c → here l prev (c :: cs) = false) (prev : Option Char) :
    occurs here l prev t = false := by
  induction t generalizing l prev with
  | nil => rfl
  | cons c t ih =>
    rw [all_cons, Bool.and_eq_true] at h
    exact occurs_cons_eq_false.mpr ⟨hhere l prev c t h.1, ih h.2 _⟩

theorem occurs_comma_of_isPlain (prev : Option Char) : occurs commaHere l prev t = false := by
  refine occurs_of_isPlain h (fun l prev c cs hc => ?_) prev
  have hne : c ≠ ',' := by
    rintro rfl
    cases hc
  simp [commaHere, hne]

theorem occurs_dashes_of_isPlain (prev : Option Char) : occurs dashesHere l prev t = false := by
  refine occurs_of_isPlain h (fun l prev c cs hc => ?_) prev
  have hne : c ≠ '-' := by
    rintro rfl
    cases hc
  rw [dashesHere, Bool.and_eq_false_iff, ← Bool.not_eq_true (startsWith _ _), startsWith_dashes]
  exact .inr fun hdashes => hne hdashes.1

end

/-! ### Names -/

theorem occurs_word_inside (hw : w.all isWord)
    (hprev : prev.any isWord) : occurs (wordHere word) l prev w = false := by
  induction w generalizing l prev with
  | nil => rfl
  | cons c w ih =>
    rw [all_cons, Bool.and_eq_true] at hw
    refine occurs_cons_eq_false.mpr ⟨?_, ih hw.2 hw.1⟩
    cases prev with
    | none => cases hprev
    | some d =>
      rw [any_some] at hprev
      simp [wordHere, atWordStart, hprev]

theorem word?_name (hw : w.all isWord) (hother : ¬Spells word w) : word? word w = none := by
  rw [word?, bind_eq_none_iff]
  intro r hread
  obtain ⟨m, hm, rfl⟩ := keyword?_eq_some_iff.mp hread
  cases r with
  | nil =>
    rw [append_nil] at hother
    exact absurd hm hother
  | cons c r =>
    have hc : isWord c := List.all_eq_true.mp hw c (by simp)
    simp [atWordEnd, hc]

/-- **A name other than the word keeps to itself.** -/
theorem sealed_name (hw : w.all isWord) (hother : ¬Spells word w) :
    Sealed word w where
  balanced := Level.after_of_isPlain (isPlain_of_isWord hw)
  noComment := occurs_dashes_of_isPlain (isPlain_of_isWord hw) none
  noWord := by
    cases w with
    | nil => rfl
    | cons c w =>
      have hread := word?_name hw hother
      rw [all_cons, Bool.and_eq_true] at hw
      refine occurs_cons_eq_false.mpr ⟨?_, occurs_word_inside hw.2 hw.1⟩
      rw [wordHere, hread]
      simp

end SqlRoutine.Code

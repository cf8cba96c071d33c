import SqlRoutine.Proofs.Text.Word

/-! # What is found after a replacement

A **substitution** puts one text in the place of everything that a scanner reads, perhaps only where a
word may start. A replacement can glue to its neighbours, complete a word or make room for one, so that
something is found in the result that was not there before. This says when that cannot happen: names give
way to names (`Substitution.Named`), what is read after the replacement was there before it
(`ReadsThrough`), and nothing starts within the replacement. Then **whatever is found in the result was
found in the text, at a place that was passed over** (`Substitution.Spares.exists_of_occurs`): nothing that
has been removed comes back. -/

namespace SqlRoutine.Text

open List Option

/-- A character that a name starts with. -/
def isInitial (c : Char) : Bool := isWord c && !isDecimal c

theorem isInitial_iff {c : Char} : isInitial c ↔ isWord c ∧ isDecimal c = false := by
  simp [isInitial]

theorem not_blank_of_isInitial {c : Char} (h : isInitial c) : SqlRoutine.isBlank c = false := by
  have hword : isWord c := (isInitial_iff.mp h).1
  rw [← Bool.not_eq_true]
  intro hblank
  rw [isWord_blank hblank] at hword
  cases hword

/-! ### Substitutions -/

/-- **A substitution**: what the scanner reads gives way to the replacement, everywhere or only where a
word may start. -/
structure Substitution where
  atStart : Bool
  scan : Text → Option Text
  replacement : Text

namespace Substitution

variable {s l : Substitution} {prev : Option Char} {t : Text}

/-- The finder of a substitution. -/
def finder (s : Substitution) : Finder Text := fun prev t =>
  if !s.atStart || atWordStart prev then (s.scan t).map (s.replacement, ·) else none

/-- **What the substitution looks for is found in the text.** -/
def Occurs (s : Substitution) (t : Text) : Prop :=
  ∃ u v, t = u ++ v ∧ (s.finder u.getLast? v).isSome

theorem finder_eq_some_iff {r rest : Text} : s.finder prev t = some (r, rest) ↔
    (s.atStart → atWordStart prev) ∧ s.scan t = some rest ∧ r = s.replacement := by
  unfold finder
  split_ifs with hstart
  · have hroom : s.atStart → atWordStart prev := by
      intro hat
      simpa [hat] using hstart
    rw [map_eq_some_iff]
    constructor
    · rintro ⟨rest', hscan, heq⟩
      obtain ⟨rfl, rfl⟩ := Prod.mk.inj heq
      exact ⟨hroom, hscan, rfl⟩
    · rintro ⟨-, hscan, rfl⟩
      exact ⟨rest, hscan, rfl⟩
  · constructor
    · intro hnone
      cases hnone
    · rintro ⟨hroom, -, -⟩
      simp only [Bool.or_eq_true, Bool.not_eq_true', not_or, Bool.not_eq_false] at hstart
      exact absurd (hroom hstart.1) hstart.2

theorem isSome_finder_iff : (s.finder prev t).isSome ↔
    (s.atStart → atWordStart prev) ∧ (s.scan t).isSome := by
  rw [isSome_iff_exists, isSome_iff_exists]
  constructor
  · rintro ⟨⟨r, rest⟩, hfind⟩
    obtain ⟨hroom, hscan, -⟩ := finder_eq_some_iff.mp hfind
    exact ⟨hroom, rest, hscan⟩
  · rintro ⟨hroom, rest, hscan⟩
    exact ⟨(s.replacement, rest), finder_eq_some_iff.mpr ⟨hroom, hscan, rfl⟩⟩

/-- **Names give way to names.** What is read starts as a name does, and so does the replacement; where a
word may start after the replacement, it could start after what was read. -/
structure Named (s : Substitution) : Prop where
  reads : ∀ t rest, s.scan t = some rest → ∃ c m, t = c :: m ++ rest ∧ isInitial c ∧
    (atWordStart s.replacement.getLast? → atWordStart (c :: m).getLast?)
  writes : s.replacement.head?.any isInitial

theorem Named.proper (hs : s.Named) : Proper s.finder := by
  intro prev t r rest hfind
  obtain ⟨-, hscan, -⟩ := finder_eq_some_iff.mp hfind
  obtain ⟨c, m, rfl, -⟩ := hs.reads t rest hscan
  exact ⟨c :: m, cons_ne_nil c m, rfl⟩

theorem Named.replacement_eq (hs : s.Named) : ∃ d r, s.replacement = d :: r ∧ isInitial d := by
  have hfirst := hs.writes
  cases h : s.replacement with
  | nil => rw [h] at hfirst; cases hfirst
  | cons d r =>
    rw [h, head?_cons, any_some] at hfirst
    exact ⟨d, r, rfl, hfirst⟩

theorem Named.scan_nil (hs : s.Named) : s.scan [] = none := by
  cases h : s.scan [] with
  | none => rfl
  | some rest =>
    obtain ⟨c, m, hnil, -⟩ := hs.reads [] rest h
    cases hnil

/-- **One step of a substitution**: a character is passed over, or the replacement stands for something
that starts as a name does. -/
theorem Named.replaceFrom_cases (hs : s.Named) (prev : Option Char) (c : Char) (cs : Text) :
    (s.finder prev (c :: cs) = none ∧
      replaceFrom s.finder prev (c :: cs) = c :: replaceFrom s.finder (some c) cs) ∨
    (isInitial c ∧ (s.atStart → atWordStart prev) ∧
      ∃ u, replaceFrom s.finder prev (c :: cs) = s.replacement ++ u) := by
  cases hfind : s.finder prev (c :: cs) with
  | none => exact .inl ⟨rfl, replaceFrom_of_none hfind⟩
  | some found =>
    obtain ⟨r, rest⟩ := found
    obtain ⟨hroom, hscan, rfl⟩ := finder_eq_some_iff.mp hfind
    obtain ⟨c', m, heq, hinitial, -⟩ := hs.reads _ _ hscan
    have hc : c = c' := (List.cons.inj heq).1
    refine .inr ⟨hc ▸ hinitial, hroom, replaceFrom s.finder (c' :: m).getLast? rest, ?_⟩
    rw [heq] at hfind ⊢
    exact replaceFrom_of_found (cons_ne_nil c' m) hfind

end Substitution

/-! ### Reading through a replacement -/

/-- **What is read after a replacement was there before it**, and what is left is the replacement of what
was left. -/
def ReadsThrough (find : Finder Text) (scan : Text → Option Text) : Prop :=
  ∀ prev t u, scan (replaceFrom find prev t) = some u →
    ∃ prev' t', scan t = some t' ∧ u = replaceFrom find prev' t'

section

variable {find : Finder Text} {scan next : Text → Option Text}

theorem ReadsThrough.bind (h : ReadsThrough find scan) (hnext : ReadsThrough find next) :
    ReadsThrough find fun t => (scan t).bind next := by
  intro prev t u hread
  obtain ⟨v, hscan, hv⟩ := bind_eq_some_iff.mp hread
  obtain ⟨prev', t', ht', rfl⟩ := h prev t v hscan
  obtain ⟨prev'', t'', ht'', rfl⟩ := hnext prev' t' u hv
  refine ⟨prev'', t'', ?_, rfl⟩
  dsimp only
  rw [ht', bind_some, ht'']

theorem ReadsThrough.isSome (h : ReadsThrough find scan) {prev : Option Char} {t : Text}
    (hread : (scan (replaceFrom find prev t)).isSome) : (scan t).isSome := by
  obtain ⟨u, hu⟩ := isSome_iff_exists.mp hread
  obtain ⟨-, t', ht', -⟩ := h prev t u hu
  rw [ht']
  rfl

theorem readsThrough_some : ReadsThrough find some := by
  intro prev t u hread
  exact ⟨prev, t, rfl, (Option.some.inj hread).symm⟩

end

/-- The replacement cannot be part of the word, at whatever letter of the word it starts: it differs from
what is left of the word, or no word may start there. -/
def clashes (atStart : Bool) (replacement : Text) : Option Char → Text → Bool
  | _, [] => true
  | before, k :: ks =>
    (atStart && before.any isAsciiWord || differ (k :: ks) replacement) &&
      clashes atStart replacement (some k) ks

namespace Substitution

variable {s l : Substitution} (hs : s.Named)
include hs

theorem Named.keyword?_replaceFrom : ∀ (w : Text) {before prev : Option Char} {t u : Text},
    (before.any isAsciiWord → prev.any isWord) →
    clashes s.atStart s.replacement before w →
    keyword? w (replaceFrom s.finder prev t) = some u →
      ∃ prev' t', keyword? w t = some t' ∧ u = replaceFrom s.finder prev' t'
  | [], before, prev, t, u, _, _, hread => ⟨prev, t, rfl, (Option.some.inj hread).symm⟩
  | k :: ks, before, prev, [], u, _, _, hread => by cases hread
  | k :: ks, before, prev, c :: cs, u, hbefore, hclash, hread => by
    rw [clashes, Bool.and_eq_true, Bool.or_eq_true, Bool.and_eq_true] at hclash
    rcases hs.replaceFrom_cases prev c cs with ⟨-, hpassed⟩ | ⟨-, hroom, rest, hreplaced⟩
    · rw [hpassed, keyword?] at hread
      split_ifs at hread with hsame
      have hword : (some k).any isAsciiWord → (some c).any isWord := fun hk =>
        isWord_of_sameLetter hk (sameLetter_iff.mp hsame).symm
      obtain ⟨prev', t', ht', rfl⟩ := keyword?_replaceFrom ks hword hclash.2 hread
      exact ⟨prev', t', by rw [keyword?, if_pos hsame, ht'], rfl⟩
    · rw [hreplaced] at hread
      rcases hclash.1 with ⟨hat, hin⟩ | hdiffer
      · -- no word starts within a word
        have hstart : atWordStart prev := hroom hat
        have hprev : prev.any isWord := hbefore hin
        cases prev with
        | none => cases hprev
        | some d => simp [atWordStart, show isWord d from hprev] at hstart
      · rw [keyword?_append_of_differ hdiffer] at hread
        cases hread

theorem Named.through_keyword? {w : Text} (hw : clashes s.atStart s.replacement none w) :
    ReadsThrough s.finder (keyword? w) := fun _ _ _ hread =>
  hs.keyword?_replaceFrom w (fun h => by cases h) hw hread

/-- **A run of characters that no name starts with** is passed over. -/
theorem Named.run_replaceFrom {P : Char → Bool} (hP : ∀ c, isInitial c → P c = false)
    (prev : Option Char) (t : Text) :
    ∃ prev', (replaceFrom s.finder prev t).takeWhile P = t.takeWhile P ∧
      (replaceFrom s.finder prev t).dropWhile P = replaceFrom s.finder prev' (t.dropWhile P) := by
  induction t generalizing prev with
  | nil => exact ⟨prev, rfl, rfl⟩
  | cons c cs ih =>
    rcases hs.replaceFrom_cases prev c cs with ⟨-, hpassed⟩ | ⟨hinitial, -, rest, hreplaced⟩
    · by_cases hc : P c
      · obtain ⟨prev', htake, hdrop⟩ := ih (some c)
        rw [hpassed, takeWhile_cons_of_pos hc, takeWhile_cons_of_pos hc,
          dropWhile_cons_of_pos hc, dropWhile_cons_of_pos hc, htake]
        exact ⟨prev', rfl, hdrop⟩
      · refine ⟨prev, ?_, ?_⟩
        · rw [hpassed, takeWhile_cons_of_neg hc, takeWhile_cons_of_neg hc]
        · rw [dropWhile_cons_of_neg hc, hpassed, dropWhile_cons_of_neg hc]
    · obtain ⟨e, r, hr, he⟩ := hs.replacement_eq
      have hc : ¬P c := by simp [hP c hinitial]
      have he : ¬P e := by simp [hP e he]
      refine ⟨prev, ?_, ?_⟩
      · rw [hreplaced, hr, cons_append, takeWhile_cons_of_neg he, takeWhile_cons_of_neg hc]
      · rw [dropWhile_cons_of_neg hc, hreplaced, hr, cons_append, dropWhile_cons_of_neg he]

theorem Named.through_trimStart {r : Text → Option Text} (h : ReadsThrough s.finder r) :
    ReadsThrough s.finder fun t => r t.trimStart := by
  intro prev t u hread
  obtain ⟨prev', -, hdrop⟩ := hs.run_replaceFrom (fun _ => not_blank_of_isInitial) prev t
  dsimp only [trimStart] at hread ⊢
  rw [hdrop] at hread
  exact h prev' _ u hread

theorem Named.through_char? {c : Char} (hc : isInitial c = false) : ReadsThrough s.finder (char? c) := by
  intro prev t u hread
  cases t with
  | nil => cases hread
  | cons d ds =>
    rcases hs.replaceFrom_cases prev d ds with ⟨-, hpassed⟩ | ⟨-, -, rest, hreplaced⟩
    · rw [hpassed] at hread
      obtain ⟨rfl, hu⟩ := List.cons.inj (char?_eq_some_iff.mp hread)
      exact ⟨some d, ds, char?_cons_self d ds, hu.symm⟩
    · -- the replacement starts with something else
      obtain ⟨e, r, hr, he⟩ := hs.replacement_eq
      have hne : e ≠ c := by
        rintro rfl
        rw [he] at hc
        cases hc
      rw [hreplaced, hr, cons_append, char?, if_neg hne] at hread
      cases hread

theorem Named.through_sign {c : Char} (hc : isInitial c = false) :
    ReadsThrough s.finder fun t => char? c t.trimStart :=
  hs.through_trimStart (hs.through_char? hc)

theorem Named.through_wordEnd : ReadsThrough s.finder fun t => if atWordEnd t then some t else none := by
  intro prev t u hread
  dsimp only at hread ⊢
  split_ifs at hread with hend
  obtain rfl := Option.some.inj hread
  refine ⟨prev, t, if_pos ?_, rfl⟩
  cases t with
  | nil => rfl
  | cons c cs =>
    rcases hs.replaceFrom_cases prev c cs with ⟨-, hpassed⟩ | ⟨-, -, rest, hreplaced⟩
    · rw [hpassed] at hend
      exact hend
    · obtain ⟨e, r, hr, he⟩ := hs.replacement_eq
      rw [hreplaced, hr, cons_append, atWordEnd, (isInitial_iff.mp he).1] at hend
      cases hend

end Substitution

/-! ### What is found after a replacement -/

/-- None of the words starts in the text, whatever follows it: they differ, or no word may start there. -/
def startsNone (atStart : Bool) (words : List Text) : Option Char → Text → Bool
  | _, [] => true
  | before, c :: cs =>
    (atStart && before.any isWord || words.all (differ · (c :: cs))) &&
      startsNone atStart words (some c) cs

namespace Substitution

variable {s l : Substitution}

/-- **A substitution spares what another one looks for**: that is not read across a replacement, and
nothing of the kind starts within a replacement. -/
structure Spares (s l : Substitution) : Prop where
  through : ∀ prev t, (l.scan (replaceFrom s.finder prev t)).isSome → (l.scan t).isSome
  inside : ∀ a b, s.replacement = a ++ b → b ≠ [] → ∀ prev u, l.finder (a.getLast?.or prev) (b ++ u) = none

theorem finder_of_startsNone {words : List Text}
    (hasks : ∀ t rest, l.scan t = some rest → ∃ word ∈ words, (keyword? word t).isSome) :
    ∀ (a : Text) {b : Text} (before prev : Option Char),
      (before.any isWord → prev.any isWord) →
      startsNone l.atStart words before (a ++ b) → b ≠ [] → ∀ u,
        l.finder (a.getLast?.or prev) (b ++ u) = none
  | [], b, before, prev, hbefore, hnone, hb, u => by
    obtain ⟨c, cs, rfl⟩ := exists_cons_of_ne_nil hb
    rw [nil_append, startsNone, Bool.and_eq_true, Bool.or_eq_true, Bool.and_eq_true] at hnone
    rw [← not_isSome_iff_eq_none, getLast?_nil, none_or, isSome_finder_iff]
    rintro ⟨hroom, hscan⟩
    obtain ⟨rest, hrest⟩ := isSome_iff_exists.mp hscan
    rcases hnone.1 with ⟨hat, hin⟩ | hdiffer
    · have hstart : atWordStart prev := hroom hat
      have hprev : prev.any isWord := hbefore hin
      cases prev with
      | none => cases hprev
      | some d => simp [atWordStart, show isWord d from hprev] at hstart
    · obtain ⟨word, hword, hread⟩ := hasks _ _ hrest
      rw [keyword?_append_of_differ (List.all_eq_true.mp hdiffer word hword)] at hread
      cases hread
  | c :: a, b, before, prev, _, hnone, hb, u => by
    rw [cons_append, startsNone, Bool.and_eq_true] at hnone
    rw [getLast?_cons_or]
    exact finder_of_startsNone hasks a (some c) (some c) id hnone.2 hb u

/-- **What is found in the result was found in the text**, at a place that was passed over. -/
theorem Spares.exists_of_occurs (h : s.Spares l) (hs : s.Named) (hl : l.scan [] = none) {t : Text}
    (hoccurs : l.Occurs (replaceAll s.finder t)) :
    ∃ u v, t = u ++ v ∧ s.finder u.getLast? v = none ∧ (l.finder u.getLast? v).isSome := by
  -- the induction is on the steps of the replacement; where a word may start in the result, one may
  -- start in the text
  have hsteps := replaceFrom_induction hs.proper (P := fun prev t out => ∀ prevOut : Option Char,
    (atWordStart prevOut → atWordStart prev) → out = replaceFrom s.finder prev t →
      ∀ u v, out = u ++ v → (l.finder (u.getLast?.or prevOut) v).isSome →
        ∃ u' v', t = u' ++ v' ∧ s.finder (u'.getLast?.or prev) v' = none ∧
          (l.finder (u'.getLast?.or prev) v').isSome) ?_ ?_ ?_ none t
  · obtain ⟨u, v, hsplit, hfound⟩ := hoccurs
    obtain ⟨u', v', ht, hpassed, hfound'⟩ := hsteps none id rfl u v hsplit (by rwa [or_none])
    rw [or_none] at hpassed hfound'
    exact ⟨u', v', ht, hpassed, hfound'⟩
  · intro prev prevOut _ _ u v hnil hfound
    obtain ⟨rfl, rfl⟩ := append_eq_nil_iff.mp hnil.symm
    rw [isSome_finder_iff, hl] at hfound
    cases hfound.2
  · intro prev c cs hfind ih prevOut hroom hout u v hsplit hfound
    cases u with
    | nil =>
      -- the occurrence starts at the character that is passed over
      rw [nil_append] at hsplit
      rw [← hsplit, getLast?_nil, none_or, isSome_finder_iff] at hfound
      have hscan : (l.scan (c :: cs)).isSome := h.through prev (c :: cs) (hout ▸ hfound.2)
      exact ⟨[], c :: cs, rfl, hfind, isSome_finder_iff.mpr ⟨fun hat => hroom (hfound.1 hat), hscan⟩⟩
    | cons d u =>
      rw [cons_append] at hsplit
      obtain ⟨rfl, hrest⟩ := List.cons.inj hsplit
      rw [getLast?_cons_or] at hfound
      obtain ⟨u', v', ht, hpassed, hfound'⟩ := ih (some c) id rfl u v hrest hfound
      refine ⟨c :: u', v', by rw [ht, cons_append], ?_, ?_⟩
      · rwa [getLast?_cons_or]
      · rwa [getLast?_cons_or]
  · intro prev m r rest hm hfind ih prevOut _ _ u v hsplit hfound
    obtain ⟨hroom, hscan, rfl⟩ := finder_eq_some_iff.mp hfind
    obtain ⟨d, r', hr, -⟩ := hs.replacement_eq
    have hplace : (∃ a, u = s.replacement ++ a ∧ replaceFrom s.finder m.getLast? rest = a ++ v) ∨
        ∃ b, b ≠ [] ∧ s.replacement = u ++ b ∧ v = b ++ replaceFrom s.finder m.getLast? rest := by
      rcases append_eq_append_iff.mp hsplit with hbehind | ⟨b, hb, hv⟩
      · exact .inl hbehind
      · by_cases hnil : b = []
        · subst hnil
          exact .inl ⟨[], by rw [hb, append_nil, append_nil], by rw [hv]; rfl⟩
        · exact .inr ⟨b, hnil, hb, hv⟩
    rcases hplace with ⟨a, rfl, hrest⟩ | ⟨b, hne, hb, hv⟩
    · -- the occurrence starts behind the replacement
      have hlast : (s.replacement ++ a).getLast?.or prevOut = a.getLast?.or s.replacement.getLast? := by
        rw [getLast?_append, Option.or_assoc, hr, getLast?_cons, some_or]
      obtain ⟨c, m', heq, -, hlastRoom⟩ := hs.reads _ _ hscan
      obtain rfl := append_cancel_right heq
      rw [hlast] at hfound
      obtain ⟨u', v', ht, hpassed, hfound'⟩ := ih _ hlastRoom rfl a v hrest hfound
      have hlast' : ((c :: m') ++ u').getLast?.or prev = u'.getLast?.or (c :: m').getLast? := by
        rw [getLast?_append, Option.or_assoc, getLast?_cons, some_or]
      refine ⟨c :: m' ++ u', v', by rw [ht, append_assoc], ?_, ?_⟩
      · rwa [hlast']
      · rwa [hlast']
    · rw [hv, h.inside u b hb hne] at hfound
      cases hfound

theorem Spares.not_occurs (h : s.Spares l) (hs : s.Named) (hl : l.scan [] = none) {t : Text}
    (ht : ¬l.Occurs t) : ¬l.Occurs (replaceAll s.finder t) := by
  intro hoccurs
  obtain ⟨u, v, hsplit, -, hfound⟩ := h.exists_of_occurs hs hl hoccurs
  exact ht ⟨u, v, hsplit, hfound⟩

/-- **Nothing is left of what is replaced.** -/
theorem Spares.not_occurs_self (h : s.Spares s) (hs : s.Named) (t : Text) :
    ¬s.Occurs (replaceAll s.finder t) := by
  intro hoccurs
  obtain ⟨u, v, -, hpassed, hfound⟩ := h.exists_of_occurs hs hs.scan_nil hoccurs
  rw [hpassed] at hfound
  cases hfound

theorem replaceAll_of_not_occurs {t : Text} (h : ¬s.Occurs t) : replaceAll s.finder t = t := by
  suffices hfrom : ∀ (u v : Text), t = u ++ v → replaceFrom s.finder u.getLast? v = v from hfrom [] t rfl
  intro u v
  induction v generalizing u with
  | nil =>
    intro _
    rfl
  | cons c v ih =>
    intro hsplit
    have hnone : s.finder u.getLast? (c :: v) = none := by
      rw [← not_isSome_iff_eq_none]
      exact fun hfound => h ⟨u, c :: v, hsplit, hfound⟩
    have hlast : (u ++ [c]).getLast? = some c := by simp
    rw [replaceFrom_of_none hnone, ← hlast, ih (u ++ [c]) (by rw [hsplit, append_assoc]; rfl)]

end Substitution

end SqlRoutine.Text

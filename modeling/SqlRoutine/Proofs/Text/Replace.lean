import SqlRoutine.Proofs.Text.Scan
import SqlRoutine.Text.Replace

/-! # What replacing does to a text

`replaceFrom` is `replaceAll` from a position on. A position where nothing is found is passed over, and
something that is found gives way to its replacement (`replaceFrom_induction`). From this follow

* which characters the result can have (`mem_replaceFrom`);
* that the parts of a text are replaced on their own, if nothing is found across the cut
  (`replaceFrom_append`);
* that a text is left alone in which none of the words occurs that the finder asks for
  (`replaceAll_passed`). -/

namespace SqlRoutine.Text

open List Option

variable {c : Char} {prev : Option Char} {cs m rest : Text}

variable {find : Finder Text}

/-- What is left to replace after the character `prev`. -/
def replaceFrom (find : Finder Text) (prev : Option Char) (t : Text) : Text :=
  (segmentsFrom find prev 0 t).flatMap fill

theorem replaceAll_eq (find : Finder Text) (t : Text) : replaceAll find t = replaceFrom find none t :=
  rfl

theorem replaceFrom_nil (prev : Option Char) : replaceFrom find prev [] = [] := rfl

theorem getLast?_cons_or (c : Char) (t : Text) (prev : Option Char) :
    (c :: t).getLast?.or prev = t.getLast?.or (some c) := by
  rw [getLast?_cons]
  cases t.getLast? <;> rfl

/-! ### Step by step -/

section

variable {α : Type} {finder : Finder α}

theorem segmentsFrom_of_none (h : finder prev (c :: cs) = none) :
    segmentsFrom finder prev 0 (c :: cs) = .inl c :: segmentsFrom finder (some c) 0 cs := by
  rw [segmentsFrom, h]

theorem segmentsFrom_skip (finder : Finder α) : ∀ (m rest : Text) (prev : Option Char),
    segmentsFrom finder prev m.length (m ++ rest) = segmentsFrom finder (m.getLast?.or prev) 0 rest
  | [], _, _ => rfl
  | c :: m, rest, prev => by
    rw [getLast?_cons_or, ← segmentsFrom_skip finder m rest (some c)]
    rfl

theorem segmentsFrom_of_found {a : α} (hm : m ≠ []) (h : finder prev (m ++ rest) = some (a, rest)) :
    segmentsFrom finder prev 0 (m ++ rest) = .inr a :: segmentsFrom finder m.getLast? 0 rest := by
  obtain ⟨c, m, rfl⟩ := exists_cons_of_ne_nil hm
  have hlength : (m ++ rest).length - rest.length = m.length := by simp
  have hlast : (c :: m).getLast? = m.getLast?.or (some c) := by
    rw [← getLast?_cons_or c m none, or_none]
  rw [cons_append] at h ⊢
  rw [segmentsFrom, h]
  dsimp only
  rw [hlength, segmentsFrom_skip, ← hlast]

/-- What is found begins where it was looked for, and is not empty. -/
def Proper (finder : Finder α) : Prop :=
  ∀ prev t a rest, finder prev t = some (a, rest) → ∃ m, m ≠ [] ∧ t = m ++ rest

/-- **A layout, step by step**: a position is passed over, or something is found there. -/
theorem segmentsFrom_induction (hproper : Proper finder)
    {P : Option Char → Text → List (Char ⊕ α) → Prop} (nil : ∀ prev, P prev [] [])
    (passed : ∀ prev c cs, finder prev (c :: cs) = none →
      P (some c) cs (segmentsFrom finder (some c) 0 cs) →
        P prev (c :: cs) (.inl c :: segmentsFrom finder (some c) 0 cs))
    (found : ∀ prev m a rest, m ≠ [] → finder prev (m ++ rest) = some (a, rest) →
      P m.getLast? rest (segmentsFrom finder m.getLast? 0 rest) →
        P prev (m ++ rest) (.inr a :: segmentsFrom finder m.getLast? 0 rest))
    (prev : Option Char) (t : Text) : P prev t (segmentsFrom finder prev 0 t) := by
  induction hn : t.length using Nat.strong_induction_on generalizing prev t with
  | _ n ih =>
    subst hn
    rcases t with _ | ⟨c, cs⟩
    · exact nil prev
    · cases hfind : finder prev (c :: cs) with
      | none =>
        rw [segmentsFrom_of_none hfind]
        exact passed prev c cs hfind (ih cs.length (by simp) _ cs rfl)
      | some found' =>
        obtain ⟨a, rest⟩ := found'
        obtain ⟨m, hm, ht⟩ := hproper _ _ _ _ hfind
        have hlength : rest.length < (c :: cs).length := by
          have := length_pos_iff.mpr hm
          rw [ht, length_append]
          omega
        rw [ht] at hfind ⊢
        rw [segmentsFrom_of_found hm hfind]
        exact found prev m a rest hm hfind (ih rest.length hlength _ rest rfl)

end

theorem replaceFrom_of_none (h : find prev (c :: cs) = none) :
    replaceFrom find prev (c :: cs) = c :: replaceFrom find (some c) cs := by
  unfold replaceFrom
  rw [segmentsFrom_of_none h]
  rfl

theorem replaceFrom_of_found {r : Text} (hm : m ≠ []) (h : find prev (m ++ rest) = some (r, rest)) :
    replaceFrom find prev (m ++ rest) = r ++ replaceFrom find m.getLast? rest := by
  unfold replaceFrom
  rw [segmentsFrom_of_found hm h]
  rfl

/-- What is passed over character by character. -/
theorem replaceFrom_passedOver : ∀ (m rest : Text) (prev : Option Char),
    (∀ a b, m = a ++ b → b ≠ [] → find (a.getLast?.or prev) (b ++ rest) = none) →
      replaceFrom find prev (m ++ rest) = m ++ replaceFrom find (m.getLast?.or prev) rest
  | [], _, _, _ => rfl
  | c :: m, rest, prev, h => by
    have hhead : find prev (c :: (m ++ rest)) = none := h [] (c :: m) rfl (cons_ne_nil c m)
    rw [cons_append, replaceFrom_of_none hhead, getLast?_cons_or, cons_append,
      replaceFrom_passedOver m rest (some c)]
    intro a b hsplit hb
    have hnext := h (c :: a) b (by rw [hsplit, cons_append]) hb
    rwa [getLast?_cons_or] at hnext

/-- **Replacing, step by step**: a position is passed over, or what is found there is replaced. -/
theorem replaceFrom_induction (hproper : Proper find) {P : Option Char → Text → Text → Prop}
    (nil : ∀ prev, P prev [] []) (passed : ∀ prev c cs, find prev (c :: cs) = none →
      P (some c) cs (replaceFrom find (some c) cs) →
        P prev (c :: cs) (c :: replaceFrom find (some c) cs))
    (found : ∀ prev m r rest, m ≠ [] → find prev (m ++ rest) = some (r, rest) →
      P m.getLast? rest (replaceFrom find m.getLast? rest) →
        P prev (m ++ rest) (r ++ replaceFrom find m.getLast? rest))
    (prev : Option Char) (t : Text) : P prev t (replaceFrom find prev t) :=
  segmentsFrom_induction hproper (P := fun prev t segments => P prev t (segments.flatMap fill))
    nil passed found prev t

/-! ### What is found -/

/-- What the layout of a text has found was found from some position of the text on. -/
theorem exists_of_mem_segmentsFrom {α : Type} {find : Finder α} {found : α} :
    ∀ {prev : Option Char} {skip : ℕ} {t : Text}, .inr found ∈ segmentsFrom find prev skip t →
      ∃ prev' s rest, s <:+ t ∧ find prev' s = some (found, rest)
  | _, _, [], h => by simp [segmentsFrom] at h
  | prev, skip + 1, c :: cs, h => by
    rw [segmentsFrom] at h
    obtain ⟨prev', s, rest, hs, hfind⟩ := exists_of_mem_segmentsFrom h
    exact ⟨prev', s, rest, hs.trans (suffix_cons c cs), hfind⟩
  | prev, 0, c :: cs, h => by
    rw [segmentsFrom] at h
    split at h
    · obtain ⟨prev', s, rest, hs, hfind⟩ :=
        exists_of_mem_segmentsFrom ((mem_cons.mp h).resolve_left (by simp))
      exact ⟨prev', s, rest, hs.trans (suffix_cons c cs), hfind⟩
    · next found' rest hfind =>
      rcases mem_cons.mp h with heq | h
      · obtain rfl := Sum.inr.inj heq
        exact ⟨prev, c :: cs, rest, suffix_rfl, hfind⟩
      · obtain ⟨prev', s, rest, hs, hfind⟩ := exists_of_mem_segmentsFrom h
        exact ⟨prev', s, rest, hs.trans (suffix_cons c cs), hfind⟩

/-! ### The characters of the result -/

/-- A character of the result stood in the text, or belongs to a replacement for something that was
found in it. -/
theorem mem_replaceFrom (hproper : Proper find) (prev : Option Char) (t : Text) :
    c ∈ replaceFrom find prev t →
      c ∈ t ∨ ∃ prev' s r rest, s <:+ t ∧ find prev' s = some (r, rest) ∧ c ∈ r := by
  refine replaceFrom_induction hproper (P := fun _ t out => c ∈ out → c ∈ t ∨
    ∃ prev' s r rest, s <:+ t ∧ find prev' s = some (r, rest) ∧ c ∈ r) ?_ ?_ ?_ prev t
  · intro prev hc
    exact .inl hc
  · intro prev d ds _ ih hc
    rcases mem_cons.mp hc with rfl | hc
    · exact .inl mem_cons_self
    · rcases ih hc with hin | ⟨prev', s, r, rest, hs, hfound⟩
      · exact .inl (mem_cons_of_mem d hin)
      · exact .inr ⟨prev', s, r, rest, hs.trans (suffix_cons d ds), hfound⟩
  · intro prev m r rest _ hfind ih hc
    rcases mem_append.mp hc with hc | hc
    · exact .inr ⟨prev, m ++ rest, r, rest, suffix_rfl, hfind, hc⟩
    · rcases ih hc with hin | ⟨prev', s, r', rest', hs, hfound⟩
      · exact .inl (mem_append_right m hin)
      · exact .inr ⟨prev', s, r', rest', hs.trans (suffix_append m rest), hfound⟩

/-- A character that no replacement brings in stood in the text. -/
theorem mem_of_mem_replaceAll (hproper : Proper find)
    (hfound : ∀ prev s r rest, find prev s = some (r, rest) → c ∈ r → c ∈ s) {t : Text}
    (h : c ∈ replaceAll find t) : c ∈ t := by
  rcases mem_replaceFrom hproper none t h with hin | ⟨prev, s, r, rest, hs, hfind, hr⟩
  · exact hin
  · exact hs.subset (hfound prev s r rest hfind hr)

/-- A text that is not blank does not become so. -/
theorem isBlank_replaceFrom (hproper : Proper find)
    (hfound : ∀ prev t r rest, find prev t = some (r, rest) → isBlank r = false)
    (prev : Option Char) (t : Text) :
    isBlank t = false → isBlank (replaceFrom find prev t) = false := by
  refine replaceFrom_induction hproper (P := fun _ t out => isBlank t = false →
    isBlank out = false) ?_ ?_ ?_ prev t
  · intro prev h
    exact h
  · intro prev d ds _ ih h
    rw [isBlank_cons, Bool.and_eq_false_iff] at h ⊢
    exact h.imp_right ih
  · intro prev m r rest _ hfind _ _
    rw [isBlank_append, hfound _ _ _ _ hfind, Bool.false_and]

/-! ### Parts of a text -/

/-- **The parts of a text are replaced on their own**, if from no position of the first part anything
is found that is not found in the first part alone. -/
theorem replaceFrom_append (hproper : Proper find) {x z : Text}
    (hcut : ∀ x', x' <:+ x → x' ≠ [] → ∀ prev,
      find prev (x' ++ z) = (find prev x').map fun found => (found.1, found.2 ++ z))
    (prev : Option Char) :
    replaceFrom find prev (x ++ z) =
      replaceFrom find prev x ++ replaceFrom find (x.getLast?.or prev) z := by
  refine replaceFrom_induction hproper (P := fun prev y out => y <:+ x →
    replaceFrom find prev (y ++ z) = out ++ replaceFrom find (y.getLast?.or prev) z)
    ?_ ?_ ?_ prev x suffix_rfl
  · intro prev _
    rfl
  · intro prev c cs hfind ih hsuffix
    have hnone : find prev (c :: cs ++ z) = none := by
      rw [hcut _ hsuffix (cons_ne_nil c cs), hfind]
      rfl
    rw [cons_append] at hnone
    rw [cons_append, replaceFrom_of_none hnone, ih ((suffix_cons c cs).trans hsuffix),
      getLast?_cons_or, cons_append]
  · intro prev m r rest hm hfind ih hsuffix
    have hne : m ++ rest ≠ [] := by simp [hm]
    have hsome : find prev (m ++ (rest ++ z)) = some (r, rest ++ z) := by
      rw [← append_assoc, hcut _ hsuffix hne, hfind]
      rfl
    have hlast : (m ++ rest).getLast?.or prev = rest.getLast?.or m.getLast? := by
      rw [getLast?_append, Option.or_assoc]
      obtain ⟨d, hd⟩ := ne_none_iff_exists'.mp (mt getLast?_eq_none_iff.mp hm)
      rw [hd, some_or]
    rw [append_assoc, replaceFrom_of_found hm hsome,
      ih ((suffix_append m rest).trans hsuffix), hlast, append_assoc]

/-! ### Texts that are left alone -/

/-- The finder asks for one of the words, and of the character before them it only matters whether it
leaves room for a word to start. -/
structure AsksFor (find : Finder Text) (words : List Text) : Prop where
  word : ∀ prev t found, find prev t = some found → ∃ w ∈ words, ∃ rest, keyword? w t = some rest
  blind : ∀ prev prev' t, atWordStart prev = atWordStart prev' → find prev t = find prev' t

/-- No word can start in the text, whatever follows the text. -/
def avoids (words : List Text) : Text → Bool
  | [] => true
  | c :: cs => words.all (differ · (c :: cs)) && avoids words cs

theorem differ_of_isPrefix : ∀ {start k s : Text}, start <+: k → differ start s →
    differ k s
  | [], _, _, _, h => by simp [differ] at h
  | _ :: _, _, [], _, h => by simp [differ] at h
  | a :: start, k, b :: s, hk, h => by
    obtain ⟨rest, rfl⟩ := hk
    rw [differ, Bool.or_eq_true] at h
    rw [cons_append, differ, Bool.or_eq_true]
    exact h.imp id (differ_of_isPrefix (prefix_append start rest))

/-- The starts of words are enough. -/
theorem avoids_of_starts {starts words : List Text}
    (hwords : ∀ word ∈ words, ∃ start ∈ starts, start <+: word) : ∀ {s : Text},
    avoids starts s → avoids words s
  | [], _ => rfl
  | c :: cs, h => by
    rw [avoids, Bool.and_eq_true, List.all_eq_true] at h ⊢
    refine ⟨fun word hword => ?_, avoids_of_starts hwords h.2⟩
    obtain ⟨start, hstart, hisPrefix⟩ := hwords word hword
    exact differ_of_isPrefix hisPrefix (h.1 start hstart)

theorem keyword?_append_of_differ {k s : Text} (h : differ k s) (t : Text) :
    keyword? k (s ++ t) = none := by
  induction k generalizing s with
  | nil => simp [differ] at h
  | cons a as ih =>
    rcases s with _ | ⟨c, cs⟩
    · simp [differ] at h
    · rw [cons_append, keyword?]
      split_ifs with hsame
      · simp only [differ, hsame, Bool.not_true, Bool.false_or] at h
        exact ih h
      · rfl

theorem replaceFrom_passed {words : List Text} (h : AsksFor find words) : ∀ (s : Text),
    avoids words s → ∀ (prev : Option Char) (t : Text),
      replaceFrom find prev (s ++ t) = s ++ replaceFrom find (s.getLast?.or prev) t
  | [], _, _, _ => rfl
  | c :: cs, havoids, prev, t => by
    simp only [avoids, Bool.and_eq_true, List.all_eq_true] at havoids
    have hnone : find prev (c :: (cs ++ t)) = none := by
      cases hfind : find prev (c :: (cs ++ t)) with
      | none => rfl
      | some found =>
        obtain ⟨w, hw, rest, hrest⟩ := h.word _ _ _ hfind
        rw [← cons_append, keyword?_append_of_differ (havoids.1 w hw)] at hrest
        cases hrest
    rw [cons_append, replaceFrom_of_none hnone, replaceFrom_passed h cs havoids.2,
      getLast?_cons_or, cons_append]

theorem replaceFrom_blind {words : List Text} (h : AsksFor find words) {prev' : Option Char}
    (hprev : atWordStart prev = atWordStart prev') (t : Text) :
    replaceFrom find prev t = replaceFrom find prev' t := by
  cases t with
  | nil => rfl
  | cons c cs =>
    unfold replaceFrom
    rw [segmentsFrom, segmentsFrom, h.blind _ _ _ hprev]

/-- The first letter of the word is no blank. -/
def isVisible (word : Text) : Bool := word.head?.any fun c => !SqlRoutine.isBlank (letterKey c)

theorem avoids_indent {words : List Text} (hwords : words.all isVisible) {s : Text} :
    ∀ {b : Text}, isBlank b → avoids words s → avoids words (b ++ s)
  | [], _, h => h
  | c :: b, hb, h => by
    rw [isBlank_cons, Bool.and_eq_true] at hb
    rw [cons_append, avoids, avoids_indent hwords hb.2 h, Bool.and_true, List.all_eq_true]
    intro word hword
    have hvisible := List.all_eq_true.mp hwords word hword
    cases word with
    | nil => cases hvisible
    | cons d ds =>
      have hletter : sameLetter d c = false :=
        sameLetter_blank (by simpa [isVisible] using hvisible) hb.1
      simp only [differ, hletter, Bool.not_false, Bool.true_or]

/-- The words that the finder asks for cannot start in the text, whatever follows the text. -/
def Ignores (find : Finder Text) (s : Text) : Prop :=
  ∃ words, AsksFor find words ∧ words.all isVisible ∧ avoids words s

variable {b s : Text}

/-- **A start that is ignored is kept**, after an indentation, if the rest starts a new word. -/
theorem replaceAll_passed (h : Ignores find s) (hb : isBlank b)
    (hend : s.getLast?.any isWord = false) (t : Text) :
    replaceAll find (b ++ s ++ t) = b ++ s ++ replaceAll find t := by
  obtain ⟨words, hasks, hwords, hs⟩ := h
  have hlast : atWordStart ((b ++ s).getLast?.or none) = atWordStart none := by
    rw [or_none, getLast?_append]
    cases hs : s.getLast? with
    | some c =>
      rw [hs, any_some] at hend
      simp [atWordStart, hend]
    | none =>
      cases hc : b.getLast? with
      | none => rfl
      | some c =>
        have hblank := isBlank_eq_true_iff.mp hb c (mem_of_getLast? hc)
        simp [atWordStart, isWord_blank hblank]
  rw [replaceAll_eq, replaceFrom_passed hasks _ (avoids_indent hwords hb hs),
    replaceFrom_blind hasks hlast]
  rfl

/-- The same for finders that are applied one after the other. -/
theorem foldl_passed {α : Type} {finder : α → Finder Text} (hb : isBlank b)
    (hend : s.getLast?.any isWord = false) : ∀ {l : List α}, (∀ a ∈ l, Ignores (finder a) s) →
      ∀ t, l.foldl (fun t a => replaceAll (finder a) t) (b ++ s ++ t) =
        b ++ s ++ l.foldl (fun t a => replaceAll (finder a) t) t
  | [], _, _ => rfl
  | a :: l, h, t => by
    rw [foldl_cons, foldl_cons, replaceAll_passed (h a mem_cons_self) hb hend]
    exact foldl_passed hb hend (fun a' ha' => h a' (mem_cons_of_mem a ha')) _

/-- **A text that is ignored is left alone**, after an indentation. -/
theorem replaceAll_ignored (h : Ignores find s) (hb : isBlank b) :
    replaceAll find (b ++ s) = b ++ s := by
  obtain ⟨words, hasks, hwords, hs⟩ := h
  have hpassed := replaceFrom_passed hasks _ (avoids_indent hwords hb hs) none []
  rwa [replaceFrom_nil, append_nil, ← replaceAll_eq] at hpassed

end SqlRoutine.Text

import SqlRoutine.Proofs.Expression.Trailer

/-! # Openings

An **opening** reads the start of a statement. It stops before every trailer, and what it leaves is an
end of the text, so what it reads of a line does not depend on what follows the code. Openings are put
together from keywords, signs, blanks and variables. -/

namespace SqlRoutine.Text

open List Option

variable {word : Text} {a b next : Text → Option Text} {α : Type}

/-! ### Openings -/

/-- **An opening** reads the start of a statement: it stops before every trailer, and what it leaves is
an end of the text. -/
structure Opening (scan : Text → Option Text) : Prop where
  stops : ∀ {z}, isTrailer z → Stops z scan
  suffix : ∀ {t rest}, scan t = some rest → rest <:+ t

/-- The same for a scanner that returns something else too. -/
structure OpeningWith {α : Type} (scan : Text → Option (α × Text)) : Prop where
  stops : ∀ {z}, isTrailer z → StopsWith z scan
  suffix : ∀ {t found}, scan t = some found → found.2 <:+ t

theorem opening_keyword? (h : avoidsParting word) : Opening (keyword? word) where
  stops hz := stops_keyword? hz h
  suffix hread := by
    obtain ⟨m, -, rfl⟩ := keyword?_eq_some_iff.mp hread
    exact suffix_append m _

theorem opening_word? (h : avoidsParting word) : Opening (word? word) where
  stops hz := stops_word? hz h
  suffix hread := by
    obtain ⟨rest, hkeyword, hend⟩ := bind_eq_some_iff.mp hread
    split_ifs at hend
    cases hend
    exact (opening_keyword? h).suffix hkeyword

theorem opening_anyKeyword? {words : List Text} (h : words.all avoidsParting) :
    Opening (anyKeyword? words) where
  stops hz := Stops.findSome? fun word hword => stops_keyword? hz (List.all_eq_true.mp h word hword)
  suffix hread := by
    obtain ⟨word, hword, hread⟩ := exists_of_findSome?_eq_some hread
    exact (opening_keyword? (List.all_eq_true.mp h word hword)).suffix hread

theorem opening_sign {c : Char} (hc : isStop c = false) : Opening fun t => char? c t.trimStart where
  stops hz := stops_sign hz hc
  suffix {t rest} hread := by
    have hcons : t.trimStart = c :: rest := char?_eq_some_iff.mp hread
    exact (suffix_cons c rest).trans (hcons ▸ dropWhile_suffix _)

theorem openingWith_atName? : OpeningWith atName? where
  stops hz := stopsWith_atName? hz
  suffix {t found} hread := by
    obtain ⟨name, rest⟩ := found
    obtain ⟨rfl, -⟩ := atName?_spec hread
    exact (suffix_append name rest).trans (suffix_cons '@' _)

theorem Opening.bind (ha : Opening a) (hb : Opening b) :
    Opening fun t => (a t).bind b where
  stops hz := (ha.stops hz).bind (hb.stops hz)
  suffix hread := by
    obtain ⟨rest, hrest, hread⟩ := bind_eq_some_iff.mp hread
    exact (hb.suffix hread).trans (ha.suffix hrest)

theorem Opening.bindWith {b : Text → Option (α × Text)}
    (ha : Opening a) (hb : OpeningWith b) : OpeningWith fun t => (a t).bind b where
  stops hz := (ha.stops hz).bindWith (hb.stops hz)
  suffix hread := by
    obtain ⟨rest, hrest, hread⟩ := bind_eq_some_iff.mp hread
    exact (hb.suffix hread).trans (ha.suffix hrest)

theorem OpeningWith.thenOpening {a : Text → Option (α × Text)} (ha : OpeningWith a) (hb : Opening b) :
    OpeningWith fun t => (a t).bind fun found => (b found.2).map (found.1, ·) where
  stops {z} hz := (ha.stops hz).bind (b := fun x rest => (b rest).map (x, ·)) fun x rest => by
    dsimp only
    rw [hb.stops hz rest]
    cases b rest <;> rfl
  suffix hread := by
    obtain ⟨found, hfound, hread⟩ := bind_eq_some_iff.mp hread
    obtain ⟨rest, hrest, rfl⟩ := map_eq_some_iff.mp hread
    exact (hb.suffix hrest).trans (ha.suffix hfound)

/-! ### Blanks -/

/-- A run that ends in a text does not depend on what follows the text. -/
theorem run_within {P : Char → Bool} {t : Text} (h : t.dropWhile P ≠ []) (z : Text) :
    (t ++ z).takeWhile P = t.takeWhile P ∧ (t ++ z).dropWhile P = t.dropWhile P ++ z := by
  induction t with
  | nil => exact absurd rfl h
  | cons c t ih =>
    by_cases hc : P c
    · rw [dropWhile_cons_of_pos hc] at h
      rw [cons_append, takeWhile_cons_of_pos hc, takeWhile_cons_of_pos hc,
        dropWhile_cons_of_pos hc, dropWhile_cons_of_pos hc, (ih h).1, (ih h).2]
      exact ⟨rfl, rfl⟩
    · rw [cons_append, takeWhile_cons_of_neg hc, takeWhile_cons_of_neg hc,
        dropWhile_cons_of_neg hc, dropWhile_cons_of_neg hc]
      exact ⟨rfl, rfl⟩

/-- Nothing is read where a trailer starts. -/
def FailsAtTrailer {α : Type} (scan : Text → Option α) : Prop :=
  ∀ t, (t.head?.all fun c => c == ';' || c == '-') → scan t = none

/-- What is read after blanks is read after the blanks of the text alone, if it cannot be read from a
trailer. -/
theorem blanks?_bind_append {next : Text → Option α} (hnext : FailsAtTrailer next) (t : Text) :
    (∀ z, isTrailer z → (blanks? (t ++ z)).bind next = none) ∨
      ∃ u, u <:+ t ∧ isBlank u = false ∧ ∀ z, blanks? (t ++ z) = some (u ++ z) := by
  cases t with
  | nil =>
    refine .inl fun z hz => ?_
    cases z with
    | nil => rfl
    | cons c z =>
      rw [nil_append, blanks?]
      split_ifs with hc
      · have htrim : trimStart z = trimStart (c :: z) := by
          rw [trimStart, trimStart, dropWhile_cons_of_pos hc]
        rw [bind_some, htrim]
        exact hnext _ hz
      · rfl
  | cons c t =>
    have hread : ∀ z, blanks? (c :: t ++ z) =
        if SqlRoutine.isBlank c then some (trimStart (t ++ z)) else none := fun _ => rfl
    by_cases hc : SqlRoutine.isBlank c
    · simp only [hread, if_pos hc]
      cases hblank : isBlank t with
      | true =>
        refine .inl fun z hz => ?_
        rw [trimStart_append hblank]
        exact hnext _ hz
      | false =>
        refine .inr ⟨trimStart t, (dropWhile_suffix _).trans (suffix_cons c t), ?_, fun z => ?_⟩
        · rw [isBlank_trimStart, hblank]
        · rw [(indent_and_trimStart_append hblank z).2]
    · refine .inl fun z _ => ?_
      rw [hread, if_neg hc]
      rfl

/-- What is added to a text by `extend` is added to what is read after blanks. -/
theorem blanks?_bind_stops {next : Text → Option α} (hnext : FailsAtTrailer next) {z : Text}
    (hz : isTrailer z) {extend : α → α} (h : ∀ u, next (u ++ z) = (next u).map extend) (t : Text) :
    (blanks? (t ++ z)).bind next = ((blanks? t).bind next).map extend := by
  rcases blanks?_bind_append hnext t with hnone | ⟨u, -, -, hu⟩
  · have ht := hnone [] rfl
    rw [append_nil] at ht
    rw [hnone z hz, ht]
    rfl
  · have ht := hu []
    rw [append_nil, append_nil] at ht
    rw [hu z, ht, bind_some, bind_some]
    exact h u

theorem blanks?_bind_suffix {next : Text → Option α} {x : α} {t : Text}
    (h : (blanks? t).bind next = some x) : ∃ u, u <:+ t ∧ next u = some x := by
  obtain ⟨u, hu, hx⟩ := bind_eq_some_iff.mp h
  exact ⟨u, suffix_of_blanks? hu, hx⟩

theorem Opening.afterBlanks (h : Opening next)
    (hfails : FailsAtTrailer next) : Opening fun t => (blanks? t).bind next where
  stops hz := blanks?_bind_stops hfails hz (h.stops hz)
  suffix hread := by
    obtain ⟨u, hu, hrest⟩ := blanks?_bind_suffix hread
    exact (h.suffix hrest).trans hu

theorem OpeningWith.afterBlanks {next : Text → Option (α × Text)} (h : OpeningWith next)
    (hfails : FailsAtTrailer next) : OpeningWith fun t => (blanks? t).bind next where
  stops hz := blanks?_bind_stops hfails hz (h.stops hz)
  suffix hread := by
    obtain ⟨u, hu, hfound⟩ := blanks?_bind_suffix hread
    exact (h.suffix hfound).trans hu

theorem Opening.trimmed (h : Opening next) (hfails : FailsAtTrailer next) :
    Opening fun t => next t.trimStart where
  stops {z} hz t := by
    dsimp only
    cases hblank : isBlank t with
    | true =>
      rw [trimStart_append hblank, trimStart_of_isBlank hblank, hfails _ hz, hfails [] rfl]
      rfl
    | false =>
      rw [(indent_and_trimStart_append hblank z).2]
      exact h.stops hz _
  suffix hread := (h.suffix hread).trans (dropWhile_suffix _)

theorem failsAtTrailer_atName? : FailsAtTrailer atName? := by
  intro t ht
  cases t with
  | nil => rfl
  | cons c t =>
    have hc : c ≠ '@' := by
      rintro rfl
      cases ht
    rw [atName?, char?, if_neg hc]
    rfl

theorem failsAtTrailer_keyword? (hne : word ≠ []) (hword : avoidsParting word) :
    FailsAtTrailer (keyword? word) := by
  intro t ht
  obtain ⟨k, ks, rfl⟩ := exists_cons_of_ne_nil hne
  rw [avoidsParting, all_cons, Bool.and_eq_true, Bool.not_eq_true'] at hword
  cases t with
  | nil => rfl
  | cons c t =>
    have hc : isStop c := by
      rw [head?_cons, all_some] at ht
      rw [isStop, ht, Bool.true_or]
    rw [keyword?, sameLetter_of_isParting hword.1 (isParting_of_isStop hc)]
    rfl

theorem FailsAtTrailer.bind {β : Type} {scan : Text → Option α} (h : FailsAtTrailer scan)
    (next : α → Option β) : FailsAtTrailer fun t => (scan t).bind next := by
  intro t ht
  dsimp only
  rw [h t ht]
  rfl

end SqlRoutine.Text

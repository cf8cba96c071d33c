import SqlRoutine.Proofs.Text.Substitution

/-! # Scanners that stop

A scanner **stops** before a text if it reads from a text with it what it reads from the text alone. The
parts of a line are set apart by commas, equals signs, semicolons, dashes and blanks (`Parting`). A
substitution whose scanner stops there (`Substitution.Local`) replaces in each part on its own
(`Substitution.applyAll_parting`). -/

namespace SqlRoutine.Text

open List

variable {c : Char} {P : Char → Bool} {ss : List Substitution} {word : Text} {a : Text → Option Text}
  {α β : Type}

/-! ### Scanners that stop -/

/-- The scanner stops before `z`. -/
def Stops (z : Text) (scan : Text → Option Text) : Prop := ∀ t, scan (t ++ z) = (scan t).map (· ++ z)

/-- The same for a scanner that returns something else too. -/
def StopsWith {α : Type} (z : Text) (scan : Text → Option (α × Text)) : Prop :=
  ∀ t, scan (t ++ z) = (scan t).map fun found => (found.1, found.2 ++ z)

section

variable {z : Text}

theorem Stops.bind {b : Text → Option Text} (ha : Stops z a) (hb : Stops z b) :
    Stops z fun t => (a t).bind b := by
  intro t
  dsimp only
  rw [ha t]
  cases a t with
  | none => rfl
  | some rest => exact hb rest

theorem Stops.bindWith {b : Text → Option (α × Text)}
    (ha : Stops z a) (hb : StopsWith z b) : StopsWith z fun t => (a t).bind b := by
  intro t
  dsimp only
  rw [ha t]
  cases a t with
  | none => rfl
  | some rest => exact hb rest

theorem StopsWith.bind {a : Text → Option (α × Text)} {b : α → Text → Option (β × Text)}
    (ha : StopsWith z a) (hb : ∀ x, StopsWith z (b x)) :
    StopsWith z fun t => (a t).bind fun found => b found.1 found.2 := by
  intro t
  dsimp only
  rw [ha t]
  cases a t with
  | none => rfl
  | some found => exact hb found.1 found.2

theorem StopsWith.map {a : Text → Option (α × Text)} (ha : StopsWith z a) (f : α → β) :
    StopsWith z fun t => (a t).map fun found => (f found.1, found.2) := by
  intro t
  dsimp only
  rw [ha t]
  cases a t <;> rfl

theorem Stops.findSome? {α : Type} {scan : α → Text → Option Text} :
    ∀ {l : List α}, (∀ a ∈ l, Stops z (scan a)) → Stops z fun t => l.findSome? (scan · t)
  | [], _ => fun _ => rfl
  | a :: l, h => by
    intro t
    have hl := Stops.findSome? (fun b hb => h b (mem_cons_of_mem a hb)) t
    dsimp only at hl ⊢
    rw [findSome?_cons, findSome?_cons, h a mem_cons_self t]
    cases scan a t with
    | none => exact hl
    | some rest => rfl

theorem stops_keyword?_of_head
    (hword : ∀ k ∈ word, ∀ c, z.head? = some c → sameLetter k c = false) : Stops z (keyword? word) := by
  induction word with
  | nil => exact fun _ => rfl
  | cons k ks ih =>
    intro t
    cases t with
    | nil =>
      cases z with
      | nil => rfl
      | cons c z =>
        simp only [nil_append, keyword?, hword k mem_cons_self c rfl, Bool.false_eq_true,
          if_false, Option.map_none]
    | cons c cs =>
      rw [cons_append, keyword?, keyword?]
      split_ifs
      · exact ih (fun k hk => hword k (mem_cons_of_mem _ hk)) cs
      · rfl

theorem stops_wordEnd_of_head (hz : z.head?.all (fun c => !isWord c)) :
    Stops z fun t => if atWordEnd t then some t else none := by
  intro t
  have hend : atWordEnd (t ++ z) = atWordEnd t := by
    cases t with
    | cons c t => rfl
    | nil =>
      cases z with
      | nil => rfl
      | cons c z => exact hz
  dsimp only
  rw [hend]
  split_ifs <;> rfl

theorem stops_sign_of_head (hz : z.trimStart.head? ≠ some c) :
    Stops z fun t => char? c t.trimStart := by
  intro t
  dsimp only
  induction t with
  | nil =>
    rw [nil_append]
    cases h : z.trimStart with
    | nil => rfl
    | cons d ds =>
      have hne : d ≠ c := by
        rintro rfl
        rw [h] at hz
        exact hz rfl
      rw [char?, if_neg hne]
      rfl
  | cons d t ih =>
    rw [cons_append]
    by_cases hd : SqlRoutine.isBlank d
    · rw [trimStart, trimStart, dropWhile_cons_of_pos hd, dropWhile_cons_of_pos hd]
      exact ih
    · rw [trimStart_of_head (Bool.eq_false_iff.mpr hd), trimStart_of_head (Bool.eq_false_iff.mpr hd),
        char?, char?]
      split_ifs <;> rfl

theorem run_class (hP : z.head?.all (fun c => !P c)) (t : Text) :
    (t ++ z).takeWhile P = t.takeWhile P ∧ (t ++ z).dropWhile P = t.dropWhile P ++ z := by
  induction t with
  | nil => exact run_append (x := []) rfl hP
  | cons c t ih =>
    rw [cons_append, takeWhile_cons, takeWhile_cons, dropWhile_cons,
      dropWhile_cons]
    split_ifs
    · rw [ih.1, ih.2]
      exact ⟨rfl, rfl⟩
    · exact ⟨rfl, rfl⟩

end

/-! ### What sets parts apart -/

/-- The signs that set parts apart. -/
def partingSigns : List Char := [',', '=', ';', '-']

/-- A character that sets parts apart. -/
def isParting (c : Char) : Bool := partingSigns.contains c || SqlRoutine.isBlank c

/-- No call and no length goes on with the character. -/
def isOutside (c : Char) : Bool := c != '(' && c != ')' && !isDecimal c && letterKey c != 'm'

/-- **The text is set apart** from what stands before it. -/
structure Parting (z : Text) : Prop where
  head : z.head?.all isParting
  visible : z.trimStart.head?.all isOutside

theorem isParting_spec (h : isParting c) :
    isWord c = false ∧ letterKey c = c ∧ isDecimal c = false := by
  have hsigns : partingSigns.all (fun d => !isWord d && (letterKey d == d && !isDecimal d)) := by decide
  rcases Bool.or_eq_true_iff.mp h with hsign | hblank
  · simpa using all_eq_true.mp hsigns c (contains_iff_mem.mp hsign)
  · exact ⟨isWord_blank hblank, letterKey_blank hblank, isDecimal_blank hblank⟩

/-- No letter of the word sets parts apart. -/
def avoidsParting (word : Text) : Bool := word.all fun c => !isParting (letterKey c)

theorem sameLetter_of_isParting {k : Char} (hk : isParting (letterKey k) = false)
    (hc : isParting c) : sameLetter k c = false := by
  rw [← Bool.not_eq_true, sameLetter_iff, (isParting_spec hc).2.1]
  rintro rfl
  rw [hk] at hc
  cases hc

section

variable {z : Text} (hz : Parting z)
include hz

theorem Parting.wordEnd : z.head?.all (fun c => !isWord c) := by
  cases z with
  | nil => rfl
  | cons c z => simp [(isParting_spec hz.head).1]

theorem Parting.stops_keyword? (hword : avoidsParting word) : Stops z (keyword? word) := by
  refine stops_keyword?_of_head fun k hk c hc => ?_
  have hparting := hz.head
  rw [hc] at hparting
  exact sameLetter_of_isParting (by simpa using all_eq_true.mp hword k hk) hparting

theorem Parting.stops_sign (hc : isOutside c = false) : Stops z fun t => char? c t.trimStart := by
  refine stops_sign_of_head fun hhead => ?_
  have hvisible := hz.visible
  rw [hhead, Option.all_some, hc] at hvisible
  cases hvisible

end

namespace Substitution

variable {s : Substitution} {prev : Option Char} {t x z : Text}

/-! ### Names in a text -/

section

variable (hs : s.Named)
include hs

theorem Named.finder_of_not_initial (hc : isInitial c = false) (prev : Option Char) (t : Text) :
    s.finder prev (c :: t) = none := by
  cases hfind : s.finder prev (c :: t) with
  | none => rfl
  | some found =>
    obtain ⟨-, hscan, -⟩ := finder_eq_some_iff.mp hfind
    obtain ⟨d, m, heq, hinitial, -⟩ := hs.reads _ _ hscan
    rw [(List.cons.inj heq).1, hinitial] at hc
    cases hc

/-- What does not start with a word is replaced the same way after every character. -/
theorem Named.replaceFrom_blind (hz : z.head?.all (fun c => !isWord c)) (prev : Option Char) :
    replaceFrom s.finder prev z = replaceAll s.finder z ∧ (replaceAll s.finder z).head? = z.head? := by
  cases z with
  | nil => exact ⟨rfl, rfl⟩
  | cons c z =>
    have hword : isWord c = false := by simpa using hz
    have hc : isInitial c = false := by rw [isInitial, hword, Bool.false_and]
    rw [replaceAll_eq, replaceFrom_of_none (hs.finder_of_not_initial hc prev z),
      replaceFrom_of_none (hs.finder_of_not_initial hc none z)]
    exact ⟨rfl, rfl⟩

/-- **The parts of a text are replaced on their own**, if nothing is read across the cut. -/
theorem Named.replaceAll_cut (hz : z.head?.all (fun c => !isWord c))
    (hcut : ∀ x', x' <:+ x → s.scan (x' ++ z) = (s.scan x').map (· ++ z)) :
    replaceAll s.finder (x ++ z) = replaceAll s.finder x ++ replaceAll s.finder z := by
  have hfinder (x' : Text) (hsuffix : x' <:+ x) (prev : Option Char) : s.finder prev (x' ++ z) =
      (s.finder prev x').map fun found => (found.1, found.2 ++ z) := by
    unfold finder
    rw [hcut x' hsuffix]
    split_ifs
    · cases s.scan x' <;> rfl
    · rfl
  have happend := replaceFrom_append hs.proper (fun x' hsuffix _ => hfinder x' hsuffix) none
  rwa [(hs.replaceFrom_blind hz _).1] at happend

theorem Named.replaceAll_passed (hx : ∀ c ∈ x, isWord c = false) (t : Text) :
    replaceAll s.finder (x ++ t) = x ++ replaceAll s.finder t := by
  have hpassed : replaceFrom s.finder none (x ++ t) = x ++ replaceFrom s.finder (x.getLast?.or none) t := by
    refine replaceFrom_passedOver x t none fun a b hsplit hb => ?_
    obtain ⟨c, b, rfl⟩ := exists_cons_of_ne_nil hb
    refine hs.finder_of_not_initial ?_ _ _
    rw [isInitial, hx c (by simp [hsplit]), Bool.false_and]
  have hend : atWordStart x.getLast? := by
    cases h : x.getLast? with
    | none => rfl
    | some c => simp [atWordStart, hx c (mem_of_getLast? h)]
  -- of the character before, only that a word may start matters
  have hroom : replaceFrom s.finder x.getLast? t = replaceAll s.finder t := by
    have hfinder (t : Text) : s.finder x.getLast? t = s.finder none t := by
      unfold finder
      rw [hend]
      rfl
    cases t with
    | nil => rfl
    | cons c t => rw [replaceAll_eq, replaceFrom, replaceFrom, segmentsFrom, segmentsFrom, hfinder]
  rwa [Option.or_none, hroom] at hpassed

/-- The first visible character is the one that was there, or that of the replacement. -/
theorem Named.visible_replaceAll (z : Text) :
    (replaceAll s.finder z).trimStart.head? = z.trimStart.head? ∨
      (replaceAll s.finder z).trimStart.head? = s.replacement.head? := by
  obtain ⟨prev, -, hdrop⟩ := hs.run_replaceFrom (fun _ => not_blank_of_isInitial) none z
  have hvisible : (replaceAll s.finder z).trimStart = replaceFrom s.finder prev z.trimStart := hdrop
  rw [hvisible]
  cases z.trimStart with
  | nil => exact .inl rfl
  | cons c t =>
    rcases hs.replaceFrom_cases prev c t with ⟨-, hpassed⟩ | ⟨-, -, rest, hreplaced⟩
    · rw [hpassed]
      exact .inl rfl
    · obtain ⟨d, r, hr, -⟩ := hs.replacement_eq
      rw [hreplaced, hr]
      exact .inr rfl

/-- **The last character stays in a class** in which the replacement ends. -/
theorem Named.getLast?_replaceAll (hr : s.replacement.getLast?.any P)
    (ht : t.getLast?.any P) : (replaceAll s.finder t).getLast?.any P := by
  have happend {x y : Text} (hy : y.getLast?.any P) : (x ++ y).getLast?.any P := by
    obtain ⟨c, hlast, hc⟩ := (Option.any_eq_true ..).mp hy
    rw [getLast?_append, hlast]
    exact hc
  refine replaceFrom_induction hs.proper (P := fun _ t out => t.getLast?.any P →
    out.getLast?.any P) ?_ ?_ ?_ none t ht
  · exact fun _ h => h
  · intro prev c cs _ ih h
    by_cases hcs : cs = []
    · rwa [hcs] at h ⊢
    · rw [← singleton_append, getLast?_append_of_ne_nil _ hcs] at h
      exact happend (x := [c]) (ih h)
  · intro prev m r rest _ hfind ih h
    obtain ⟨-, -, rfl⟩ := finder_eq_some_iff.mp hfind
    by_cases hrest : rest = []
    · rwa [hrest, replaceFrom_nil, append_nil]
    · rw [getLast?_append_of_ne_nil _ hrest] at h
      exact happend (ih h)

end

/-! ### Local substitutions -/

/-- **A local substitution** puts a name in the place of a name and reads nothing across what sets parts
apart. -/
structure Local (s : Substitution) : Prop where
  named : s.Named
  outside : s.replacement.head?.all isOutside
  stops : ∀ z, Parting z → Stops z s.scan

/-- **What is set apart is replaced on its own**, and stays apart. -/
theorem Local.replaceAll_parting (hs : s.Local) (hz : Parting z) (x : Text) :
    replaceAll s.finder (x ++ z) = replaceAll s.finder x ++ replaceAll s.finder z ∧
      Parting (replaceAll s.finder z) := by
  refine ⟨hs.named.replaceAll_cut hz.wordEnd fun x' _ => hs.stops z hz x', ?_, ?_⟩
  · rw [(hs.named.replaceFrom_blind hz.wordEnd none).2]
    exact hz.head
  · rcases hs.named.visible_replaceAll z with hsame | hnew
    · rw [hsame]
      exact hz.visible
    · rw [hnew]
      exact hs.outside

/-! ### One substitution after the other -/

/-- Applies the substitutions in turn. -/
def applyAll (ss : List Substitution) (t : Text) : Text :=
  ss.foldl (fun t s => replaceAll s.finder t) t

theorem applyAll_cons (s : Substitution) (ss : List Substitution) (t : Text) :
    applyAll (s :: ss) t = applyAll ss (replaceAll s.finder t) := rfl

theorem applyAll_passed (hss : ∀ s ∈ ss, s.Local) (hx : ∀ c ∈ x, isWord c = false) (t : Text) :
    applyAll ss (x ++ t) = x ++ applyAll ss t := by
  induction ss generalizing t with
  | nil => rfl
  | cons s ss ih =>
    obtain ⟨hs, hss⟩ := forall_mem_cons.mp hss
    rw [applyAll_cons, applyAll_cons, hs.named.replaceAll_passed hx, ih hss]

theorem applyAll_parting (hss : ∀ s ∈ ss, s.Local) (x : Text) (hz : Parting z) :
    applyAll ss (x ++ z) = applyAll ss x ++ applyAll ss z := by
  induction ss generalizing x z with
  | nil => rfl
  | cons s ss ih =>
    obtain ⟨hs, hss⟩ := forall_mem_cons.mp hss
    obtain ⟨happend, hparting⟩ := hs.replaceAll_parting hz x
    rw [applyAll_cons, applyAll_cons, applyAll_cons, happend, ih hss _ hparting]

end Substitution

end SqlRoutine.Text

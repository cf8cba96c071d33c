import Mathlib.Data.List.DropRight
import Mathlib.Data.List.TakeWhile
import SqlRoutine.Proofs.Text.Blank
import SqlRoutine.Proofs.Text.Letter
import SqlRoutine.Text.Scan

/-! # What scanners read

A scanner that succeeds has read something off the front: each lemma here says what, and that the
text is what was read followed by what is left. A keyword is read off texts that **spell** it
(`keyword?_eq_some_iff`), so two keywords that differ in some letter do not both fit
(`keyword?_of_differ`). The first keyword of a line, after its indentation, is `opens`. -/

namespace SqlRoutine.Text

open List

variable {c : Char} {b k keyword l line rest t u : Text}

/-! ### Keywords -/

/-- The text has the letters of the keyword, in any form. -/
def Spells (keyword t : Text) : Prop := t.map letterKey = keyword.map letterKey

instance (keyword t : Text) : Decidable (Spells keyword t) :=
  inferInstanceAs (Decidable (_ = _))

theorem keyword?_eq_some_iff :
    keyword? keyword t = some rest ↔ ∃ m, Spells keyword m ∧ t = m ++ rest := by
  unfold Spells
  induction keyword generalizing t with
  | nil => simp [keyword?, eq_comm]
  | cons k ks ih =>
    rcases t with _ | ⟨c, cs⟩
    · simp [keyword?]
    · unfold keyword?
      by_cases hsame : sameLetter k c
      · rw [if_pos hsame, ih]
        have hkey := sameLetter_iff.mp hsame
        constructor
        · rintro ⟨m, hm, rfl⟩
          exact ⟨c :: m, by simp [hm, hkey], rfl⟩
        · rintro ⟨m, hm, hcons⟩
          rcases m with _ | ⟨d, m⟩
          · simp at hm
          · simp only [map_cons, List.cons.injEq] at hm
            simp only [cons_append, List.cons.injEq] at hcons
            exact ⟨m, hm.2, hcons.2⟩
      · rw [if_neg hsame]
        refine ⟨fun h => absurd h (by simp), ?_⟩
        rintro ⟨m, hm, hcons⟩
        rcases m with _ | ⟨d, m⟩
        · simp at hm
        · simp only [map_cons, List.cons.injEq] at hm
          simp only [cons_append, List.cons.injEq] at hcons
          rw [← hcons.1] at hm
          exact absurd (sameLetter_iff.mpr hm.1.symm) hsame

theorem keyword?_append {m : Text} (h : Spells keyword m) (rest : Text) :
    keyword? keyword (m ++ rest) = some rest :=
  keyword?_eq_some_iff.mpr ⟨m, h, rfl⟩

/-- The two keywords differ in some letter, as far as both go. -/
def differ : Text → Text → Bool
  | a :: as, b :: bs => !sameLetter a b || differ as bs
  | _, _ => false

theorem keyword?_of_differ {r : Text} (h : differ k l) (hk : keyword? k t = some r) :
    keyword? l t = none := by
  induction k generalizing l t with
  | nil => simp [differ] at h
  | cons a as ih =>
    rcases l with _ | ⟨b, bs⟩
    · simp [differ] at h
    · rcases t with _ | ⟨c, cs⟩
      · rfl
      · unfold keyword? at hk ⊢
        by_cases hac : sameLetter a c
        · rw [if_pos hac] at hk
          by_cases hbc : sameLetter b c
          · have hab : sameLetter a b := by
              rw [sameLetter_iff] at hac hbc ⊢
              rw [hac, hbc]
            rw [if_pos hbc]
            simp only [differ, hab, Bool.not_true, Bool.false_or] at h
            exact ih h hk
          · rw [if_neg hbc]
        · rw [if_neg hac] at hk
          cases hk

/-- **The line starts with the keyword**, after its indentation. -/
def opens (keyword line : Text) : Bool := (keyword? keyword line.trimStart).isSome

theorem opens_of_keyword? (h : keyword? keyword line.trimStart = some rest) :
    opens keyword line := by
  unfold opens; rw [h]; rfl

/-- **A line does not start with two keywords that differ.** -/
theorem keyword?_of_opens (hk : opens k line) (h : differ k l) :
    keyword? l line.trimStart = none := by
  obtain ⟨r, hr⟩ := Option.isSome_iff_exists.mp hk
  exact keyword?_of_differ h hr

theorem word?_of_opens (hk : opens k line) (h : differ k l) :
    word? l line.trimStart = none := by
  unfold word?; rw [keyword?_of_opens hk h]; rfl

/-! ### Single characters and blanks -/

theorem char?_eq_some_iff : char? c t = some rest ↔ t = c :: rest := by
  rcases t with _ | ⟨d, ds⟩
  · simp [char?]
  · simp only [char?]
    split_ifs with h
    · simp [h]
    · simp [h]

theorem char?_cons_self (c : Char) (t : Text) : char? c (c :: t) = some t :=
  char?_eq_some_iff.mpr rfl

theorem indent_append_trimStart (t : Text) : t.indent ++ t.trimStart = t :=
  takeWhile_append_dropWhile

theorem trimStart_of_head (h : SqlRoutine.isBlank c = false) : trimStart (c :: t) = c :: t := by
  unfold trimStart
  rw [dropWhile_cons_of_neg (by simp [h])]

theorem trimStart_append (hb : isBlank b) (t : Text) : trimStart (b ++ t) = trimStart t := by
  unfold trimStart
  exact dropWhile_append_of_pos fun c hc => isBlank_eq_true_iff.mp hb c hc

theorem trimStart_trimStart (t : Text) : t.trimStart.trimStart = t.trimStart := by
  have h := trimStart_append (b := t.indent) (all_takeWhile ..) t.trimStart
  rw [indent_append_trimStart] at h
  exact h.symm

theorem blanks?_append (hne : b ≠ []) (hb : isBlank b) (t : Text) :
    blanks? (b ++ t) = some t.trimStart := by
  obtain ⟨c, b, rfl⟩ := exists_cons_of_ne_nil hne
  obtain ⟨hc, hb⟩ := Bool.and_eq_true_iff.mp ((isBlank_cons c b).symm.trans hb)
  rw [cons_append, blanks?, if_pos hc, trimStart_append hb]

theorem exists_of_blanks? (h : blanks? t = some u) :
    ∃ b : Text, b ≠ [] ∧ b.isBlank ∧ t = b ++ u ∧ u.trimStart = u := by
  cases t with
  | nil => cases h
  | cons c t =>
    rw [blanks?] at h
    split_ifs at h with hc
    obtain rfl := Option.some.inj h
    refine ⟨c :: indent t, cons_ne_nil c _, ?_, ?_, trimStart_trimStart t⟩
    · rw [isBlank_cons, hc, Bool.true_and]
      exact all_takeWhile
    · rw [cons_append, indent_append_trimStart]

theorem suffix_of_blanks? (h : blanks? t = some u) : u <:+ t := by
  obtain ⟨b, -, -, rfl, -⟩ := exists_of_blanks? h
  exact suffix_append b u

theorem trimEnd_cons (h : SqlRoutine.isBlank c = false) (t : Text) :
    trimEnd (c :: t) = c :: trimEnd t := by
  unfold trimEnd dropEndWhile
  rw [reverse_cons, dropWhile_append]
  split_ifs with hall
  · rw [List.isEmpty_iff] at hall
    rw [hall, dropWhile_cons_of_neg (by simp [h])]
    rfl
  · simp

theorem indent_append (hb : isBlank b)
    (hc : SqlRoutine.isBlank c = false) (t : Text) : indent (b ++ c :: t) = b := by
  unfold indent
  rw [takeWhile_append_of_pos fun d hd => isBlank_eq_true_iff.mp hb d hd,
    takeWhile_cons_of_neg (by simp [hc]), append_nil]

theorem exists_visible (h : isBlank t = false) :
    ∃ b c u, isBlank b ∧ SqlRoutine.isBlank c = false ∧ t = b ++ c :: u := by
  induction t with
  | nil => cases h
  | cons c t ih =>
    cases hc : SqlRoutine.isBlank c with
    | false => exact ⟨[], c, t, rfl, hc, rfl⟩
    | true =>
      rw [isBlank_cons, hc, Bool.true_and] at h
      obtain ⟨b, d, u, hb, hd, rfl⟩ := ih h
      exact ⟨c :: b, d, u, by rw [isBlank_cons, hc, hb]; rfl, hd, rfl⟩

theorem indent_and_trimStart_append (h : isBlank t = false) (z : Text) :
    indent (t ++ z) = indent t ∧ trimStart (t ++ z) = trimStart t ++ z := by
  obtain ⟨b, c, u, hb, hc, rfl⟩ := exists_visible h
  rw [append_assoc, cons_append, indent_append hb hc, indent_append hb hc,
    trimStart_append hb, trimStart_append hb, trimStart_of_head hc, trimStart_of_head hc]
  exact ⟨rfl, rfl⟩

theorem trim_trimStart (t : Text) : trim t.trimStart = trim t := by
  unfold trim
  rw [trimStart_trimStart]

theorem trimStart_of_isBlank (h : isBlank t) : t.trimStart = [] :=
  dropWhile_eq_nil_iff.mpr (isBlank_eq_true_iff.mp h)

theorem trim_of_isBlank (h : isBlank t) : t.trim = [] := by
  rw [trim, trimStart_of_isBlank h]
  rfl

theorem isBlank_of_trimStart (h : t.trimStart = c :: u) : SqlRoutine.isBlank c = false := by
  have hhead := head?_dropWhile_not SqlRoutine.isBlank t
  unfold trimStart at h
  rw [h] at hhead
  simpa using hhead

theorem trimEnd_isPrefix (t : Text) : t.trimEnd <+: t := rdropWhile_prefix ..

theorem head_of_trim (h : t.trim = c :: u) : ∃ v, t.trimStart = c :: v := by
  obtain ⟨v, hv⟩ := trimEnd_isPrefix t.trimStart
  exact ⟨u ++ v, by rw [← hv, ← trim, h, cons_append]⟩

/-- A sign is read after blanks. -/
theorem char?_trimStart_eq_some_iff (hc : SqlRoutine.isBlank c = false) :
    char? c t.trimStart = some rest ↔ ∃ b, isBlank b ∧ t = b ++ c :: rest := by
  rw [char?_eq_some_iff]
  constructor
  · intro h
    refine ⟨t.indent, all_takeWhile .., ?_⟩
    rw [← h, indent_append_trimStart]
  · rintro ⟨b, hb, rfl⟩
    rw [trimStart_append hb, trimStart_of_head hc]

theorem mem_trim (hc : SqlRoutine.isBlank c = false) (h : c ∈ t) : c ∈ t.trim := by
  have hstart : c ∈ t.trimStart := by
    rw [← indent_append_trimStart t] at h
    refine (mem_append.mp h).resolve_left fun hin => ?_
    rw [all_eq_true.mp (all_takeWhile ..) c hin] at hc
    cases hc
  have hsplit : t.trim ++ t.trimStart.rtakeWhile SqlRoutine.isBlank = t.trimStart :=
    rdropWhile_append_rtakeWhile ..
  rw [← hsplit] at hstart
  refine (mem_append.mp hstart).resolve_right fun hin => ?_
  rw [mem_rtakeWhile_imp hin] at hc
  cases hc

/-! ### Names and lines -/

/-- A run of a class is read up to the first character that does not belong to it. -/
theorem run_append {α : Type} {P : α → Bool} {x z : List α} (hx : x.all P)
    (hz : z.head?.all (fun c => !P c)) :
    (x ++ z).takeWhile P = x ∧ (x ++ z).dropWhile P = z := by
  have hall : ∀ c ∈ x, P c := all_eq_true.mp hx
  rw [takeWhile_append_of_pos hall, dropWhile_append_of_pos hall]
  cases z with
  | nil => exact ⟨append_nil x, rfl⟩
  | cons c cs =>
    have hc : ¬P c := by simpa using hz
    rw [takeWhile_cons_of_neg hc, dropWhile_cons_of_neg hc, append_nil]
    exact ⟨rfl, rfl⟩

theorem name?_append {x z : Text} (hne : x ≠ []) (hx : x.all isWord)
    (hz : z.head?.all (fun c => !isWord c)) : name? (x ++ z) = some (x, z) := by
  obtain ⟨htake, hdrop⟩ := run_append hx hz
  unfold name?
  rw [htake, hdrop]
  obtain ⟨c, cs, rfl⟩ := exists_cons_of_ne_nil hne
  rfl

/-- **A variable that is read** is the sign and a name that ends where it has to. -/
theorem atName?_spec {name : Text} (h : atName? t = some (name, rest)) :
    t = '@' :: (name ++ rest) ∧ name ≠ [] ∧ name.all isWord ∧
      rest.head?.all (fun c => !isWord c) := by
  obtain ⟨u, hat, hname⟩ := Option.bind_eq_some_iff.mp h
  rw [char?_eq_some_iff.mp hat]
  unfold name? at hname
  split at hname
  · cases hname
  · rename_i hne
    cases hname
    refine ⟨by rw [takeWhile_append_dropWhile], hne, all_takeWhile .., ?_⟩
    have hhead := head?_dropWhile_not isWord u
    cases hdrop : (u.dropWhile isWord).head? with
    | none => rfl
    | some c =>
      rw [hdrop] at hhead
      simpa using hhead

theorem restOfLine?_of_oneLine (h : '\n' ∉ t) : restOfLine? t = some t := by
  have hne : ∀ c ∈ t, (c != '\n') := by
    intro c hc
    rw [bne_iff_ne]
    rintro rfl
    exact h hc
  unfold restOfLine?
  rw [takeWhile_eq_self_iff.mpr hne, dropWhile_eq_nil_iff.mpr hne]

theorem trimStart_subset (t : Text) : t.trimStart ⊆ t := (dropWhile_suffix _).subset

theorem trim_subset (t : Text) : t.trim ⊆ t :=
  fun _ h => trimStart_subset t ((trimEnd_isPrefix _).subset h)

theorem atWordEnd_blank (hne : b ≠ []) (hb : isBlank b) (t : Text) :
    atWordEnd (b ++ t) := by
  obtain ⟨c, b, rfl⟩ := exists_cons_of_ne_nil hne
  have hc := (Bool.and_eq_true_iff.mp ((isBlank_cons c b).symm.trans hb)).1
  simp [atWordEnd, isWord_blank hc]

theorem readBefore_append (m rest : Text) : readBefore rest (m ++ rest) = m := by
  rw [readBefore, length_append, Nat.add_sub_cancel, take_left]

end SqlRoutine.Text

import SqlRoutine.Body.Statement
import SqlRoutine.Proofs.Text.Opening
import SqlRoutine.Proofs.Text.Word

/-! # Output markers

An output marker is one or more blanks and a whole word, `output` or `out` (`outputMarker?_eq_some_iff`).
Markers are removed from a text wherever they stand (`unmarked`). What is removed has a blank before it and
no word goes on behind it, so words do not grow together: **a text without its markers does not start
with a marker** (`outputMarker?_unmarked`). -/

namespace SqlRoutine.Body

open List Option Text

variable {c : Char} {m w x : Text}

variable {t u z rest : Text}

/-! ### Reading a marker -/

/-- The word marks an output parameter. -/
def IsMarker (w : Text) : Prop := Spells "output".toList w ∨ Spells "out".toList w

instance (w : Text) : Decidable (IsMarker w) := inferInstanceAs (Decidable (_ ∨ _))

theorem IsMarker.all_isWord (h : IsMarker m) : m.all isWord := by
  rcases h with h | h
  · exact all_isWord_of_spells (by decide) h
  · exact all_isWord_of_spells (by decide) h

theorem IsMarker.exists_cons (h : IsMarker m) : ∃ c m', m = c :: m' ∧ letterKey c = 'o' := by
  cases m with
  | nil => rcases h with h | h <;> cases h
  | cons c m =>
    refine ⟨c, m, rfl, ?_⟩
    rcases h with h | h
    · exact (List.cons.inj h).1
    · exact (List.cons.inj h).1

theorem outputMarker?_eq (t : Text) : outputMarker? t = (blanks? t).bind fun u =>
    if IsMarker (u.takeWhile isWord) then some (u.dropWhile isWord) else none := by
  unfold outputMarker?
  congr 1
  funext u
  rw [findSome?_cons, findSome?_cons, findSome?_nil, word?_run (by decide),
    word?_run (by decide)]
  by_cases hlong : Spells "output".toList (u.takeWhile isWord)
  · rw [if_pos hlong, if_pos (show IsMarker _ from .inl hlong)]
  · by_cases hshort : Spells "out".toList (u.takeWhile isWord)
    · rw [if_neg hlong, if_pos hshort, if_pos (show IsMarker _ from .inr hshort)]
    · have hnot : ¬IsMarker (u.takeWhile isWord) := not_or.mpr ⟨hlong, hshort⟩
      rw [if_neg hlong, if_neg hshort, if_neg hnot]

theorem trimStart_of_word (hne : w ≠ []) (hw : w.all isWord) (z : Text) :
    trimStart (w ++ z) = w ++ z := by
  obtain ⟨c, w, rfl⟩ := exists_cons_of_ne_nil hne
  rw [all_cons, Bool.and_eq_true] at hw
  refine trimStart_of_head ?_
  exact Bool.eq_false_of_not_eq_true fun hblank => by
    rw [isWord_blank hblank] at hw
    cases hw.1

/-- **A marker** is blanks and a whole word. -/
theorem outputMarker?_eq_some_iff : outputMarker? t = some rest ↔ ∃ b m : Text, b ≠ [] ∧ b.isBlank ∧
    IsMarker m ∧ atWordEnd rest ∧ t = b ++ (m ++ rest) := by
  rw [outputMarker?_eq, bind_eq_some_iff]
  constructor
  · rintro ⟨u, hblanks, hword⟩
    obtain ⟨b, hne, hb, rfl, -⟩ := exists_of_blanks? hblanks
    split_ifs at hword with hmarker
    obtain rfl := Option.some.inj hword
    exact ⟨b, _, hne, hb, hmarker, atWordEnd_dropWhile u, by
      rw [takeWhile_append_dropWhile]⟩
  · rintro ⟨b, m, hne, hb, hmarker, hend, rfl⟩
    have hm := hmarker.all_isWord
    obtain ⟨c, m', hcons, -⟩ := hmarker.exists_cons
    have hne' : m ≠ [] := by rw [hcons]; exact cons_ne_nil c m'
    obtain ⟨htake, hdrop⟩ := run_of_atWordEnd hm hend
    exact ⟨_, by rw [blanks?_append hne hb, trimStart_of_word hne' hm], by rw [htake, hdrop, if_pos hmarker]⟩

theorem outputMarker?_cons (hc : isBlank c = false) (t : Text) : outputMarker? (c :: t) = none := by
  rw [outputMarker?_eq, blanks?, if_neg (by simp [hc])]
  rfl

/-! ### Removing markers -/

/-- The text without its markers. -/
def unmarked (t : Text) : Text := t.replaceAll fun _ t => (outputMarker? t).map ([], ·)

theorem replaceFrom_marker (prev : Option Char) (t : Text) :
    replaceFrom (fun _ t => (outputMarker? t).map ([], ·)) prev t = unmarked t := by
  cases t <;> rfl

theorem unmarked_of_none (h : outputMarker? (c :: t) = none) :
    unmarked (c :: t) = c :: unmarked t := by
  rw [unmarked, replaceAll_eq, replaceFrom_of_none (by rw [h]; rfl), replaceFrom_marker]

theorem unmarked_of_marker (h : outputMarker? t = some rest) : unmarked t = unmarked rest := by
  obtain ⟨b, m, hne, -, -, -, rfl⟩ := outputMarker?_eq_some_iff.mp h
  rw [← append_assoc] at h ⊢
  rw [unmarked, replaceAll_eq, replaceFrom_of_found (by simp [hne]) (by rw [h]; rfl),
    replaceFrom_marker]
  rfl

theorem length_of_marker (h : outputMarker? t = some rest) : rest.length + 1 < t.length := by
  obtain ⟨b, m, hne, -, hmarker, -, rfl⟩ := outputMarker?_eq_some_iff.mp h
  obtain ⟨c, m', rfl, -⟩ := hmarker.exists_cons
  have hpos := length_pos_iff.mpr hne
  simp only [length_append, length_cons]
  omega

/-- **Removing markers, step by step.** -/
theorem unmarked_induction {P : Text → Text → Prop} (nil : P [] [])
    (kept : ∀ c t, outputMarker? (c :: t) = none → P t (unmarked t) → P (c :: t) (c :: unmarked t))
    (removed : ∀ t rest, outputMarker? t = some rest → P rest (unmarked rest) → P t (unmarked rest))
    (t : Text) : P t (unmarked t) := by
  induction hn : t.length using Nat.strong_induction_on generalizing t with
  | _ n ih =>
    subst hn
    cases hmarker : outputMarker? t with
    | some rest =>
      have hlength := length_of_marker hmarker
      rw [unmarked_of_marker hmarker]
      exact removed t rest hmarker (ih rest.length (by omega) rest rfl)
    | none =>
      cases t with
      | nil => exact nil
      | cons c t =>
        rw [unmarked_of_none hmarker]
        exact kept c t hmarker (ih t.length (by simp) t rfl)

theorem unmarked_subset (t : Text) : unmarked t ⊆ t := by
  refine unmarked_induction (P := fun t out => out ⊆ t) (nil_subset _) ?_ ?_ t
  · exact fun c t _ ih => cons_subset_cons c ih
  · intro t rest hmarker ih
    obtain ⟨b, m, -, -, -, -, rfl⟩ := outputMarker?_eq_some_iff.mp hmarker
    exact fun c hc => mem_append_right b (mem_append_right m (ih hc))

theorem unmarked_append_left (hx : ∀ c ∈ x, isBlank c = false) (z : Text) :
    unmarked (x ++ z) = x ++ unmarked z := by
  induction x with
  | nil => rfl
  | cons c x ih =>
    rw [cons_append, unmarked_of_none (outputMarker?_cons (hx c mem_cons_self) _),
      ih fun d hd => hx d (mem_cons_of_mem c hd), cons_append]

/-! ### What is left has no marker in front -/

theorem atWordEnd_unmarked (t : Text) : atWordEnd t → atWordEnd (unmarked t) := by
  refine unmarked_induction (P := fun t out => atWordEnd t → atWordEnd out)
    (fun h => h) ?_ ?_ t
  · exact fun c t _ _ h => h
  · intro t rest hmarker ih _
    obtain ⟨b, m, -, -, -, hend, -⟩ := outputMarker?_eq_some_iff.mp hmarker
    exact ih hend

theorem exists_of_unmarked_eq (hw : w.all isWord) :
    ∀ {t z : Text}, unmarked t = w ++ z → w = [] ∨ ∃ t', t = w ++ t' ∧ unmarked t' = z := by
  induction w with
  | nil => exact fun _ => .inl rfl
  | cons c w ih =>
    intro t z h
    rw [all_cons, Bool.and_eq_true] at hw
    right
    have hnone : outputMarker? t = none := by
      cases hmarker : outputMarker? t with
      | none => rfl
      | some rest =>
        obtain ⟨b, m, -, -, -, hend, -⟩ := outputMarker?_eq_some_iff.mp hmarker
        have hstart := atWordEnd_unmarked rest hend
        rw [← unmarked_of_marker hmarker, h, cons_append, atWordEnd, hw.1] at hstart
        cases hstart
    cases t with
    | nil => cases h
    | cons d t =>
      rw [unmarked_of_none hnone, cons_append] at h
      obtain ⟨rfl, hrest⟩ := List.cons.inj h
      rcases ih hw.2 hrest with rfl | ⟨t', rfl, ht'⟩
      · exact ⟨t, rfl, hrest⟩
      · exact ⟨t', rfl, ht'⟩

theorem atWordEnd_of_unmarked (h : atWordEnd (unmarked t)) : atWordEnd t := by
  cases t with
  | nil => rfl
  | cons c t =>
    by_cases hc : isWord c
    · have hblank : isBlank c = false := Bool.eq_false_of_not_eq_true fun hblank => by
        rw [isWord_blank hblank] at hc
        cases hc
      rw [unmarked_of_none (outputMarker?_cons hblank t), atWordEnd, hc] at h
      cases h
    · simp [atWordEnd, hc]

/-- Where no marker starts, the removal of others does not make one. -/
theorem unmarked_ne_marker {m : Text} (hmarker : IsMarker m) (hend : atWordEnd rest) :
    ∀ {b t : Text}, b ≠ [] → b.isBlank → outputMarker? t = none → unmarked t ≠ b ++ (m ++ rest)
  | [], _, hne, _, _, _ => hne rfl
  | c :: b, [], _, _, _, h => by cases h
  | c :: b, d :: t, _, hb, hnone, h => by
    rw [isBlank_cons, Bool.and_eq_true] at hb
    rw [unmarked_of_none hnone, cons_append] at h
    obtain ⟨rfl, hrest⟩ := List.cons.inj h
    cases b with
    | nil =>
      obtain ⟨o, m', rfl, -⟩ := hmarker.exists_cons
      rcases exists_of_unmarked_eq hmarker.all_isWord hrest with hnil | ⟨t', rfl, ht'⟩
      · cases hnil
      · have hend' : atWordEnd t' := atWordEnd_of_unmarked (by rw [ht']; exact hend)
        have hsome : outputMarker? (d :: (o :: m' ++ t')) = some t' :=
          outputMarker?_eq_some_iff.mpr ⟨[d], _, by simp, by simp [hb.1], hmarker, hend', rfl⟩
        rw [hnone] at hsome
        cases hsome
    | cons e b =>
      refine unmarked_ne_marker hmarker hend (cons_ne_nil e b) hb.2 ?_ hrest
      -- a marker behind the blank would be one with it
      cases hmarker' : outputMarker? t with
      | none => rfl
      | some rest' =>
        obtain ⟨b', m', -, hb', hm', hend', rfl⟩ := outputMarker?_eq_some_iff.mp hmarker'
        have hsome : outputMarker? (d :: (b' ++ (m' ++ rest'))) = some rest' :=
          outputMarker?_eq_some_iff.mpr ⟨d :: b', m', by simp, by simp [hb.1, hb'], hm', hend', rfl⟩
        rw [hnone] at hsome
        cases hsome

/-- **A text without its markers does not start with a marker.** -/
theorem outputMarker?_unmarked (t : Text) : outputMarker? (unmarked t) = none := by
  cases hmarker : outputMarker? t with
  | none =>
    cases hleft : outputMarker? (unmarked t) with
    | none => rfl
    | some rest =>
      obtain ⟨b, m, hne, hb, hm, hend, heq⟩ := outputMarker?_eq_some_iff.mp hleft
      exact absurd heq (unmarked_ne_marker hm hend hne hb hmarker)
  | some rest =>
    have hlength := length_of_marker hmarker
    rw [unmarked_of_marker hmarker]
    exact outputMarker?_unmarked rest
termination_by t.length

/-! ### Markers in parts of a text -/

/-- There is a marker somewhere in the text. -/
def hasMarker (t : Text) : Bool := t.tails.any fun u => (outputMarker? u).isSome

theorem hasMarker_cons (c : Char) (t : Text) :
    hasMarker (c :: t) = ((outputMarker? (c :: t)).isSome || hasMarker t) := by
  rw [hasMarker, tails_cons, any_cons]
  rfl

theorem length_unmarked_le (t : Text) : (unmarked t).length ≤ t.length := by
  refine unmarked_induction (P := fun t out => out.length ≤ t.length) le_rfl ?_ ?_ t
  · exact fun c t _ ih => Nat.succ_le_succ ih
  · intro t rest hmarker ih
    have hlength := length_of_marker hmarker
    omega

/-- **Only a text without markers is kept**, and any other loses more than a character. -/
theorem unmarked_cases (t : Text) : (hasMarker t = false ∧ unmarked t = t) ∨
    (hasMarker t ∧ (unmarked t).length + 1 < t.length) := by
  induction t with
  | nil => exact .inl ⟨rfl, rfl⟩
  | cons c t ih =>
    rw [hasMarker_cons]
    cases hmarker : outputMarker? (c :: t) with
    | some rest =>
      have hlength := length_of_marker hmarker
      have hle := length_unmarked_le rest
      rw [unmarked_of_marker hmarker]
      exact .inr ⟨rfl, by omega⟩
    | none =>
      rw [unmarked_of_none hmarker]
      rcases ih with ⟨hnone, heq⟩ | ⟨hsome, hlength⟩
      · exact .inl ⟨hnone, congrArg (c :: ·) heq⟩
      · exact .inr ⟨hsome, by simp only [length_cons]; omega⟩

theorem run_append_of_atWordEnd (y : Text) (hz : atWordEnd z) :
    (y ++ z).takeWhile isWord = y.takeWhile isWord ∧
      (y ++ z).dropWhile isWord = y.dropWhile isWord ++ z := by
  by_cases hdrop : y.dropWhile isWord = []
  · have hall : y.all isWord := List.all_eq_true.mpr (dropWhile_eq_nil_iff.mp hdrop)
    obtain ⟨htake, hrest⟩ := run_of_atWordEnd hall hz
    rw [htake, hrest, hdrop, takeWhile_eq_self_iff.mpr (List.all_eq_true.mp hall)]
    exact ⟨rfl, rfl⟩
  · exact run_within hdrop z

/-- A marker does not reach beyond a text that ends with no blank, if no word goes on behind it. -/
theorem outputMarker?_append (hx : x.getLast?.any (fun c => !isBlank c))
    (hz : atWordEnd z) : outputMarker? (x ++ z) = (outputMarker? x).map (· ++ z) := by
  rcases x with _ | ⟨c, x⟩
  · cases hx
  · by_cases hc : isBlank c
    · have hvisible : Text.isBlank x = false := by
        rw [getLast?_cons] at hx
        cases hlast : x.getLast? with
        | none => rw [hlast] at hx; simp [hc] at hx
        | some d =>
          rw [hlast, getD_some, any_some, Bool.not_eq_true'] at hx
          exact isBlank_eq_false_iff.mpr ⟨d, mem_of_getLast? hlast, hx⟩
      have hstart := (indent_and_trimStart_append hvisible z).2
      obtain ⟨htake, hdrop⟩ := run_append_of_atWordEnd (trimStart x) hz
      rw [cons_append, outputMarker?_eq, outputMarker?_eq, blanks?, blanks?, if_pos hc,
        if_pos hc, hstart, bind_some, bind_some, htake, hdrop]
      split_ifs
      · rfl
      · rfl
    · rw [cons_append, outputMarker?_cons (Bool.eq_false_of_not_eq_true hc),
        outputMarker?_cons (Bool.eq_false_of_not_eq_true hc)]
      rfl

theorem proper_marker : Proper fun _ t => (outputMarker? t).map (([] : Text), ·) := by
  intro prev t r rest h
  obtain ⟨rest', hmarker, heq⟩ := map_eq_some_iff.mp h
  obtain ⟨-, rfl⟩ := Prod.mk.inj heq
  obtain ⟨b, m, hne, -, -, -, rfl⟩ := outputMarker?_eq_some_iff.mp hmarker
  exact ⟨b ++ m, by simp [hne], by rw [append_assoc]⟩

/-- **Markers are removed part by part.** -/
theorem unmarked_append (hx : x.getLast?.any (fun c => !isBlank c))
    (hz : atWordEnd z) : unmarked (x ++ z) = unmarked x ++ unmarked z := by
  rw [unmarked, replaceAll_eq, replaceFrom_append proper_marker ?_ none, replaceFrom_marker,
    replaceFrom_marker]
  intro x' hsuffix hne prev
  have hlast : x'.getLast? = x.getLast? := by
    obtain ⟨y, rfl⟩ := hsuffix
    rw [getLast?_append, getLast?_eq_some_getLast hne, some_or]
  rw [outputMarker?_append (by rw [hlast]; exact hx) hz]
  cases outputMarker? x' <;> rfl

end SqlRoutine.Body

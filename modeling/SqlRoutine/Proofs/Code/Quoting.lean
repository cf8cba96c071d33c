import SqlRoutine.Code.Quoting
import SqlRoutine.Proofs.Text.Scan

/-! # Inline comments

The inline comment of a line starts at two dashes outside quotes. A text without quotes and dashes
(`isBare`) in front of a line changes nothing about its comment (`commentFrom_append`). -/

namespace SqlRoutine.Code

/-- The inline comment of a text that starts inside a literal or not. -/
def commentFrom (quoted : Bool) (t : Text) : Text := (splitAtDashes quoted t).2

theorem commentFrom_cons (quoted : Bool) (c : Char) (cs : Text) :
    commentFrom quoted (c :: cs) =
      if c = quote then commentFrom (!quoted) cs
      else if !quoted && Text.startsWith (c :: cs) ['-', '-'] then c :: cs
      else commentFrom quoted cs := by
  unfold commentFrom
  rw [splitAtDashes]
  split_ifs <;> rfl

theorem startsWith_dashes (c : Char) (cs : Text) :
    Text.startsWith (c :: cs) ['-', '-'] ↔ c = '-' ∧ cs.head? = some '-' := by
  cases cs <;> simp [Text.startsWith, List.isPrefixOf, @eq_comm _ '-']

/-- A text without quotes and dashes. -/
def isBare (t : Text) : Bool := t.all fun c => c != quote && c != '-'

theorem commentFrom_append {m : Text} (hm : isBare m) (quoted : Bool) (t : Text) :
    commentFrom quoted (m ++ t) = commentFrom quoted t := by
  induction m with
  | nil => rfl
  | cons c m ih =>
    simp only [isBare, List.all_cons, Bool.and_eq_true, bne_iff_ne] at hm
    have hdashes : Text.startsWith (c :: (m ++ t)) ['-', '-'] = false := by
      rw [← Bool.not_eq_true, startsWith_dashes]
      exact fun h => hm.1.2 h.1
    rw [List.cons_append, commentFrom_cons, if_neg hm.1.1, hdashes, Bool.and_false, if_neg (by simp)]
    exact ih hm.2

theorem isBare_of_isBlank {b : Text} (hb : b.isBlank) : isBare b := by
  rw [isBare, List.all_eq_true]
  intro c hc
  have hblank := Text.isBlank_eq_true_iff.mp hb c hc
  rw [Bool.and_eq_true, bne_iff_ne, bne_iff_ne]
  constructor
  · rintro rfl
    cases hblank
  · rintro rfl
    cases hblank

theorem isBare_of_isWord {name : Text} (h : name.all isWord) : isBare name := by
  rw [isBare, List.all_eq_true]
  intro c hc
  have hword := List.all_eq_true.mp h c hc
  rw [Bool.and_eq_true, bne_iff_ne, bne_iff_ne]
  constructor
  · rintro rfl
    exact absurd hword (by decide)
  · rintro rfl
    exact absurd hword (by decide)

theorem splitComment_snd (t : Text) : (splitComment t).2 = commentFrom false t := by
  unfold splitComment commentFrom
  rcases splitAtDashes false t with ⟨code, comment⟩
  cases comment <;> rfl

theorem splitComment_of_none {t : Text} (h : commentFrom false t = []) : splitComment t = (t, []) := by
  unfold splitComment
  unfold commentFrom at h
  rcases hs : splitAtDashes false t with ⟨code, comment⟩
  rw [hs] at h
  cases h
  rfl

theorem commentFrom_trimStart (quoted : Bool) (t : Text) :
    commentFrom quoted t.trimStart = commentFrom quoted t := by
  have hindent : Text.isBlank t.indent := List.all_takeWhile ..
  rw [← commentFrom_append (isBare_of_isBlank hindent) quoted t.trimStart,
    Text.indent_append_trimStart]

end SqlRoutine.Code

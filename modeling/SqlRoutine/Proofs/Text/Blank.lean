import Mathlib.Tactic
import SqlRoutine.Text.Basic

/-! # Blank texts

How blankness of a text goes along with joining, trimming and the expansion of tabs. -/

namespace SqlRoutine.Text

@[simp]
theorem isBlank_nil : isBlank [] := rfl

@[simp]
theorem isBlank_cons (c : Char) (t : Text) :
    isBlank (c :: t) = (SqlRoutine.isBlank c && isBlank t) := rfl

@[simp]
theorem isBlank_append (t u : Text) : isBlank (t ++ u) = (isBlank t && isBlank u) :=
  List.all_append

@[simp]
theorem isBlank_reverse (t : Text) : isBlank t.reverse = isBlank t := List.all_reverse

theorem isBlank_eq_false_iff {t : Text} :
    isBlank t = false ↔ ∃ c ∈ t, SqlRoutine.isBlank c = false := by
  simp [isBlank]

theorem isBlank_eq_true_iff {t : Text} : isBlank t ↔ ∀ c ∈ t, SqlRoutine.isBlank c := by
  simp [isBlank]

theorem isBlank_dropWhile (t : Text) : isBlank (t.dropWhile SqlRoutine.isBlank) = isBlank t := by
  induction t with
  | nil => rfl
  | cons c t ih =>
    by_cases hc : SqlRoutine.isBlank c
    · rw [List.dropWhile_cons_of_pos hc, ih, isBlank_cons, hc, Bool.true_and]
    · rw [List.dropWhile_cons_of_neg hc]

@[simp]
theorem isBlank_trimStart (t : Text) : isBlank t.trimStart = isBlank t := isBlank_dropWhile t

@[simp]
theorem isBlank_trimEnd (t : Text) : isBlank t.trimEnd = isBlank t := by
  unfold trimEnd dropEndWhile
  rw [isBlank_reverse, isBlank_dropWhile, isBlank_reverse]

theorem isBlank_expandTabs (t : Text) : isBlank t.expandTabs = isBlank t := by
  unfold expandTabs
  rw [isBlank_trimEnd]
  induction t with
  | nil => rfl
  | cons c t ih =>
    rw [List.flatMap_cons, isBlank_append, ih, isBlank_cons]
    split_ifs with hc
    · subst hc; rfl
    · simp

end SqlRoutine.Text

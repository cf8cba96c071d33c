import SqlRoutine.Body.Line
import SqlRoutine.Proofs.Text.Blank

/-! # Adding lines to a body

Tidying up a line neither makes it blank nor fills it (`tidy_isBlank`), so **a line that is not blank
adds exactly one line to a body**, its tidy form (`appendLine_of_not_blank`). -/

namespace SqlRoutine.Body

open List

theorem isBlank_of_semicolon_mem {t : Text} (h : ';' ∈ t) : t.isBlank = false :=
  Text.isBlank_eq_false_iff.mpr ⟨';', h, rfl⟩

theorem collapseTerminators_isBlank (t : Text) :
    (Code.collapseTerminators t).isBlank = t.isBlank := by
  unfold Code.collapseTerminators
  dsimp only
  split_ifs with h
  · have hmem : ';' ∈ t := by
      have hrun := count_pos_iff.mp (show 0 < _ from lt_of_lt_of_le (by norm_num) h)
      have hend := (dropWhile_suffix _).subset hrun
      exact mem_reverse.mp ((List.takeWhile_prefix _).subset (mem_reverse.mp hend))
    rw [isBlank_of_semicolon_mem hmem]
    exact isBlank_of_semicolon_mem (by simp)
  · rfl

theorem isBlank_withComment {code comment : Text} (h : code.isBlank = false) :
    (Code.withComment code comment).isBlank = false := by
  unfold Code.withComment
  split_ifs
  · exact h
  · simp [h]

theorem isBlank_addTerminator {t : Text} (h : t.isBlank = false) :
    (Code.addTerminator t).isBlank = false := by
  unfold Code.addTerminator
  dsimp only
  split_ifs with hcode hend
  · exact h
  · exact isBlank_withComment (Bool.eq_false_iff.mpr hcode)
  · refine isBlank_withComment ?_
    rw [Text.isBlank_append, Bool.eq_false_iff.mpr hcode, Bool.false_and]

/-- **Tidying up does not change whether a line is blank.** -/
theorem tidy_isBlank (t : Text) : (tidy t).isBlank = t.isBlank := by
  unfold tidy
  rw [collapseTerminators_isBlank, Text.isBlank_expandTabs]

/-- **A line that is not blank adds its tidy form.** -/
theorem appendLine_of_not_blank {line : Text} (h : line.isBlank = false) (body : List Text) :
    appendLine body line = body ++ [tidy line] := by
  unfold appendLine
  dsimp only
  rw [tidy_isBlank, h]
  rfl

/-- Lines that are not blank add their tidy forms. -/
theorem appendLines_of_not_blank : ∀ {lines : List Text}, (∀ line ∈ lines, line.isBlank = false) →
    ∀ body : List Text, appendLines body lines = body ++ lines.map tidy
  | [], _, body => (append_nil body).symm
  | line :: lines, h, body => by
    obtain ⟨hline, hlines⟩ := forall_mem_cons.mp h
    rw [appendLines, foldl_cons, appendLine_of_not_blank hline, ← appendLines,
      appendLines_of_not_blank hlines, append_assoc, map_cons, singleton_append]

theorem appendLines_append (body a b : List Text) :
    appendLines body (a ++ b) = appendLines (appendLines body a) b := foldl_append ..

@[simp]
theorem texts_append (a b : List Converted) : texts (a ++ b) = texts a ++ texts b := by
  simp [texts]

end SqlRoutine.Body

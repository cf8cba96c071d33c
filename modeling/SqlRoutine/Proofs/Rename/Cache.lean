import Mathlib.Tactic
import SqlRoutine.Rename

/-! # The cache of columns

The columns of a new table are looked up once and kept under its lower-cased name. A cache is
**coherent** if it holds what a look-up would give, whatever the case in which the table is asked for.
A coherent cache stays so, and it does not show: the renaming comes to the same lines, faults and
notes as with any other one (`renameBody_alike`). -/

namespace SqlRoutine.Renaming

variable {cache cache' : ColumnCache}

variable {r : Renaming}

/-- Every entry of the cache is what a look-up of its table gives. -/
def Coherent (r : Renaming) (cache : ColumnCache) : Prop :=
  ∀ newTable columns, cache.lookup (Text.lower newTable) = some columns →
    columns = r.renamedColumns newTable

theorem coherent_nil (r : Renaming) : r.Coherent [] := by
  intro newTable columns h
  simp at h

theorem renamedColumns_of_lower_eq {a b : Text} (h : a.lower = b.lower) :
    r.renamedColumns a = r.renamedColumns b := by
  unfold renamedColumns NameMap.columnsOf
  rw [h]

theorem Coherent.add (h : r.Coherent cache) (newTable : Text) :
    r.Coherent (cache ++ [(newTable.lower, r.renamedColumns newTable)]) := by
  intro other columns hlook
  rw [List.lookup_append] at hlook
  cases hold : cache.lookup (Text.lower other) with
  | some found =>
    rw [hold, Option.some_or] at hlook
    rw [← Option.some.inj hlook]
    exact h other found hold
  | none =>
    rw [hold, Option.none_or, List.lookup_cons] at hlook
    by_cases hkey : (Text.lower other == Text.lower newTable)
    · rw [hkey] at hlook
      rw [← Option.some.inj hlook]
      exact renamedColumns_of_lower_eq (beq_iff_eq.mp hkey).symm
    · rw [Bool.not_eq_true] at hkey
      rw [hkey] at hlook
      simp at hlook

theorem cachedColumns_eq (h : r.Coherent cache) (newTable : Text) :
    (r.cachedColumns cache newTable).1 = r.renamedColumns newTable ∧
      r.Coherent (r.cachedColumns cache newTable).2 := by
  unfold cachedColumns
  cases hlook : cache.lookup newTable.lower with
  | some columns => exact ⟨h newTable columns hlook, h⟩
  | none => exact ⟨rfl, h.add newTable⟩

theorem cachedColumnsOf_eq : ∀ (newTables : List Text) {cache : ColumnCache}, r.Coherent cache →
    (r.cachedColumnsOf cache newTables).1 = newTables.flatMap r.renamedColumns ∧
      r.Coherent (r.cachedColumnsOf cache newTables).2
  | [], _, h => ⟨rfl, h⟩
  | newTable :: newTables, cache, h => by
    obtain ⟨hfirst, hnext⟩ := cachedColumns_eq h newTable
    obtain ⟨hothers, hlast⟩ := cachedColumnsOf_eq newTables hnext
    unfold cachedColumnsOf
    exact ⟨by rw [List.flatMap_cons, ← hfirst, ← hothers], hlast⟩

/-- The two renamings come to the same, and both leave a coherent cache. -/
structure Renamed.Alike (r : Renaming) (a b : Renamed) : Prop where
  result : a.result = b.result
  notes : a.notes = b.notes
  left : r.Coherent a.columns
  right : r.Coherent b.columns

theorem renameBlock_alike (h : r.Coherent cache) (h' : r.Coherent cache') (block : List Text) :
    Renamed.Alike r (r.renameBlock cache block) (r.renameBlock cache' block) := by
  unfold renameBlock
  cases block.mapM r.resolveLine with
  | error fault => exact ⟨rfl, rfl, h, h'⟩
  | ok resolved =>
    obtain ⟨hcolumns, hkept⟩ := cachedColumnsOf_eq (tablesIn resolved) h
    obtain ⟨hcolumns', hkept'⟩ := cachedColumnsOf_eq (tablesIn resolved) h'
    have heq := hcolumns.trans hcolumns'.symm
    refine ⟨?_, ?_, hkept, hkept'⟩
    · dsimp only; rw [heq]
    · dsimp only; rw [heq]

theorem renamePortions_alike : ∀ (portions : List Portion) {cache cache' : ColumnCache},
    r.Coherent cache → r.Coherent cache' →
      Renamed.Alike r (r.renamePortions cache portions) (r.renamePortions cache' portions)
  | [], _, _, h, h' => ⟨rfl, rfl, h, h'⟩
  | portion :: portions, cache, cache', h, h' => by
    have hfirst : Renamed.Alike r (r.renamePortion cache portion) (r.renamePortion cache' portion) := by
      cases portion with
      | kept lines => exact ⟨rfl, rfl, h, h'⟩
      | block lines => exact renameBlock_alike h h' lines
    have hothers := renamePortions_alike portions hfirst.left hfirst.right
    unfold renamePortions
    dsimp only
    rw [← hfirst.result]
    cases (r.renamePortion cache portion).result with
    | error fault => exact ⟨rfl, hfirst.notes, hfirst.left, hfirst.right⟩
    | ok lines =>
      refine ⟨?_, ?_, hothers.left, hothers.right⟩
      · dsimp only; rw [hothers.result]
      · dsimp only; rw [hfirst.notes, hothers.notes]

/-- **A coherent cache does not show in the renaming of a body**, and stays coherent. -/
theorem renameBody_alike (h : r.Coherent cache) (h' : r.Coherent cache') (body : List Text) :
    Renamed.Alike r (r.renameBody cache body) (r.renameBody cache' body) :=
  renamePortions_alike _ h h'

end SqlRoutine.Renaming

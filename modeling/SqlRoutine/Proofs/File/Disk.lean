import Mathlib.Tactic
import SqlRoutine.File.Disk

/-! # What writing keeps

Two things change a disk: a file is put where no directory is, and missing directories are created.
Both keep every directory (`Keeps`), so **a path still leads where it led** (`Keeps.locate`), and what is
elsewhere stays as it is (`node?_put_of_ne`, `makeBelow_keeps`). -/

namespace SqlRoutine.Disk

open List

variable {d d' : Disk} {other parts place : List Text} {path : Text}

/-! ### One node -/

theorem ne_nil_of_node? (h : d.node? place ≠ some .directory) : place ≠ [] := by
  rintro rfl
  exact h rfl

theorem lookup_filter_ne (nodes : List (List Text × Node)) (h : other ≠ place) :
    (nodes.filter (·.1 != place)).lookup other = nodes.lookup other := by
  induction nodes with
  | nil => rfl
  | cons entry nodes ih =>
    obtain ⟨parts, node⟩ := entry
    by_cases hparts : parts = place
    · rw [filter_cons_of_neg (by simp [hparts]), ih, lookup_cons, hparts,
        beq_false_of_ne h]
    · rw [filter_cons_of_pos (by simp [hparts]), lookup_cons, lookup_cons, ih]

theorem node?_put_self (d : Disk) (h : place ≠ []) (node : Node) :
    (d.put place node).node? place = some node := by
  rw [node?, if_neg (by simp [h]), put, lookup_cons_self]

theorem node?_put_of_ne (d : Disk) (h : other ≠ place) (node : Node) :
    (d.put place node).node? other = d.node? other := by
  rw [node?, node?, put, lookup_cons, beq_false_of_ne h]
  dsimp only
  rw [lookup_filter_ne d.nodes h]

/-! ### Paths -/

/-- `d'` has the directories of `d`, and the same working directory. -/
structure Keeps (d d' : Disk) : Prop where
  workingDirectory : d'.workingDirectory = d.workingDirectory
  directory : ∀ place, d.node? place = some .directory → d'.node? place = some .directory

theorem Keeps.trans {d'' : Disk} (h : Keeps d d') (h' : Keeps d' d'') : Keeps d d'' :=
  ⟨h'.workingDirectory.trans h.workingDirectory, fun place hd => h'.directory place (h.directory place hd)⟩

theorem Keeps.follow (h : Keeps d d') {current : List Text}
    (hplace : d.follow current parts = .ok place) : d'.follow current parts = .ok place := by
  induction parts generalizing current with
  | nil => exact hplace
  | cons part parts ih =>
    rw [Disk.follow] at hplace ⊢
    split at hplace
    · cases hplace
    · next hdirectory =>
      rw [h.directory current hdirectory]
      dsimp only
      split_ifs at hplace ⊢ with hdot hdots <;> exact ih hplace
    · cases hplace

/-- **A path leads where it led.** -/
theorem Keeps.locate (h : Keeps d d')
    (hplace : d.locate path = .ok place) : d'.locate path = .ok place := by
  unfold Disk.locate at hplace ⊢
  rw [h.workingDirectory]
  dsimp only at hplace ⊢
  split_ifs at hplace ⊢ <;> exact h.follow hplace

theorem keeps_put (h : d.node? place ≠ some .directory) (node : Node) :
    Keeps d (d.put place node) where
  workingDirectory := rfl
  directory other hother := by
    have hne : other ≠ place := fun e => h (e ▸ hother)
    rw [node?_put_of_ne d hne, hother]

/-- Creating directories keeps all that is there. -/
theorem makeBelow_keeps {above : List Text} (h : d.makeBelow above parts = .ok d') :
    d'.workingDirectory = d.workingDirectory ∧
      ∀ place node, d.node? place = some node → d'.node? place = some node := by
  -- one new directory, where nothing was
  have hput : ∀ (e : Disk) (here : List Text), e.node? here = none →
      ∀ place node, e.node? place = some node → (e.put here .directory).node? place = some node := by
    intro e here hnone place node hnode
    have hne : place ≠ here := by
      rintro rfl
      rw [hnone] at hnode
      cases hnode
    rw [node?_put_of_ne e hne, hnode]
  induction parts generalizing d above with
  | nil => cases h
  | cons part parts ih =>
    rw [makeBelow] at h
    split at h
    · next hnone =>
      split_ifs at h with hlast
      · cases h
        exact ⟨rfl, hput d _ hnone⟩
      · obtain ⟨hworking, hnodes⟩ := ih h
        exact ⟨hworking, fun place node hnode => hnodes place node (hput d _ hnone place node hnode)⟩
    · split_ifs at h
      exact ih h

/-! ### Reading and writing -/

theorem locate_of_writable (h : d.writable path = .ok place) :
    d.locate path = .ok place ∧ d.node? place ≠ some .directory := by
  unfold writable at h
  split_ifs at h with hslashes
  cases hlocate : d.locate (path.dropEndWhile (· == '/')) with
  | error e => rw [hlocate] at h; cases h
  | ok parts =>
    simp only [hlocate, bind, Except.bind] at h
    split_ifs at h with hslash
    cases h
    rw [Bool.or_eq_true, not_or] at hslash
    refine ⟨?_, by simpa using hslash.2⟩
    -- without a slash at its end the path is not cut
    have hcut : path.dropEndWhile (· == '/') = path := by
      have hend := hslash.1
      rw [Text.endsWith] at hend
      rw [Text.dropEndWhile, reverse_eq_iff]
      cases hrev : path.reverse with
      | nil => rfl
      | cons c cs =>
        rw [hrev] at hend
        refine dropWhile_cons_of_neg fun hslash => hend ?_
        rw [beq_iff_eq.1 hslash]
        rfl
    rwa [hcut] at hlocate

theorem path_ne_nil_of_locate (h : d.locate path = .ok place) : path ≠ [] := by
  rintro rfl
  cases h

theorem read_of_locate {bytes : Bytes}
    (hplace : d.locate path = .ok place) (hnode : d.node? place = some (.file bytes)) :
    d.read path = .ok bytes := by
  rw [read, hplace]
  simp only [bind, Except.bind, hnode]
  rfl

theorem exists?_of_locate {node : Node}
    (hplace : d.locate path = .ok place) (hnode : d.node? place = some node) :
    d.exists? path := by
  rw [exists?, find?, hplace]
  exact Option.isSome_of_eq_some hnode

end SqlRoutine.Disk

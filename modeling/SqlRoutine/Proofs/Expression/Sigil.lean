import SqlRoutine.Proofs.Expression.Call

/-! # Variables lose their sign

Variables get an underscore for their `@` before anything else is done to an expression, and no later
step brings an `@` back: what takes the place of something is made of its characters and of fixed
ones, as far as the mapping of types is (`Mapping.Free`). So **a converted expression has no `@`**
(`convert_free`), and neither has a converted type (`dataType_free`). -/

namespace SqlRoutine.Expression

theorem localNames_free (t : Text) : '@' ∉ localNames t := by
  intro h
  obtain ⟨c, -, hc⟩ := List.mem_map.mp h
  split_ifs at hc with heq
  · cases hc
  · exact heq hc

/-- **A converted type has no `@`.** -/
theorem dataType_free (p : Profile) (t : Text) : '@' ∉ dataType p t :=
  narrowIntegers_free (longVarchar_free _ (localNames_free t))

/-- **A converted expression has no `@`**, if no type brings one in. -/
theorem convert_free {p : Profile} (hp : p.types.Free) (t : Text) : '@' ∉ (convert p t).value := by
  rw [convert_value]
  exact List.foldlRecOn (motive := fun t => '@' ∉ t) _ _ (localNames_free t)
    fun t ht find hfind => (keeps_conversionFinders hp find hfind).not_sigil_replaceAll ht

end SqlRoutine.Expression

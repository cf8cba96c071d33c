import SqlRoutine.Proofs.Expression.Call

/-! # A text is not lost when it is spelled anew

Renaming, spelling types and converting expressions replace words by other words. So **a text that is
not blank does not become so** (`isBlank_literal`, `isBlank_dataType`, `isBlank_convert`), whatever
functions are renamed, as long as none of them is renamed to nothing. -/

namespace SqlRoutine

open List

/-- **No function is renamed to nothing.** -/
def Profile.KeepsText (p : Profile) : Prop := ∀ f ∈ p.functionNames, f.2.isBlank = false

namespace Expression

variable {t : Text}

/-! ### Renamed functions -/

theorem isBlank_intersperse {inserted : Text} (h : inserted.isBlank = false) (t : Text) :
    Text.isBlank (intersperse inserted t) = false := by
  cases t with
  | nil => exact h
  | cons c cs => rw [intersperse, Text.isBlank_append, h, Bool.false_and]

theorem isBlank_renameFunction {f : Text × Text} (htarget : f.2.isBlank = false)
    (h : t.isBlank = false) : Text.isBlank (renameFunction f.1 f.2 t) = false := by
  cases hsource : f.1.isEmpty with
  | true =>
    rw [renameFunction, hsource, if_pos rfl]
    exact isBlank_intersperse htarget t
  | false =>
    rw [renameFunction_eq hsource]
    refine Text.isBlank_replaceFrom (fun prev t out rest hfind => ?_) (fun prev t out rest hfind => ?_)
      none t h
    · obtain ⟨word, hword, m, e, hm, rfl, -⟩ := Rule.read?_spec (Rule.finder_eq_some hfind).1
      rw [mem_singleton.mp hword] at hm
      refine ⟨m ++ e, fun hnil => ?_, (append_assoc ..).symm⟩
      rw [(append_eq_nil_iff.mp hnil).1, Text.Spells, map_nil, eq_comm,
        map_eq_nil_iff] at hm
      rw [hm] at hsource
      cases hsource
    · rw [(Rule.finder_eq_some hfind).2]
      exact htarget

theorem isBlank_literal {p : Profile} (hp : p.KeepsText) (h : t.isBlank = false) :
    Text.isBlank (literal p t) = false := by
  have hwords : Text.isBlank (literalFinders.foldl (fun t find => Text.replaceAll find t) t) = false := by
    rw [literalFinders_eq, foldl_map]
    exact List.foldlRecOn (motive := fun t => Text.isBlank t = false) wordRules applyRule h
      fun t ht r hr => Rule.isBlank_applyRule (mem_append_left _ hr) ht
  exact List.foldlRecOn (motive := fun t => Text.isBlank t = false) p.functionNames _ hwords
    fun t ht f hf => isBlank_renameFunction (hp f hf) ht

/-! ### Types -/

theorem isBlank_localNames (t : Text) : Text.isBlank (localNames t) = Text.isBlank t := by
  induction t with
  | nil => rfl
  | cons c cs ih =>
    unfold localNames Text.replaceChar at ih ⊢
    rw [map_cons, Text.isBlank_cons, Text.isBlank_cons, ih]
    split_ifs with hc
    · rw [hc]
      rfl
    · rfl

theorem isBlank_longVarchar (minimum : ℤ) (h : t.isBlank = false) :
    Text.isBlank (DataType.longVarchar minimum t) = false :=
  (keeps_varcharFinder minimum).fills.isBlank_replaceAll h

theorem isBlank_narrowIntegers (h : t.isBlank = false) :
    Text.isBlank (DataType.narrowIntegers t) = false := by
  rw [DataType.narrowIntegers_eq]
  exact Rule.isBlank_applyRule DataType.narrowRule_mem h

/-- **A text that is not blank is not so as a type.** -/
theorem isBlank_dataType (p : Profile) (h : t.isBlank = false) :
    Text.isBlank (dataType p t) = false :=
  isBlank_narrowIntegers (isBlank_longVarchar _ ((isBlank_localNames t).trans h))

/-! ### Expressions -/

/-- **An expression that is not blank does not become so.** -/
theorem isBlank_convert (p : Profile) (h : t.isBlank = false) :
    (convert p t).value.isBlank = false := by
  rw [convert_value]
  refine List.foldlRecOn (motive := fun t => Text.isBlank t = false) _ _
    ((isBlank_localNames t).trans h) fun t ht find hfind => ?_
  exact (fills_conversionFinders p find hfind).isBlank_replaceAll ht

end Expression

end SqlRoutine

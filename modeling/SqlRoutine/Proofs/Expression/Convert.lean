import SqlRoutine.Expression.Basic
import SqlRoutine.Proofs.Text.Replace

/-! # A start that the conversion of an expression passes over

The conversion of an expression renames variables and then replaces what six finders find. None of
them finds anything in a text without the words that they ask for, so such a start of a line is kept,
and the rest is converted on its own (`convert_passed`). -/

namespace SqlRoutine.Expression

open List Option Text

/-- The finders, in the order in which they are applied. -/
def conversionFinders (p : Profile) : List (Finder Text) :=
  [plusAfterQuoted, plusBeforeQuoted, wordFinder (callOf? "Len".toList) "char_length(".toList,
    atWord fun t => (charIndex? t).map fun ((find, search), rest) =>
      ("position(".toList ++ find ++ " in ".toList ++ search ++ [')'], rest),
    atWord fun t => (convert? t).map fun ((type, name), rest) =>
      ('_' :: name ++ "::".toList ++ DataType.convert p.textLength type p.types, rest),
    fun prev t =>
      if atWordStart prev then
        (DataType.varchar? t).map fun (length, rest) =>
          (if length.atLeast p.textLength then "text".toList else readBefore rest t, rest)
      else none]

/-- The finder of the calls of `Len`. -/
def lenFinder : Finder Text := wordFinder (callOf? "Len".toList) "char_length(".toList

/-- The finder of the calls of `CharIndex`. -/
def charIndexFinder : Finder Text :=
  atWord fun t => (charIndex? t).map fun ((find, search), rest) =>
    ("position(".toList ++ find ++ " in ".toList ++ search ++ [')'], rest)

/-- The finder of the calls of `Convert`. -/
def convertFinder (p : Profile) : Finder Text :=
  atWord fun t => (convert? t).map fun ((type, name), rest) =>
    ('_' :: name ++ "::".toList ++ DataType.convert p.textLength type p.types, rest)

/-- The finder of `varchar` types. -/
def varcharFinder (minimum : ℤ) : Finder Text := fun prev t =>
  if atWordStart prev then
    (DataType.varchar? t).map fun (length, rest) =>
      (if length.atLeast minimum then "text".toList else readBefore rest t, rest)
  else none

theorem conversionFinders_eq (p : Profile) : conversionFinders p = [plusAfterQuoted, plusBeforeQuoted,
    lenFinder, charIndexFinder, convertFinder p, varcharFinder p.textLength] := rfl

/-- The words and signs that the finders ask for. -/
def conversionWords : List Text :=
  [[Code.quote], ['+'], "Len".toList, "CharIndex".toList, "Convert".toList, "nvarchar".toList,
    "varchar".toList]

theorem convert_value (p : Profile) (t : Text) :
    (convert p t).value =
      (conversionFinders p).foldl (fun t find => replaceAll find t) (localNames t) := by
  simp only [convert, calls, concatenation, renameLen, renameCharIndex, renameConvert,
    DataType.longVarchar, conversionFinders, foldl_cons, foldl_nil, Noted.value_bind,
    Noted.value_pure]

theorem asksFor_atWord {scan : Text → Option (Text × Text)} {words : List Text}
    (h : ∀ t found, scan t = some found → ∃ w ∈ words, ∃ rest, keyword? w t = some rest) :
    AsksFor (atWord scan) words where
  word := by
    intro prev t found hfound
    unfold atWord at hfound
    split_ifs at hfound with hstart
    exact h t found hfound
  blind := by
    intro prev prev' t hprev
    unfold atWord
    rw [hprev]

theorem mem_conversionWords_of_callOf? {function t rest : Text}
    (hfunction : function ∈ conversionWords) (h : callOf? function t = some rest) :
    ∃ w ∈ conversionWords, ∃ rest, keyword? w t = some rest := by
  obtain ⟨rest', hrest', -⟩ := bind_eq_some_iff.mp h
  exact ⟨function, hfunction, rest', hrest'⟩

theorem mem_conversionWords_of_char? {c : Char} {t rest : Text} (hc : [c] ∈ conversionWords)
    (h : char? c t = some rest) : ∃ w ∈ conversionWords, ∃ rest, keyword? w t = some rest := by
  refine ⟨[c], hc, rest, ?_⟩
  rw [char?_eq_some_iff.mp h]
  exact keyword?_append (m := [c]) rfl rest

theorem asksFor_conversionWords (p : Profile) :
    ∀ find ∈ conversionFinders p, AsksFor find conversionWords := by
  intro find hfind
  simp only [conversionFinders, mem_cons, not_mem_nil, or_false] at hfind
  rcases hfind with rfl | rfl | rfl | rfl | rfl | rfl
  · refine ⟨fun prev t found h => ?_, fun _ _ _ _ => rfl⟩
    obtain ⟨inner, hinner, -⟩ := bind_eq_some_iff.mp h
    exact mem_conversionWords_of_char? mem_cons_self hinner
  · refine ⟨fun prev t found h => ?_, fun _ _ _ _ => rfl⟩
    obtain ⟨rest, hrest, -⟩ := bind_eq_some_iff.mp h
    exact mem_conversionWords_of_char? (by simp [conversionWords]) hrest
  · refine asksFor_atWord fun t found h => ?_
    obtain ⟨rest, hrest, -⟩ := map_eq_some_iff.mp h
    exact mem_conversionWords_of_callOf? (by simp [conversionWords]) hrest
  · refine asksFor_atWord fun t found h => ?_
    obtain ⟨arguments, harguments, -⟩ := map_eq_some_iff.mp h
    obtain ⟨rest, hrest, -⟩ := bind_eq_some_iff.mp harguments
    exact mem_conversionWords_of_callOf? (by simp [conversionWords]) hrest
  · refine asksFor_atWord fun t found h => ?_
    obtain ⟨arguments, harguments, -⟩ := map_eq_some_iff.mp h
    obtain ⟨rest, hrest, -⟩ := bind_eq_some_iff.mp harguments
    exact mem_conversionWords_of_callOf? (by simp [conversionWords]) hrest
  · refine asksFor_atWord fun t found h => ?_
    obtain ⟨length, hlength, -⟩ := map_eq_some_iff.mp h
    obtain ⟨rest, hrest, -⟩ := bind_eq_some_iff.mp hlength
    obtain ⟨word, hword, hkeyword⟩ := exists_of_findSome?_eq_some hrest
    refine ⟨word, ?_, rest, hkeyword⟩
    simp only [mem_cons, not_mem_nil, or_false] at hword
    rcases hword with rfl | rfl <;> simp [conversionWords]

theorem conversionWords_visible : conversionWords.all isVisible := by decide +kernel

variable {b s : Text}

theorem localNames_append (x t : Text) : localNames (x ++ t) = localNames x ++ localNames t :=
  map_append

theorem localNames_of_not_mem {x : Text} (h : '@' ∉ x) : localNames x = x := by
  unfold localNames replaceChar
  refine (map_congr_left fun c hc => ?_).trans (List.map_id x)
  rw [if_neg, id]
  rintro rfl
  exact h hc

theorem localNames_indented (hb : b.isBlank) (hat : '@' ∉ s) : localNames (b ++ s) = b ++ s := by
  refine localNames_of_not_mem fun hin => ?_
  rcases mem_append.mp hin with hin | hin
  · have hblank := isBlank_eq_true_iff.mp hb _ hin
    cases hblank
  · exact hat hin

theorem ignores_conversion (p : Profile) (hs : avoids conversionWords s) :
    ∀ find ∈ conversionFinders p, Ignores find s := fun find hfind =>
  ⟨conversionWords, asksFor_conversionWords p find hfind, conversionWords_visible, hs⟩

/-- **A start without the words is kept**, after an indentation, and the rest is converted on its
own. -/
theorem convert_passed (p : Profile) (hb : b.isBlank)
    (hs : avoids conversionWords s) (hat : '@' ∉ s)
    (hend : s.getLast?.any isWord = false) (t : Text) :
    (convert p (b ++ s ++ t)).value = b ++ s ++ (convert p t).value := by
  rw [convert_value, convert_value, localNames_append, localNames_indented hb hat]
  exact foldl_passed hb hend (ignores_conversion p hs) (localNames t)

/-- A line without the words is kept. -/
theorem convert_ignored (p : Profile) (hb : b.isBlank)
    (hs : avoids conversionWords s) (hat : '@' ∉ s) : (convert p (b ++ s)).value = b ++ s := by
  rw [convert_value, localNames_indented hb hat]
  refine List.foldlRecOn (motive := fun t => t = b ++ s) _ _ rfl fun t ht find hfind => ?_
  rw [ht]
  exact replaceAll_ignored (ignores_conversion p hs find hfind) hb

end SqlRoutine.Expression

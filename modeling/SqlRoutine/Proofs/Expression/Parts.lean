import SqlRoutine.Proofs.Code.Terminator
import SqlRoutine.Proofs.DataType.Varchar
import SqlRoutine.Proofs.Text.Stop

/-! # Parts of a text are renamed on their own

A line has parts: code and a comment, with blanks, commas and other signs between them. The renaming of
functions is one substitution after the other, and none of them reads across what sets the parts apart. So
**each part is renamed as if it stood alone** (`literal_append_parting`, `literal_append_signs`). -/

namespace SqlRoutine.DataType

open Expression Text

/-! ### Long `varchar` types -/

theorem length?_of_outside {z : Text} (hz : z.head?.all isOutside) : length? z = none := by
  cases z with
  | nil => rfl
  | cons c z =>
    have hc : isOutside c := hz
    simp only [isOutside, Bool.and_eq_true, Bool.not_eq_true', bne_iff_ne] at hc
    obtain ⟨⟨-, hdecimal⟩, hm⟩ := hc
    have hdigits : digits? (c :: z) = none := by
      rw [digits?, List.takeWhile_cons_of_neg (by simp [hdecimal])]
    have hmax : keyword? "max".toList (c :: z) = none :=
      if_neg fun hsame => hm (sameLetter_iff.mp hsame).symm
    rw [length?, hdigits, hmax, Option.map_none]

section

variable {z : Text} (hz : Parting z)
include hz

theorem stopsWith_length? : StopsWith z fun t => length? t.trimStart := by
  have hdecimal : z.head?.all (fun c => !isDecimal c) := by
    cases z with
    | nil => rfl
    | cons c z => simp [(isParting_spec hz.head).2.2]
  have hlength : StopsWith z length? := by
    intro t
    obtain ⟨htake, hdrop⟩ := run_class hdecimal t
    have hmax : Stops z (keyword? "max".toList) := hz.stops_keyword? (by decide)
    unfold length? digits?
    rw [htake, hdrop, hmax t]
    cases t.takeWhile isDecimal with
    | nil => cases keyword? "max".toList t <;> rfl
    | cons c digits => rfl
  intro t
  dsimp only
  by_cases hblank : t.isBlank
  · rw [trimStart_append hblank, length?_of_outside hz.visible, trimStart_of_isBlank hblank]
    rfl
  · rw [(indent_and_trimStart_append (Bool.eq_false_iff.mpr hblank) z).2]
    exact hlength t.trimStart

theorem stopsWith_varchar? : StopsWith z varchar? := by
  have hwords : Stops z (anyKeyword? varcharWords) := Stops.findSome? fun word hword =>
    hz.stops_keyword? (List.all_eq_true.mp (show varcharWords.all avoidsParting = true by decide)
      word hword)
  have hopen : Stops z fun t => char? '(' t.trimStart := hz.stops_sign (by decide)
  have hclose (length : Length) :
      StopsWith z fun t => (char? ')' t.trimStart).map fun rest => (length, rest) := by
    intro t
    have hsign : char? ')' (t ++ z).trimStart = (char? ')' t.trimStart).map (· ++ z) :=
      hz.stops_sign (by decide) t
    dsimp only
    rw [hsign]
    cases char? ')' t.trimStart <;> rfl
  have hvarchar : StopsWith z fun t => (anyKeyword? varcharWords t).bind fun t =>
      (char? '(' t.trimStart).bind fun t => (length? t.trimStart).bind fun found =>
        (char? ')' found.2.trimStart).map fun rest => (found.1, rest) :=
    hwords.bindWith (hopen.bindWith ((stopsWith_length? hz).bind hclose))
  have heq (t : Text) : varchar? t = (anyKeyword? varcharWords t).bind fun t =>
      (char? '(' t.trimStart).bind fun t => (length? t.trimStart).bind fun found =>
        (char? ')' found.2.trimStart).map fun rest => (found.1, rest) := by
    simp only [varchar?, varcharWords, Option.bind_eq_bind, Option.map_eq_bind]
    rfl
  intro t
  rw [heq, heq]
  exact hvarchar t

end

end SqlRoutine.DataType

namespace SqlRoutine.Expression

open DataType Text
open Text.Substitution (applyAll)

/-! ### Rules -/

/-- What the rules need so that each part of a line is renamed on its own and keeps its end. -/
structure Rule.Apart (r : Rule) : Prop where
  words : r.words.all avoidsParting
  outside : r.replacement.head?.all isOutside
  noSign : '@' ∉ r.replacement
  last : r.replacement.getLast?.any (fun c => !Code.isTerminatorOrBlank c)

instance (r : Rule) : Decidable r.Apart :=
  decidable_of_iff (r.words.all avoidsParting ∧ r.replacement.head?.all isOutside ∧
    '@' ∉ r.replacement ∧ r.replacement.getLast?.any (fun c => !Code.isTerminatorOrBlank c))
    ⟨fun h => ⟨h.1, h.2.1, h.2.2.1, h.2.2.2⟩, fun h => ⟨h.words, h.outside, h.noSign, h.last⟩⟩

theorem rules_apart : ∀ r ∈ rules, r.Apart := by decide +kernel

theorem Ending.stops_parting {z : Text} (hz : Parting z) : ∀ e : Ending, Stops z e.read?
  | .opened => hz.stops_sign (by decide)
  | .emptyCall => (hz.stops_sign (c := '(') (by decide)).bind (hz.stops_sign (c := ')') (by decide))
  | .wordEnd => stops_wordEnd_of_head hz.wordEnd
  | .anything => fun _ => rfl

/-- **The rules are local.** -/
theorem local_of_mem_rules {r : Rule} (hr : r ∈ rules) : r.substitution.Local where
  named := (rules_naming r hr).named
  outside := (rules_apart r hr).outside
  stops := fun _ hz => Stops.findSome? fun word hword =>
    (hz.stops_keyword? (List.all_eq_true.mp (rules_apart r hr).words word hword)).bind
      (r.ending.stops_parting hz)

theorem local_rules : ∀ s ∈ rules.map Rule.substitution, s.Local := by
  intro s hs
  obtain ⟨r, hr, rfl⟩ := List.mem_map.mp hs
  exact local_of_mem_rules hr

theorem literal_eq_applyAll {p : Profile} (hp : p.functionNames = Profile.builtInFunctionNames)
    (t : Text) : literal p t = applyAll (rules.map Rule.substitution) t := by
  rw [literal_eq hp, applyAll, List.foldl_map]
  rfl

section

variable {p : Profile} (hp : p.functionNames = Profile.builtInFunctionNames) {x z : Text}
include hp

/-- **A line is renamed part by part.** -/
theorem literal_append_parting (hz : Parting z) (x : Text) :
    literal p (x ++ z) = literal p x ++ literal p z := by
  simp only [literal_eq_applyAll hp]
  exact Substitution.applyAll_parting local_rules x hz

theorem literal_append_signs (hx : ∀ c ∈ x, isWord c = false) (t : Text) :
    literal p (x ++ t) = x ++ literal p t := by
  simp only [literal_eq_applyAll hp]
  exact Substitution.applyAll_passed local_rules hx t

theorem literal_nil : literal p [] = [] := by
  rw [literal_eq hp]
  decide

end

end SqlRoutine.Expression

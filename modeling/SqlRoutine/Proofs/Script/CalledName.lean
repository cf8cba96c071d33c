import SqlRoutine.Proofs.Body.Simple
import SqlRoutine.Proofs.Name.SnakeCase
import SqlRoutine.Proofs.Script.Flush

/-! # The name of a routine and the name in its calls

In snake case a routine is defined without the marker `udf` and without underscores at the start of its
name (`Definition.bareName`), while a call keeps both. So **a converted call names the converted routine
just when the name has no such start** (`call_names_definition_iff`). -/

namespace SqlRoutine

open Text
open List hiding find?

variable {c : Char} {p : Profile} {name t : Text}

/-! ### The last part of a name -/

namespace Text

variable {sep : Char} {t u : Text}

theorem ne_of_not_mem (h : sep ∉ t) : ∀ c ∈ t.reverse, (c != sep) := by
  intro c hc
  rw [bne_iff_ne]
  rintro rfl
  exact h (mem_reverse.mp hc)

theorem afterLast_append (h : sep ∉ u) : afterLast sep (t ++ sep :: u) = u := by
  unfold afterLast
  rw [reverse_append, reverse_cons, append_assoc,
    takeWhile_append_of_pos (ne_of_not_mem h)]
  simp

theorem uptoLast_append (h : sep ∉ u) : uptoLast sep (t ++ sep :: u) = t ++ [sep] := by
  unfold uptoLast
  rw [reverse_append, reverse_cons, append_assoc,
    dropWhile_append_of_pos (ne_of_not_mem h)]
  simp

theorem afterLast_of_not_mem (h : sep ∉ t) : afterLast sep t = t := by
  unfold afterLast
  rw [takeWhile_eq_self_iff.mpr (ne_of_not_mem h), reverse_reverse]

theorem uptoLast_of_not_mem (h : sep ∉ t) : uptoLast sep t = [] := by
  unfold uptoLast
  rw [dropWhile_eq_nil_iff.mpr (ne_of_not_mem h), reverse_nil]

end Text

/-! ### What a definition leaves out -/

namespace Definition

open Name

/-- The name without the marker of functions and without underscores at its start. -/
def bareName (name : Text) : Text := (withoutMarker name).dropWhile (· == '_')

/-- **The name has a start that a definition leaves out**: an underscore, or the marker `udf` before a
capital or an underscore. -/
def isMarked : Text → Bool
  | '_' :: _ => true
  | 'u' :: 'd' :: 'f' :: c :: _ => isCapital c || c == '_'
  | _ => false

theorem marked_after_underscore (t : Text) :
    marked startsWord (some '_') t = marked startsWord none t := by
  cases t with
  | nil => rfl
  | cons c cs =>
    have hfirst : ∀ prev : Option Char, prev.any isSmallOrDigit = false → prev.any isCapital = false →
        startsWord prev c cs.head? = false := by
      intro prev hword hcapital
      rw [startsWord, followsWord, endsAcronym, hword, hcapital]
      simp
    rw [marked_of_neg (hfirst (some '_') (by decide) (by decide)), marked_of_neg (hfirst none rfl rfl)]

theorem marked_underscores : ∀ t : Text, marked startsWord none t =
    t.takeWhile (· == '_') ++ marked startsWord none (t.dropWhile (· == '_'))
  | [] => rfl
  | c :: cs => by
    by_cases hc : c = '_'
    · subst hc
      rw [takeWhile_cons_of_pos rfl, dropWhile_cons_of_pos rfl, marked_of_neg rfl,
        marked_after_underscore, marked_underscores cs]
      rfl
    · rw [takeWhile_cons_of_neg (by simpa using hc),
        dropWhile_cons_of_neg (by simpa using hc)]
      rfl

theorem withoutMarker_suffix (name : Text) : withoutMarker name <:+ name := by
  unfold withoutMarker
  split
  · split_ifs
    · exact ⟨"udf".toList, rfl⟩
    · exact suffix_rfl
  · exact suffix_rfl

theorem bareName_suffix (name : Text) : bareName name <:+ name :=
  (dropWhile_suffix _).trans (withoutMarker_suffix name)

theorem exists_marked_withoutMarker (name : Text) : ∃ lost,
    marked startsWord none name = lost ++ marked startsWord none (withoutMarker name) ∧
      (withoutMarker name ≠ name → lost ≠ []) := by
  unfold withoutMarker
  split
  · next c cs =>
    split_ifs with hc
    · have hname : marked startsWord none ('u' :: 'd' :: 'f' :: c :: cs) =
          "udf".toList ++ marked startsWord (some 'f') (c :: cs) := by
        rw [marked_of_neg rfl, marked_of_neg rfl, marked_of_neg rfl]
        rfl
      have hfirst : marked startsWord none (c :: cs) = c :: marked startsWord (some c) cs :=
        marked_of_neg (by simp [startsWord, followsWord, endsAcronym])
      rw [hname, hfirst, marked]
      split_ifs
      · exact ⟨"udf_".toList, rfl, fun _ => by simp⟩
      · exact ⟨"udf".toList, rfl, fun _ => by simp⟩
    · exact ⟨[], rfl, fun h => absurd rfl h⟩
  · exact ⟨[], rfl, fun h => absurd rfl h⟩

theorem exists_marked_bareName (name : Text) : ∃ lost,
    marked startsWord none name = lost ++ marked startsWord none (bareName name) ∧
      (bareName name ≠ name → lost ≠ []) := by
  obtain ⟨lost, hlost, hne⟩ := exists_marked_withoutMarker name
  refine ⟨lost ++ (withoutMarker name).takeWhile (· == '_'), ?_, fun hbare hnil => hbare ?_⟩
  · rw [append_assoc, bareName, ← marked_underscores, ← hlost]
  · obtain ⟨hmarker, hunderscores⟩ := append_eq_nil_iff.mp hnil
    have hkept : withoutMarker name = name := by
      by_contra h
      exact hne h hmarker
    have hsplit := (withoutMarker name).takeWhile_append_dropWhile (p := (· == '_'))
    rw [hunderscores, nil_append, hkept] at hsplit
    rw [bareName, hkept, hsplit]

theorem bareName_word (h : name.all isAsciiWord) :
    (bareName name).all isAsciiWord :=
  all_eq_true.mpr fun c hc => all_eq_true.mp h c ((bareName_suffix name).subset hc)

/-- **Snake case tells a name from its bare form**: what is left out is missing in the result. -/
theorem snakeCase_bareName_iff (h : name.all isAsciiWord) :
    snakeCase (bareName name) = snakeCase name ↔ bareName name = name := by
  refine ⟨fun heq => ?_, fun heq => by rw [heq]⟩
  rw [(snakeCase_of_word h).1, (snakeCase_of_word (bareName_word h)).1] at heq
  obtain ⟨lost, hlost, hne⟩ := exists_marked_bareName name
  by_contra hshort
  have hlength := congrArg List.length heq
  have hpos : 0 < lost.length := length_pos_of_ne_nil (hne hshort)
  rw [hlost, length_map, length_map, length_append] at hlength
  omega

theorem bareName_eq_iff (name : Text) : bareName name = name ↔ isMarked name = false := by
  have hshorter : ∀ t : Text, (t.dropWhile (· == '_')).length ≤ t.length := fun t =>
    (dropWhile_suffix _).length_le
  unfold isMarked
  split
  · next cs =>
    refine iff_of_false (fun heq => ?_) nofun
    have hlength := congrArg List.length heq
    have hbare : bareName ('_' :: cs) = cs.dropWhile (· == '_') := rfl
    have := hshorter cs
    rw [hbare, length_cons] at hlength
    omega
  · next c cs =>
    cases hc : (isCapital c || c == '_') with
    | true =>
      refine iff_of_false (fun heq => ?_) nofun
      have hlength := congrArg List.length heq
      have hbare : bareName ('u' :: 'd' :: 'f' :: c :: cs) = (c :: cs).dropWhile (· == '_') := by
        rw [bareName, withoutMarker, if_pos hc]
      have := hshorter (c :: cs)
      rw [hbare, length_cons, length_cons, length_cons] at hlength
      omega
    | false =>
      refine iff_of_true ?_ rfl
      rw [bareName, withoutMarker, if_neg (by simp [hc])]
      rfl
  · next hunderscore hmarker =>
    refine iff_of_true ?_ rfl
    have hmarker' : withoutMarker name = name := by
      unfold withoutMarker
      split
      · next c cs => exact absurd rfl (hmarker c cs)
      · rfl
    rw [bareName, hmarker']
    cases name with
    | nil => rfl
    | cons c cs =>
      refine dropWhile_cons_of_neg fun hc => ?_
      exact hunderscore cs (by rw [beq_iff_eq.mp hc])

end Definition

/-! ### Names without signs -/

/-- A character of a name, or the dot between its parts. -/
def isNameChar (c : Char) : Bool := isAsciiWord c || c == '.'

/-- The signs by which names are told from what surrounds them. -/
def nameSigns : Text := "(@[]\"\n".toList

theorem ascii_nameChar : ∀ k < 128, isNameChar (Char.ofNat k) →
    isBlank (Char.ofNat k) = false ∧ Char.ofNat k ∉ nameSigns := by
  decide

theorem not_sign_of_isNameChar (h : isNameChar c) : isBlank c = false ∧ c ∉ nameSigns := by
  have hascii : c.toNat < 128 := by
    rcases Bool.or_eq_true_iff.mp h with hword | hdot
    · exact of_decide_eq_true (isAsciiWord_iff.mp hword).1
    · rw [beq_iff_eq.mp hdot]
      decide
  have hchar := ascii_nameChar c.toNat hascii
  rw [Char.ofNat_toNat] at hchar
  exact hchar h

theorem Text.dropAround_of_none {p : Char → Bool} (h : ∀ c ∈ t, p c = false) :
    t.dropAround p = t := by
  have hdrop : ∀ u : Text, (∀ c ∈ u, p c = false) → u.dropWhile p = u := by
    intro u hu
    cases u with
    | nil => rfl
    | cons c u => exact dropWhile_cons_of_neg (by simp [hu c mem_cons_self])
  rw [dropAround, dropEndWhile, hdrop t h, hdrop _ fun c hc => h c (mem_reverse.mp hc),
    reverse_reverse]

section

variable {t : Text} (h : t.all isNameChar)
include h

theorem not_blank_of_mem (hc : c ∈ t) : isBlank c = false :=
  (not_sign_of_isNameChar (all_eq_true.mp h c hc)).1

theorem ne_of_mem_nameSigns {d : Char} (hc : c ∈ t) (hd : d ∈ nameSigns) : c ≠ d := by
  rintro rfl
  exact (not_sign_of_isNameChar (all_eq_true.mp h c hc)).2 hd

theorem not_bracket_of_mem (hc : c ∈ t) : (c == '[' || c == ']') = false := by
  have hopen : c ≠ '[' := ne_of_mem_nameSigns h hc (by decide)
  have hclose : c ≠ ']' := ne_of_mem_nameSigns h hc (by decide)
  simp [hopen, hclose]

theorem Text.trim_of_isNameChar : t.trim = t :=
  Text.dropAround_of_none fun _ hc => not_blank_of_mem h hc

theorem Text.trimStart_of_isNameChar : t.trimStart = t := by
  cases t with
  | nil => rfl
  | cons c t => exact Text.trimStart_of_head (not_blank_of_mem h mem_cons_self)

namespace Script

theorem create?_procedure : create? ("CREATE PROCEDURE ".toList ++ t) = some ⟨.procedure, t⟩ := by
  have hafter : ∃ others, afterCreate ("CREATE PROCEDURE ".toList ++ t) =
      ("PROCEDURE ".toList ++ t) :: others := ⟨_, rfl⟩
  have hkind : kind? ("PROCEDURE ".toList ++ t) = some ("PROCEDURE".toList, ' ' :: t) := by
    have hread : readBefore (' ' :: t) ("PROCEDURE ".toList ++ t) = "PROCEDURE".toList :=
      readBefore_append "PROCEDURE".toList (' ' :: t)
    have hword : word? "PROCEDURE".toList ("PROCEDURE ".toList ++ t) = some (' ' :: t) := rfl
    rw [kind?, findSome?_cons, hword, Option.map_some, hread]
  obtain ⟨others, hafter⟩ := hafter
  have hrest : restOfLine? t = some t :=
    restOfLine?_of_oneLine fun hmem => ne_of_mem_nameSigns h hmem (by decide) rfl
  have hstart : trimStart (' ' :: t) = t := trimStart_of_isNameChar h
  rw [create?, hafter, findSome?_cons, hkind, Option.bind_some]
  dsimp only
  rw [hstart, hrest, Option.map_some, trim_of_isNameChar h]
  rfl

theorem qualifiedName_of_isNameChar : qualifiedName t = t := by
  have hfind : ∀ (u : Text) (prev : Option Char) (position : ℕ), u ⊆ t →
      findFrom (fun _ v => bracketedName? v) prev position u = none := by
    intro u
    induction u with
    | nil => exact fun _ _ _ => rfl
    | cons c u ih =>
      intro prev position hsub
      have hc : c ≠ '[' := ne_of_mem_nameSigns h (hsub mem_cons_self) (by decide)
      have hnone : bracketedName? (c :: u) = none := by
        rw [bracketedName?, char?, if_neg hc]
        rfl
      rw [findFrom, hnone]
      exact ih _ _ (subset_of_cons_subset hsub)
  rw [qualifiedName, find?, hfind t none 0 (List.Subset.refl t)]
  dsimp only
  refine takeWhile_eq_self_iff.mpr fun c hc => ?_
  have hopen : c ≠ '(' := ne_of_mem_nameSigns h hc (by decide)
  simp [not_blank_of_mem h hc, hopen]

end Script

namespace Body

theorem call?_exec (hne : t ≠ []) : call? ("exec ".toList ++ t) = some (.call [] t [] []) := by
  have hchar : ∀ c ∈ t, isTargetChar c := by
    intro c hc
    have hopen : c ≠ '(' := ne_of_mem_nameSigns h hc (by decide)
    have hat : c ≠ '@' := ne_of_mem_nameSigns h hc (by decide)
    exact isTargetChar_iff.mpr ⟨not_blank_of_mem h hc, hopen, hat⟩
  have hkeyword : anyKeyword? ["Execute".toList, "Exec".toList] ("exec ".toList ++ t) =
      some (' ' :: t) := rfl
  have hblanks : blanks? (' ' :: t) = some t := by
    rw [blanks?, if_pos (by decide), trimStart_of_isNameChar h]
  have hresult : afterResult t = t := by
    obtain ⟨c, u, rfl⟩ := exists_cons_of_ne_nil hne
    have hat := (isTargetChar_iff.mp (hchar c mem_cons_self)).2.2
    rw [afterResult, atName?, char?, if_neg hat]
    rfl
  unfold call?
  rw [show trimStart ("exec ".toList ++ t) = "exec ".toList ++ t from rfl, hkeyword]
  simp only [Option.bind_eq_bind, Option.bind_some, hblanks, hresult,
    takeWhile_eq_self_iff.mpr hchar, dropWhile_eq_nil_iff.mpr hchar,
    isEmpty_eq_false_iff.mpr hne, Bool.false_eq_true, if_false]
  rfl

theorem ofLine?_exec (hne : t ≠ []) :
    Statement.ofLine? ("exec ".toList ++ t) = some (.call [] t [] []) := by
  rw [Statement.ofLine?, assign?_none rfl, print?_none rfl, rowCount?_none rfl, select?_none rfl,
    gotoDone?_none rfl, breakLoop?_none rfl, continueLoop?_none rfl, call?_exec h hne]
  rfl

theorem callTarget_of_isNameChar (hp : p.snakeCase) :
    callTarget p t = if t.lower = executeSql then t
      else t.uptoLast '.' ++ Name.snakeCase (t.afterLast '.') := by
  have hremove : t.remove (fun c => c == '[' || c == ']') = t := by
    refine filter_eq_self.mpr fun c hc => ?_
    dsimp only
    rw [not_bracket_of_mem h hc]
    rfl
  unfold callTarget
  rw [hremove, hp]
  by_cases hexecute : t.lower = executeSql
  · simp [hexecute]
  · simp [hexecute]

end Body

end

namespace Body

/-- The text of a call without parameters. -/
theorem convert_call (p : Profile) (target : Text) (later : List Text) :
    ((Statement.call [] target [] []).convert p later).value =
      "Call ".toList ++ callTarget p target ++ " ();".toList := by
  have hnone : (convertParameters p []).value = [] := by
    rfl
  rw [Statement.convert, Noted.value_bind, hnone, Noted.value_pure, withComment_nil]
  simp

/-- The line is converted to a call of the target, whatever comes later. -/
def Calls (p : Profile) (line target : Text) : Prop :=
  ∃ statement, Statement.ofLine? line = some statement ∧
    ∀ later, (statement.convert p later).value = "Call ".toList ++ target ++ " ();".toList

theorem calls_exec (p : Profile) (h : t.all isNameChar) (hne : t ≠ []) :
    Calls p ("exec ".toList ++ t) (callTarget p t) :=
  ⟨_, ofLine?_exec h hne, convert_call p t⟩

end Body

/-! ### One name in two places -/

section

variable {n : Text} (hn : n.all isAsciiWord)
include hn

theorem all_isNameChar : n.all isNameChar :=
  all_eq_true.mpr fun c hc => Bool.or_eq_true_iff.mpr (.inl (all_eq_true.mp hn c hc))

theorem not_dot : '.' ∉ n := fun hmem => absurd (all_eq_true.mp hn _ hmem) (by decide)

theorem qualified_isNameChar : ("dbo.".toList ++ n).all isNameChar := by
  rw [all_append, all_isNameChar hn]
  rfl

theorem Script.objectName_qualified : objectName (qualifiedName ("dbo.".toList ++ n)) = n := by
  have hlast : afterLast '.' ("dbo.".toList ++ n) = n :=
    afterLast_append (t := "dbo".toList) (not_dot hn)
  rw [qualifiedName_of_isNameChar (qualified_isNameChar hn), objectName, hlast]
  exact dropAround_of_none fun c hc => not_bracket_of_mem (all_isNameChar hn) hc

theorem Definition.targetName_object {d : Definition} {schema : Text}
    (hd : d.name = schema ++ '.' :: n) :
    (d.targetName true).afterLast '.' = Name.snakeCase (bareName n) := by
  have hobject : n.dropAround (fun c => c == '[' || c == ']' || c == '"') = n := by
    refine dropAround_of_none fun c hc => ?_
    have hquote : c ≠ '"' := ne_of_mem_nameSigns (all_isNameChar hn) hc (by decide)
    rw [not_bracket_of_mem (all_isNameChar hn) hc, Bool.false_or, beq_eq_false_iff_ne]
    exact hquote
  have hbare := bareName_word hn
  have hdot := not_dot (Name.snakeCase_of_word hbare).2
  have hafter : d.name.afterLast '.' = n := by
    rw [hd, afterLast_append (not_dot hn)]
  have hupto : d.name.uptoLast '.' = schema ++ ['.'] := by
    rw [hd, uptoLast_append (not_dot hn)]
  unfold targetName
  rw [if_pos rfl, hafter, hupto, hobject, append_assoc]
  exact afterLast_append hdot

/-- **The object name of the routine that `CREATE PROCEDURE` starts.** -/
theorem Script.targetName_procedure (c : Converter) (s : Script.State) (ahead : List Text)
    (hstart : (Script.step c s ("CREATE PROCEDURE dbo.".toList ++ n) ahead).progress.fault = none) :
    ((Script.step c s ("CREATE PROCEDURE dbo.".toList ++ n) ahead).progress.state.definition.targetName
      true).afterLast '.' = Name.snakeCase (Definition.bareName n) := by
  have hline : "CREATE PROCEDURE dbo.".toList ++ n =
      "CREATE PROCEDURE ".toList ++ ("dbo.".toList ++ n) := by simp
  have hcreate : create? ("CREATE PROCEDURE dbo.".toList ++ n) =
      some ⟨.procedure, "dbo.".toList ++ n⟩ := by
    rw [hline]
    exact create?_procedure (qualified_isNameChar hn)
  have hstep : (Script.step c s ("CREATE PROCEDURE dbo.".toList ++ n) ahead).progress =
      startRoutine c { s with skipGo := false } ⟨.procedure, "dbo.".toList ++ n⟩ :=
    congrArg Outcome.progress (step_of_create? hcreate s)
  rw [hstep] at hstart ⊢
  obtain ⟨skip, -, -, hbegin⟩ := startRoutine_of_none hstart
  have hname : (Create.definition c ⟨.procedure, "dbo.".toList ++ n⟩ skip).name =
      c.profile.schema ++ '.' :: n := by
    rw [Create.definition, objectName_qualified hn]
  rw [hbegin]
  exact Definition.targetName_object hn hname

theorem Body.callTarget_object (hp : p.snakeCase) :
    (callTarget p n).afterLast '.' = if n.lower = executeSql then n else Name.snakeCase n := by
  rw [callTarget_of_isNameChar (all_isNameChar hn) hp, uptoLast_of_not_mem (not_dot hn),
    afterLast_of_not_mem (not_dot hn), nil_append]
  split_ifs
  · exact afterLast_of_not_mem (not_dot hn)
  · exact afterLast_of_not_mem (not_dot (Name.snakeCase_of_word hn).2)

theorem Body.callTarget_qualified (hp : p.snakeCase) :
    (callTarget p ("dbo.".toList ++ n)).afterLast '.' = Name.snakeCase n := by
  have hother : lower ("dbo.".toList ++ n) ≠ executeSql := by
    rw [lower_of_ascii (by rw [all_append, all_ascii_of_word hn]; rfl)]
    exact nofun
  have hafter : afterLast '.' ("dbo.".toList ++ n) = n :=
    afterLast_append (t := "dbo".toList) (not_dot hn)
  have hupto : uptoLast '.' ("dbo.".toList ++ n) = "dbo".toList ++ ['.'] :=
    uptoLast_append (t := "dbo".toList) (not_dot hn)
  rw [callTarget_of_isNameChar (qualified_isNameChar hn) hp, if_neg hother, hafter, hupto,
    append_assoc]
  exact afterLast_append (not_dot (Name.snakeCase_of_word hn).2)

theorem Definition.isMarked_executeSql (h : n.lower = Body.executeSql) : isMarked n = false := by
  rw [lower_of_ascii (all_ascii_of_word hn)] at h
  unfold isMarked
  split
  · exact absurd h nofun
  · exact absurd h nofun
  · rfl

end

/-- **A name that is its own snake case is in lower case.** -/
theorem Name.lower_of_snakeCase (h : Name.snakeCase name = name) : name.lower = name := by
  have hlower : (Name.snakeCase name).lower = Name.snakeCase name := by
    rw [Name.snakeCase_eq]
    exact lower_lower _
  rwa [h] at hlower

theorem Body.snakeCase_executeSql : Name.snakeCase executeSql = executeSql := by
  decide

/-- **A converted call names the converted routine just when the name has no start that a definition
leaves out.** A call without schema has one more exception: a name that differs from `sp_executesql` in
case only is called as it stands. -/
theorem call_names_definition_iff (c : Converter) (hsnake : c.profile.snakeCase = true) {n : Text}
    (hn : Text.isIdentifier n = true) (s : Script.State) (ahead : List Text)
    (hstart : (Script.step c s ("CREATE PROCEDURE dbo.".toList ++ n) ahead).progress.fault = none) :
    let start := (Script.step c s ("CREATE PROCEDURE dbo.".toList ++ n) ahead).progress
    let name := (start.state.definition.targetName true).afterLast '.'
    (∃ target, Body.Calls c.profile ("exec ".toList ++ n) target ∧
      (name = target.afterLast '.' ↔
        Definition.isMarked n = false ∧ (n.lower = Body.executeSql → n = Body.executeSql))) ∧
    (∃ target, Body.Calls c.profile ("exec dbo.".toList ++ n) target ∧
      (name = target.afterLast '.' ↔ Definition.isMarked n = false)) := by
  obtain ⟨hne, hword⟩ := Text.isIdentifier_iff.mp hn
  have hname := Script.targetName_procedure hword c s ahead hstart
  have hsame : Name.snakeCase (Definition.bareName n) = Name.snakeCase n ↔
      Definition.isMarked n = false :=
    (Definition.snakeCase_bareName_iff hword).trans (Definition.bareName_eq_iff n)
  have hqualified : Body.Calls c.profile ("exec dbo.".toList ++ n)
      (Body.callTarget c.profile ("dbo.".toList ++ n)) :=
    Body.calls_exec c.profile (qualified_isNameChar hword) (List.cons_ne_nil _ _)
  dsimp only
  rw [hname]
  refine ⟨⟨_, Body.calls_exec c.profile (all_isNameChar hword) hne, ?_⟩, ⟨_, hqualified, ?_⟩⟩
  · rw [Body.callTarget_object hword hsnake]
    split_ifs with hexecute
    -- the call keeps the name as it stands, which is snake case only for `sp_executesql` itself
    · have hmarked := Definition.isMarked_executeSql hword hexecute
      rw [(Definition.bareName_eq_iff n).mpr hmarked]
      refine ⟨fun hown => ⟨hmarked, fun _ => ?_⟩, fun hname => ?_⟩
      · rw [← Name.lower_of_snakeCase hown, hexecute]
      · rw [hname.2 hexecute]
        exact Body.snakeCase_executeSql
    · rw [hsame]
      exact ⟨fun h => ⟨h, fun h => absurd h hexecute⟩, And.left⟩
  · rw [Body.callTarget_qualified hword hsnake]
    exact hsame

/-- The marker is lost in the definition only, while an acronym is split in both places. -/
theorem call_names_definition_udfGetJob :
    let c : Converter := ⟨{ Profile.standard with snakeCase := true }, none, ⟨2025, 3, 9⟩⟩
    let start (n : Text) := (Script.step c {} ("CREATE PROCEDURE dbo.".toList ++ n) []).progress
    let name (n : Text) := ((start n).state.definition.targetName true).afterLast '.'
    (start "udfGetJob".toList).fault = none ∧ (start "URLOfJob2".toList).fault = none ∧
      (∃ target, Body.Calls c.profile ("exec dbo.".toList ++ "udfGetJob".toList) target ∧
        name "udfGetJob".toList ≠ target.afterLast '.') ∧
      (∃ target, Body.Calls c.profile ("exec ".toList ++ "URLOfJob2".toList) target ∧
        name "URLOfJob2".toList = target.afterLast '.') := by
  intro c start name
  have hmarked : (start "udfGetJob".toList).fault = none := by decide
  have hbare : (start "URLOfJob2".toList).fault = none := by decide
  refine ⟨hmarked, hbare, ?_, ?_⟩
  · obtain ⟨target, hcalls, hiff⟩ :=
      (call_names_definition_iff c rfl (by decide) {} [] hmarked).2
    exact ⟨target, hcalls, fun heq => absurd (hiff.mp heq) (by decide)⟩
  · obtain ⟨target, hcalls, hiff⟩ :=
      (call_names_definition_iff c rfl (by decide) {} [] hbare).1
    exact ⟨target, hcalls, hiff.mpr (by decide)⟩

end SqlRoutine

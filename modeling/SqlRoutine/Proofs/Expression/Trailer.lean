import SqlRoutine.Proofs.Code.Level
import SqlRoutine.Proofs.Code.Terminator
import SqlRoutine.Proofs.Expression.Parts

/-! # What follows a piece of code

A **trailer** stands after the code of a line: nothing, a semicolon, blanks, a comment. It is set apart
from the code, so the code and its trailer are renamed on their own (`literal_append_trailer`). The
conversion of an expression stops before a semicolon (`convert_append_terminator`). -/

namespace SqlRoutine.Code

/-- The last character is neither a blank nor a semicolon. -/
def endsInCode (t : Text) : Bool := t.getLast?.any fun c => !isTerminatorOrBlank c

theorem endsInCode_iff {t : Text} : endsInCode t ↔
    ∃ x c, t = x ++ [c] ∧ isTerminatorOrBlank c = false := by
  rw [endsInCode, Option.any_eq_true]
  constructor
  · rintro ⟨c, hlast, hc⟩
    obtain ⟨x, rfl⟩ := List.getLast?_eq_some_iff.mp hlast
    exact ⟨x, c, rfl, by simpa using hc⟩
  · rintro ⟨x, c, rfl, hc⟩
    exact ⟨c, List.getLast?_concat, by simpa using hc⟩

theorem endsInCode_suffix {s t : Text} (h : endsInCode t) (hs : s <:+ t) (hne : s ≠ []) :
    endsInCode s := by
  rw [endsInCode, getLast?_of_suffix hne hs] at h
  exact h

theorem endsInCode_isBlank {t : Text} (h : endsInCode t) : t.isBlank = false := by
  obtain ⟨x, c, rfl, hc⟩ := endsInCode_iff.mp h
  refine Text.isBlank_eq_false_iff.mpr ⟨c, by simp, ?_⟩
  exact (Bool.or_eq_false_iff.mp hc).2

end SqlRoutine.Code

namespace SqlRoutine.Text

open List Option

/-- A character that no name and no call goes on with. -/
def isStop (c : Char) : Bool := c == ';' || c == '-' || SqlRoutine.isBlank c

/-- **A trailer**: blanks at most, or a semicolon or a dash after them. -/
def isTrailer (z : Text) : Bool := z.trimStart.head?.all fun c => c == ';' || c == '-'

theorem isTrailer_head {z : Text} (hz : isTrailer z) : z.head?.all isStop := by
  cases z with
  | nil => rfl
  | cons c z =>
    rw [head?_cons, all_some, isStop]
    cases hc : SqlRoutine.isBlank c with
    | true => rw [Bool.or_true]
    | false =>
      rw [isTrailer, trimStart_of_head hc] at hz
      rw [Bool.or_false]
      exact hz

theorem isTrailer_append {b z : Text} (hb : isBlank b) : isTrailer (b ++ z) = isTrailer z := by
  rw [isTrailer, trimStart_append hb, isTrailer]

theorem isParting_of_isStop {c : Char} (h : isStop c) : isParting c := by
  rw [isStop, Bool.or_eq_true, Bool.or_eq_true, beq_iff_eq, beq_iff_eq] at h
  rcases h with (rfl | rfl) | h
  · rfl
  · rfl
  · rw [isParting, h, Bool.or_true]

section

variable {z : Text}

variable (hz : isTrailer z)
include hz

theorem parting_of_isTrailer : Parting z where
  head := by
    cases z with
    | nil => rfl
    | cons c z => exact isParting_of_isStop (isTrailer_head hz)
  visible := by
    cases h : z.trimStart with
    | nil => rfl
    | cons c u =>
      rw [isTrailer, h, head?_cons, all_some, Bool.or_eq_true, beq_iff_eq, beq_iff_eq] at hz
      rcases hz with rfl | rfl
      · rfl
      · rfl

theorem stops_keyword? {word : Text} (hword : avoidsParting word) : Stops z (keyword? word) :=
  (parting_of_isTrailer hz).stops_keyword? hword

theorem stops_wordEnd : Stops z fun t => if atWordEnd t then some t else none :=
  stops_wordEnd_of_head (parting_of_isTrailer hz).wordEnd

theorem stops_word? {word : Text} (hword : avoidsParting word) : Stops z (word? word) :=
  (stops_keyword? hz hword).bind (stops_wordEnd hz)

theorem stops_char? {c : Char} (hc : isStop c = false) : Stops z (char? c) := by
  intro t
  cases t with
  | nil =>
    cases z with
    | nil => rfl
    | cons d z =>
      have hd : isStop d := isTrailer_head hz
      have hne : d ≠ c := by
        rintro rfl
        rw [hd] at hc
        cases hc
      simp only [nil_append, char?, hne, if_false, map_none]
  | cons d t =>
    rw [cons_append, char?, char?]
    split_ifs <;> rfl

theorem stops_sign {c : Char} (hc : isStop c = false) : Stops z fun t => char? c t.trimStart := by
  refine stops_sign_of_head fun hhead => ?_
  rw [isTrailer, hhead, all_some] at hz
  rw [isStop, hz] at hc
  cases hc

theorem stopsWith_name? : StopsWith z name? := by
  intro t
  obtain ⟨htake, hdrop⟩ := run_class (parting_of_isTrailer hz).wordEnd t
  unfold name?
  rw [htake, hdrop]
  cases t.takeWhile isWord <;> rfl

theorem stopsWith_atName? : StopsWith z atName? :=
  (stops_char? hz rfl).bindWith (stopsWith_name? hz)

end

end SqlRoutine.Text

namespace SqlRoutine.Expression

open Code List Option Text

/-! ### Functions and types -/

section

variable {p : Profile} (hp : p.functionNames = Profile.builtInFunctionNames) {z : Text}
include hp

theorem literal_endsInCode {t : Text} (h : endsInCode t) :
    endsInCode (literal p t) :=
  literal_induction hp (P := fun t => endsInCode t)
    (fun r hr _ h => (rules_naming r hr).named.getLast?_replaceAll (rules_apart r hr).last h) h

/-- **A line is renamed part by part**: its code and what follows it. -/
theorem literal_append_trailer (hz : isTrailer z) (x : Text) :
    literal p (x ++ z) = literal p x ++ literal p z :=
  literal_append_parting hp (parting_of_isTrailer hz) x

theorem literal_indented {b : Text} (hb : b.isBlank) (t : Text) :
    literal p (b ++ t) = b ++ literal p t :=
  literal_append_signs hp (fun c hc => isWord_blank (isBlank_eq_true_iff.mp hb c hc)) t

end

/-! ### Expressions -/

theorem isTrailer_terminator : isTrailer [';'] := rfl

theorem readBefore_append_append (rest t z : Text) :
    readBefore (rest ++ z) (t ++ z) = readBefore rest t := by
  have hlength : (t ++ z).length - (rest ++ z).length = t.length - rest.length := by
    rw [length_append, length_append]
    omega
  rw [readBefore, hlength, take_append_of_le_length (Nat.sub_le ..), readBefore]

section

variable (isStop : Char → Bool)

/-- A run up to a stop that is found ends at the same place. -/
theorem run_terminated (t : Text) (h : t.any isStop) :
    (t ++ [';']).dropWhile (!isStop ·) = t.dropWhile (!isStop ·) ++ [';'] ∧
      (t ++ [';']).takeWhile (!isStop ·) = t.takeWhile (!isStop ·) := by
  induction t with
  | nil => cases h
  | cons c t ih =>
    cases hc : isStop c with
    | true => simp [hc]
    | false =>
      rw [any_cons, hc, Bool.false_or] at h
      simpa [hc] using ih h

/-- A run over the whole text goes on over the semicolon. -/
theorem run_unstopped (hsemicolon : isStop ';' = false) {t : Text} (h : t.any isStop = false) :
    (t ++ [';']).dropWhile (!isStop ·) = [] ∧ t.dropWhile (!isStop ·) = [] := by
  have hall : ∀ c ∈ t, (!isStop c) := fun c hc => by
    simpa using List.any_eq_false.mp h c hc
  refine ⟨dropWhile_eq_nil_iff.mpr fun c hc => ?_, dropWhile_eq_nil_iff.mpr hall⟩
  rcases mem_append.mp hc with hc | hc
  · exact hall c hc
  · rw [mem_singleton.mp hc, hsemicolon]
    rfl

/-- What stands before a stop, and the text after it. -/
theorem stopsWith_piece {c : Char} (hc : Text.isStop c = false) (hsemicolon : isStop ';' = false) :
    StopsWith [';'] fun t => (char? c (t.dropWhile (!isStop ·))).bind fun rest =>
      (argument? (t.takeWhile (!isStop ·))).map (·, rest) := by
  intro t
  dsimp only
  cases hfound : t.any isStop with
  | true =>
    obtain ⟨hdrop, htake⟩ := run_terminated isStop t hfound
    rw [hdrop, htake, stops_char? isTrailer_terminator hc]
    cases char? c (t.dropWhile (!isStop ·)) with
    | none => rfl
    | some rest => cases argument? (t.takeWhile (!isStop ·)) <;> rfl
  | false =>
    obtain ⟨hdrop, hdrop'⟩ := run_unstopped isStop hsemicolon hfound
    rw [hdrop, hdrop']
    rfl

end

theorem go_terminated : ∀ read t, quotedLiteral?.go read (t ++ [';']) =
    (quotedLiteral?.go read t).map fun found => (found.1, found.2 ++ [';'])
  | read, [] => rfl
  | read, [c] => by
    rw [singleton_append, quotedLiteral?.go, quotedLiteral?.go]
    by_cases hc : c = quote
    · rw [if_pos hc, if_pos hc]
      rfl
    · rw [if_neg hc, if_neg hc]
      rfl
  | read, c :: d :: rest => by
    rw [cons_append, cons_append, quotedLiteral?.go, quotedLiteral?.go]
    split_ifs
    · exact go_terminated _ rest
    · rfl
    · exact go_terminated _ (d :: rest)

theorem stopsWith_quotedLiteral? : StopsWith [';'] fun t => quotedLiteral? t.trimStart := by
  intro t
  have hquote : char? quote (t ++ [';']).trimStart =
      (char? quote t.trimStart).map (· ++ [';']) :=
    stops_sign isTrailer_terminator rfl t
  dsimp only [quotedLiteral?]
  rw [hquote]
  cases char? quote t.trimStart with
  | none => rfl
  | some inner => exact go_terminated _ inner

/-- The readings of an argument with the sign after it. -/
theorem arguments_terminated (isStop : Char → Bool) {c : Char} (hc : Text.isStop c = false)
    (hsemicolon : isStop ';' = false) (t : Text) :
    let readings := fun t : Text =>
      ((quotedLiteral? t.trimStart).bind fun (argument, rest) => (sign? c rest).map (argument, ·)).toList ++
        ((char? c (t.dropWhile (!isStop ·))).bind fun rest =>
          (argument? (t.takeWhile (!isStop ·))).map (·, rest)).toList
    readings (t ++ [';']) = (readings t).map fun found => (found.1, found.2 ++ [';']) := by
  have hliteral : StopsWith [';'] fun t : Text => (quotedLiteral? t.trimStart).bind
      fun (argument, rest) => (sign? c rest).map (argument, ·) := by
    refine stopsWith_quotedLiteral?.bind (b := fun argument rest => (sign? c rest).map (argument, ·))
      fun argument rest => ?_
    have hsign : sign? c (rest ++ [';']) = (sign? c rest).map (· ++ [';']) :=
      stops_sign isTrailer_terminator hc rest
    dsimp only
    rw [hsign]
    cases sign? c rest <;> rfl
  have hliteral := hliteral t
  have hpiece := stopsWith_piece isStop hc hsemicolon t
  dsimp only at hliteral hpiece ⊢
  rw [hliteral, hpiece, map_append, toList_map, toList_map]

theorem charIndex?_terminated : StopsWith [';'] charIndex? := by
  have hcall : Stops [';'] (callOf? "CharIndex".toList) :=
    (stops_keyword? isTrailer_terminator (by decide)).bind
      (stops_sign isTrailer_terminator rfl)
  refine hcall.bindWith fun t => ?_
  have hfirst : firstArguments (t ++ [';']) =
      (firstArguments t).map fun found => (found.1, found.2 ++ [';']) :=
    arguments_terminated (fun c => c == ',' || c == ')') rfl rfl t
  have hlast : ∀ t, lastArguments (t ++ [';']) =
      (lastArguments t).map fun found => (found.1, found.2 ++ [';']) :=
    arguments_terminated (· == ')') rfl rfl
  dsimp only
  rw [hfirst]
  induction firstArguments t with
  | nil => rfl
  | cons found l ih =>
    rw [map_cons, findSome?_cons, findSome?_cons, hlast, head?_map]
    cases (lastArguments found.2).head? with
    | none => exact ih
    | some last => rfl

theorem convert?_terminated : StopsWith [';'] convert? := by
  have hcall : Stops [';'] (callOf? "Convert".toList) :=
    (stops_keyword? isTrailer_terminator (by decide)).bind
      (stops_sign isTrailer_terminator rfl)
  refine hcall.bindWith fun t => ?_
  cases hfound : t.any (· == ',') with
  | false =>
    have hdrop : (t ++ [';']).dropWhile (· != ',') = [] ∧ t.dropWhile (· != ',') = [] :=
      run_unstopped (· == ',') rfl hfound
    simp only [hdrop.1, hdrop.2, char?, bind_eq_bind, bind_none,
      bind_fun_none, map_none]
  | true =>
    have hrun : (t ++ [';']).dropWhile (· != ',') = t.dropWhile (· != ',') ++ [';'] ∧
        (t ++ [';']).takeWhile (· != ',') = t.takeWhile (· != ',') := run_terminated (· == ',') t hfound
    have hsign : ∀ {c : Char}, isStop c = false → ∀ t : Text,
        char? c (t ++ [';']).trimStart = (char? c t.trimStart).map (· ++ [';']) :=
      stops_sign isTrailer_terminator
    have hat : ∀ t : Text,
        (char? '@' (t ++ [';']).trimStart <|> char? '_' (t ++ [';']).trimStart) =
          (char? '@' t.trimStart <|> char? '_' t.trimStart).map (· ++ [';']) := by
      intro t
      rw [hsign rfl, hsign rfl]
      cases char? '@' t.trimStart <;> rfl
    simp only [hrun.1, hrun.2, stops_char? isTrailer_terminator (c := ',') rfl _, bind_eq_bind]
    cases argument? (t.takeWhile (· != ',')) with
    | none => rfl
    | some type =>
      cases char? ',' (t.dropWhile (· != ',')) with
      | none => rfl
      | some rest =>
        simp only [bind_some, map_some, hat]
        cases (char? '@' rest.trimStart <|> char? '_' rest.trimStart) with
        | none => rfl
        | some rest =>
          simp only [bind_some, map_some, stopsWith_name? isTrailer_terminator rest]
          cases name? rest with
          | none => rfl
          | some found =>
            simp only [bind_some, map_some, sign?, hsign (c := ')') rfl]
            cases char? ')' found.2.trimStart <;> rfl

theorem varchar?_terminated : StopsWith [';'] DataType.varchar? :=
  DataType.stopsWith_varchar? (parting_of_isTrailer isTrailer_terminator)

theorem plusAfterQuoted_terminated (prev : Option Char) (t : Text) :
    plusAfterQuoted prev (t ++ [';']) =
      (plusAfterQuoted prev t).map fun found => (found.1, found.2 ++ [';']) := by
  have hquote : Stops [';'] fun t => char? quote (t.dropWhile (· != quote)) := by
    intro t
    dsimp only
    cases hfound : t.any (· == quote) with
    | true =>
      have hrun : (t ++ [';']).dropWhile (· != quote) = t.dropWhile (· != quote) ++ [';'] :=
        (run_terminated (· == quote) t hfound).1
      rw [hrun, stops_char? isTrailer_terminator rfl]
    | false =>
      have hrun : (t ++ [';']).dropWhile (· != quote) = [] ∧
          t.dropWhile (· != quote) = [] := run_unstopped (· == quote) rfl hfound
      rw [hrun.1, hrun.2]
      rfl
  have hscan : Stops [';'] fun t => ((char? quote t).bind fun t =>
      char? quote (t.dropWhile (· != quote))).bind fun t => char? '+' t.trimStart :=
    ((stops_char? isTrailer_terminator rfl).bind hquote).bind (stops_sign isTrailer_terminator rfl)
  have hfinder : ∀ t, plusAfterQuoted prev t = (((char? quote t).bind fun t =>
      char? quote (t.dropWhile (· != quote))).bind fun t =>
        char? '+' t.trimStart).map fun rest =>
          ((readBefore rest t).dropLast ++ ['|', '|'], rest) := by
    intro t
    simp only [plusAfterQuoted, bind_eq_bind, bind_assoc,
      map_eq_bind]
    rfl
  have hscan := hscan t
  dsimp only at hscan
  rw [hfinder, hfinder, hscan, Option.map_map, Option.map_map]
  congr 1
  funext rest
  simp only [Function.comp_apply, readBefore_append_append]

theorem plusBeforeQuoted_terminated (prev : Option Char) (t : Text) :
    plusBeforeQuoted prev (t ++ [';']) =
      (plusBeforeQuoted prev t).map fun found => (found.1, found.2 ++ [';']) := by
  have hquote : ∀ t : Text, char? quote (t ++ [';']).trimStart =
      (char? quote t.trimStart).map (· ++ [';']) :=
    stops_sign isTrailer_terminator rfl
  simp only [plusBeforeQuoted, stops_char? isTrailer_terminator (c := '+') rfl t, bind_eq_bind]
  cases char? '+' t with
  | none => rfl
  | some rest =>
    simp only [map_some, bind_some, hquote]
    cases char? quote rest.trimStart with
    | none => rfl
    | some inner =>
      have hany : (inner ++ [';']).any (· == quote) = inner.any (· == quote) := by
        rw [any_append]
        exact Bool.or_false _
      simp only [map_some, bind_some, hany]
      split_ifs <;> rfl

/-- A search at the start of words stops if the scanner does. -/
theorem atWord_terminated {scan : Text → Option (Text × Text)} (h : StopsWith [';'] scan)
    (prev : Option Char) (t : Text) : atWord scan prev (t ++ [';']) =
      (atWord scan prev t).map fun found => (found.1, found.2 ++ [';']) := by
  unfold atWord
  rw [h t]
  split_ifs <;> rfl

/-- **The conversion stops before a semicolon.** -/
theorem finder_terminated (p : Profile) : ∀ find ∈ conversionFinders p, ∀ prev t,
    find prev (t ++ [';']) = (find prev t).map fun found => (found.1, found.2 ++ [';']) := by
  intro find hfind
  simp only [conversionFinders, mem_cons, not_mem_nil, or_false] at hfind
  rcases hfind with rfl | rfl | rfl | rfl | rfl | rfl
  · exact plusAfterQuoted_terminated
  · exact plusBeforeQuoted_terminated
  · refine @atWord_terminated (fun t => (callOf? "Len".toList t).map ("char_length(".toList, ·)) fun t => ?_
    have hcall : Stops [';'] (callOf? "Len".toList) :=
      (stops_keyword? isTrailer_terminator (by decide)).bind
        (stops_sign isTrailer_terminator rfl)
    dsimp only
    rw [hcall t]
    cases callOf? "Len".toList t <;> rfl
  · exact atWord_terminated (charIndex?_terminated.map fun found =>
      "position(".toList ++ found.1 ++ " in ".toList ++ found.2 ++ [')'])
  · exact atWord_terminated (convert?_terminated.map fun found =>
      '_' :: found.2 ++ "::".toList ++ DataType.convert p.textLength found.1 p.types)
  · refine @atWord_terminated (fun t => (DataType.varchar? t).map fun found =>
      (if found.1.atLeast p.textLength then "text".toList else readBefore found.2 t, found.2)) fun t => ?_
    dsimp only
    rw [varchar?_terminated t, Option.map_map, Option.map_map]
    congr 1
    funext found
    simp only [Function.comp_apply, readBefore_append_append]

/-- **A semicolon after an expression stands after its conversion.** -/
theorem convert_append_terminator (p : Profile) (t : Text) :
    (convert p (t ++ [';'])).value = (convert p t).value ++ [';'] := by
  have hreplace : ∀ find ∈ conversionFinders p, ∀ x : Text,
      replaceAll find (x ++ [';']) = replaceAll find x ++ [';'] := by
    intro find hfind x
    have hproper : Proper find := (fills_conversionFinders p find hfind).proper
    have hstop := finder_terminated p find hfind
    have hnone : ∀ prev, find prev [';'] = none := by
      intro prev
      have hnil : find prev [] = none := by
        cases h : find prev [] with
        | none => rfl
        | some found =>
          obtain ⟨m, hm, heq⟩ := hproper _ _ _ _ h
          exact absurd (append_eq_nil_iff.mp heq.symm).1 hm
      rw [← nil_append [';'], hstop, hnil]
      rfl
    rw [replaceAll_eq, replaceFrom_append hproper (fun x' _ _ prev => hstop prev x'),
      replaceFrom_of_none (hnone _), replaceFrom_nil]
    rfl
  have hall : ∀ finders : List (Finder Text), (∀ find ∈ finders, find ∈ conversionFinders p) →
      ∀ t : Text, finders.foldl (fun t find => replaceAll find t) (t ++ [';']) =
        finders.foldl (fun t find => replaceAll find t) t ++ [';'] := by
    intro finders
    induction finders with
    | nil => exact fun _ _ => rfl
    | cons find finders ih =>
      intro hmem t
      rw [foldl_cons, foldl_cons, hreplace find (hmem find mem_cons_self),
        ih fun find hfind => hmem find (mem_cons_of_mem _ hfind)]
  rw [convert_value, convert_value, localNames_append]
  exact hall _ (fun _ => id) _

end SqlRoutine.Expression

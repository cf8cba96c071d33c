import Mathlib.Data.List.Infix
import SqlRoutine.Proofs.Code.Literal
import SqlRoutine.Proofs.Expression.Blank

/-! # The arguments of `CharIndex`

`CharIndex(a, b)` becomes `position(a in b)`. The two arguments are not parsed: the first is a literal or
ends at the first comma or closing parenthesis, the second is a literal or ends at the first closing
parenthesis, and blanks before that end are dropped. For arguments that are balanced, have no comma of
their own and no call that is converted (`Argument`), the call is written as it should be **just when
this reading cuts nothing off** (`calls_charIndex_iff`): a first argument that is no literal must have
neither sign, not even in parentheses or quotes, and no blank may stand before the first closing
parenthesis in the second. -/

namespace SqlRoutine.Expression

open List Option Text
open Code (quote commaHere occurs Apart isSeparator)

variable {found : (Text × Text) × Text} {c : Char} {function rest s search t u w x : Text}

/-! ### Where calls start -/

/-- A call of the function starts in `s`, when `prev` stands before it and `u` follows. -/
def startsIn (function : Text) : Option Char → (s u : Text) → Bool
  | _, [], _ => false
  | prev, c :: s, u =>
    atWordStart prev && (callOf? function (c :: (s ++ u))).isSome || startsIn function (some c) s u

/-- **There is a call of the function** in the text. -/
def hasCall (function t : Text) : Bool := startsIn function none t []

section

variable {function : Text} {prev : Option Char} {s t u : Text}

theorem startsIn_cons_eq_false : startsIn function prev (c :: s) u = false ↔
    (atWordStart prev → callOf? function (c :: (s ++ u)) = none) ∧
      startsIn function (some c) s u = false := by
  rw [startsIn, Bool.or_eq_false_iff, Bool.and_eq_false_imp, isSome_eq_false_iff,
    isNone_iff_eq_none]

theorem startsIn_append : startsIn function prev (s ++ t) u =
    (startsIn function prev s (t ++ u) || startsIn function (s.getLast?.or prev) t u) := by
  induction s generalizing prev with
  | nil => rfl
  | cons c s ih =>
    rw [cons_append, startsIn, startsIn, ih, getLast?_cons_or, append_assoc, Bool.or_assoc]

theorem startsIn_append_eq_false : startsIn function prev (s ++ t) u = false ↔
    startsIn function prev s (t ++ u) = false ∧ startsIn function (s.getLast?.or prev) t u = false := by
  rw [startsIn_append, Bool.or_eq_false_iff]

theorem startsIn_of_none (h : startsIn function none s u = false) (prev : Option Char) :
    startsIn function prev s u = false := by
  cases s with
  | nil => rfl
  | cons c s =>
    obtain ⟨hhere, hrest⟩ := startsIn_cons_eq_false.mp h
    exact startsIn_cons_eq_false.mpr ⟨fun _ => hhere rfl, hrest⟩

theorem startsIn_after_sign (hc : isWord c = false)
    (h : startsIn function (some c) s u = false) : startsIn function none s u = false := by
  cases s with
  | nil => rfl
  | cons d s =>
    obtain ⟨hhere, hrest⟩ := startsIn_cons_eq_false.mp h
    exact startsIn_cons_eq_false.mpr ⟨fun _ => hhere (by rw [atWordStart, hc]; rfl), hrest⟩

theorem callOf?_append (h : callOf? function s = some rest) (u : Text) :
    callOf? function (s ++ u) = some (rest ++ u) := by
  obtain ⟨left, hleft, hopen⟩ := bind_eq_some_iff.mp h
  obtain ⟨m, hm, rfl⟩ := keyword?_eq_some_iff.mp hleft
  have hstart := char?_eq_some_iff.mp hopen
  have htrim : (left ++ u).trimStart = '(' :: (rest ++ u) := by
    rw [trimStart, dropWhile_append, ← trimStart, hstart]
    rfl
  rw [callOf?, append_assoc, keyword?_append hm, bind_some, htrim,
    char?_cons_self]

theorem startsIn_nil_of (h : startsIn function prev s u = false) : startsIn function prev s [] = false := by
  induction s generalizing prev with
  | nil => rfl
  | cons c s ih =>
    obtain ⟨hhere, hrest⟩ := startsIn_cons_eq_false.mp h
    refine startsIn_cons_eq_false.mpr ⟨fun hstart => ?_, ih hrest⟩
    rw [append_nil]
    cases hcall : callOf? function (c :: s) with
    | none => rfl
    | some rest =>
      have hmore := callOf?_append hcall u
      rw [cons_append, hhere hstart] at hmore
      cases hmore

variable (hfunction : isIdentifier function)
include hfunction

theorem callOf?_apart (hapart : Apart s u) (hopen : u.trimStart.head? ≠ some '(') :
    (callOf? function (s ++ u)).isSome = (callOf? function s).isSome := by
  rw [callOf?, callOf?, Code.keyword?_apart (isIdentifier_iff.mp hfunction).2 hapart]
  cases keyword? function s with
  | none => rfl
  | some rest =>
    rw [map_some, bind_some, bind_some, trimStart, dropWhile_append,
      ← trimStart, ← trimStart]
    cases rest.trimStart with
    | nil =>
      cases hu : u.trimStart with
      | nil => rfl
      | cons c v =>
        have hc : c ≠ '(' := fun hc => hopen (by rw [hu, hc]; rfl)
        simp [char?, hc]
    | cons c v =>
      rw [isEmpty_cons, if_neg Bool.false_ne_true, cons_append, char?, char?]
      split_ifs <;> rfl

theorem startsIn_apart (h : startsIn function prev s [] = false) (hsep : u.head?.all isSeparator)
    (hopen : u.trimStart.head? ≠ some '(') : startsIn function prev s u = false := by
  induction s generalizing prev with
  | nil => rfl
  | cons c s ih =>
    obtain ⟨hhere, hrest⟩ := startsIn_cons_eq_false.mp h
    refine startsIn_cons_eq_false.mpr ⟨fun hstart => ?_, ih hrest⟩
    have hnone := hhere hstart
    rw [append_nil] at hnone
    have hsame := callOf?_apart (s := c :: s) hfunction (.inl hsep) hopen
    rw [hnone, isSome_none, isSome_eq_false_iff, isNone_iff_eq_none] at hsame
    exact hsame

/-- No call starts at a sign. -/
theorem startsIn_sign (hascii : isAscii c) (hc : isWord c = false)
    (h : startsIn function none s u = false) : startsIn function prev (c :: s) u = false := by
  refine startsIn_cons_eq_false.mpr ⟨fun _ => ?_, startsIn_of_none h (some c)⟩
  obtain ⟨hne, hword⟩ := isIdentifier_iff.mp hfunction
  obtain ⟨k, ks, rfl⟩ := exists_cons_of_ne_nil hne
  rw [all_cons, Bool.and_eq_true] at hword
  rw [callOf?, keyword?, if_neg (by simp [sameLetter_sign hword.1 hascii hc])]
  rfl

omit hfunction in
theorem startsIn_inside (hw : w.all isWord) (hprev : prev.any isWord) :
    startsIn function prev w u = false := by
  induction w generalizing prev with
  | nil => rfl
  | cons c w ih =>
    rw [all_cons, Bool.and_eq_true] at hw
    refine startsIn_cons_eq_false.mpr ⟨fun hstart => ?_, ih hw.2 hw.1⟩
    cases prev with
    | none => cases hprev
    | some d =>
      rw [any_some] at hprev
      rw [atWordStart, hprev] at hstart
      cases hstart

/-- **At a name, only a call of the function of this name starts.** -/
theorem startsIn_name (hw : isIdentifier w) (hother : function.lower ≠ w.lower)
    (hu : atSign u) : startsIn function prev w u = false := by
  have hall := all_isWord_of_identifier hw
  obtain ⟨c, cs, rfl, hc⟩ := exists_cons_of_identifier hw
  rw [all_cons, Bool.and_eq_true] at hall
  refine startsIn_cons_eq_false.mpr ⟨fun _ => ?_, startsIn_inside hall.2 hc⟩
  have hrefuses : Refuses fun rest : Text => char? '(' rest.trimStart := by
    intro d t hd
    dsimp only
    rw [trimStart_of_head (tokenChar_of_isWord hd).1]
    exact refuses_char? rfl d t hd
  rw [callOf?, ← cons_append, keyword?_bind_word hrefuses (isIdentifier_iff.mp hfunction).2
    (isIdentifier_iff.mp hw).2 hu, if_neg hother]

end

/-- What the finder finds are calls of the function. -/
def FindsCalls (function : Text) (find : Finder Text) : Prop :=
  ∀ prev t found, find prev t = some found →
    atWordStart prev ∧ (callOf? function t).isSome

section

variable {function : Text} {find : Finder Text}

/-- **A text in which no call starts is passed over.** -/
theorem FindsCalls.replaceFrom (h : FindsCalls function find) {s u : Text} {prev : Option Char}
    (hs : startsIn function prev s u = false) :
    Text.replaceFrom find prev (s ++ u) = s ++ Text.replaceFrom find (s.getLast?.or prev) u := by
  induction s generalizing prev with
  | nil => rfl
  | cons c s ih =>
    obtain ⟨hhere, hrest⟩ := startsIn_cons_eq_false.mp hs
    have hnone : find prev (c :: (s ++ u)) = none := by
      rw [eq_none_iff_forall_ne_some]
      intro found hfound
      obtain ⟨hstart, hcall⟩ := h prev _ found hfound
      rw [hhere hstart] at hcall
      cases hcall
    rw [cons_append, replaceFrom_of_none hnone, ih hrest, getLast?_cons_or]
    rfl

theorem FindsCalls.replaceAll (h : FindsCalls function find) {t : Text} (ht : hasCall function t = false) :
    Text.replaceAll find t = t := by
  have hpassed := h.replaceFrom ht
  rwa [append_nil, replaceFrom_nil, append_nil] at hpassed

theorem findsCalls_atWord {α : Type} {scan : Text → Option (α × Text)} {text : α × Text → Text × Text}
    (hscan : ∀ t found, scan t = some found → (callOf? function t).isSome) :
    FindsCalls function (atWord fun t => (scan t).map text) := by
  intro prev t found hfound
  unfold atWord at hfound
  split_ifs at hfound with hstart
  obtain ⟨read, hread, -⟩ := map_eq_some_iff.mp hfound
  exact ⟨hstart, hscan t read hread⟩

end

theorem callOf?_of_charIndex? (h : charIndex? t = some found) :
    (callOf? "CharIndex".toList t).isSome := by
  obtain ⟨rest, hrest, -⟩ := bind_eq_some_iff.mp h
  rw [hrest]
  rfl

theorem callOf?_of_convert? (h : convert? t = some found) :
    (callOf? "Convert".toList t).isSome := by
  obtain ⟨rest, hrest, -⟩ := bind_eq_some_iff.mp h
  rw [hrest]
  rfl

theorem findsCalls_wordFinder (function replacement : Text) :
    FindsCalls function (wordFinder (callOf? function) replacement) := by
  intro prev t found hfound
  unfold wordFinder at hfound
  split_ifs at hfound with hstart
  obtain ⟨rest, hrest, -⟩ := map_eq_some_iff.mp hfound
  exact ⟨hstart, by rw [hrest]; rfl⟩

theorem renameLen_eq (h : hasCall "Len".toList t = false) : renameLen t = t :=
  (findsCalls_wordFinder "Len".toList "char_length(".toList).replaceAll h

/-! ### Arguments -/

/-- The calls whose arguments matter. -/
def callNames : List Text := ["Len".toList, "CharIndex".toList, "Convert".toList]

theorem callNames_identifiers : callNames.all isIdentifier := by decide

/-- **An argument**: trimmed, with balanced quotes and parentheses, without a comma of its own and
without a call that is converted. -/
structure Argument (e : Text) : Prop where
  nonempty : e ≠ []
  trimmed : e.trim = e
  balanced : Code.Level.after {} e = {}
  nested : ∀ s ∈ e.inits, 0 ≤ (Code.Level.after {} s).depth
  noComma : occurs commaHere {} none e = false
  noCall : ∀ function ∈ callNames, hasCall function e = false

/-- One quoted literal and nothing else. -/
def IsLiteral (e : Text) : Prop := ∃ text, e = Code.literal text

namespace Argument

variable {e : Text} (h : Argument e)
include h

theorem noSeparator (he : e = s ++ c :: t) (hs : Code.Level.after {} s = {}) : c ≠ ',' ∧ c ≠ ')' := by
  constructor
  · rintro rfl
    have hcomma := h.noComma
    rw [he] at hcomma
    have hhere := Code.occurs_at hcomma
    rw [hs] at hhere
    cases hhere
  · rintro rfl
    have hdepth := h.nested (s ++ [')']) ((mem_inits _ _).mpr ⟨t, by rw [he]; simp⟩)
    rw [Code.Level.after_append, hs] at hdepth
    exact absurd hdepth (by decide)

theorem exists_head : ∃ c t, e = c :: t ∧ isBlank c = false ∧ c ≠ ',' ∧ c ≠ ')' := by
  obtain ⟨c, t, rfl⟩ := exists_cons_of_ne_nil h.nonempty
  obtain ⟨v, hv⟩ := head_of_trim h.trimmed
  exact ⟨c, t, rfl, isBlank_of_trimStart hv, h.noSeparator (s := []) rfl rfl⟩

theorem trimEnd_eq : e.trimEnd = e := by
  obtain ⟨c, t, rfl, hc, -⟩ := h.exists_head
  have htrim := h.trimmed
  rwa [trim, trimStart_of_head hc] at htrim

theorem not_isBlank_of_suffix (hs : s <:+ e) (hne : s ≠ []) : s.isBlank = false := by
  rw [← Bool.not_eq_true]
  intro hblank
  obtain ⟨r, rfl⟩ := hs
  have hlength := congrArg List.length h.trimEnd_eq
  have hend : trimEnd (r ++ s) <+: r := by
    rw [trimEnd, dropEndWhile, reverse_append, dropWhile_append,
      if_pos (by
        rw [List.isEmpty_iff, dropWhile_eq_nil_iff]
        exact fun c hc => isBlank_eq_true_iff.mp hblank c (mem_reverse.mp hc))]
    exact trimEnd_isPrefix r
  have hle := hend.length_le
  have hpos := length_pos_iff.mpr hne
  rw [length_append] at hlength
  omega

end Argument

/-! ### How the arguments are read -/

theorem literalBefore?_blank (c : Char) (t : Text) : literalBefore? c (' ' :: t) = literalBefore? c t := by
  rw [literalBefore?, ← singleton_append, trimStart_append rfl, ← literalBefore?]

theorem literalBefore?_literal (hblank : isBlank c = false) (hquote : c ≠ quote)
    (text z : Text) : literalBefore? c (Code.literal text ++ c :: z) = some (Code.literal text, z) := by
  have hhead : (c :: z).head? ≠ some quote := fun h => hquote (Option.some.inj h)
  have htrim : (Code.literal text ++ c :: z).trimStart = Code.literal text ++ c :: z :=
    trimStart_of_head rfl
  have hsign : sign? c (c :: z) = some z := by
    rw [sign?, trimStart_of_head hblank, char?_cons_self]
  rw [literalBefore?, htrim, quotedLiteral?_literal text hhead, bind_some]
  dsimp only
  rw [hsign]
  rfl

/-- **An argument that is more than a literal is not read as one**: after the literal the argument goes
on, and not with the sign. -/
theorem Argument.literalBefore?_eq_none {e : Text} (h : Argument e) (hliteral : ¬IsLiteral e)
    (hc : c = ',' ∨ c = ')') (z : Text) : literalBefore? c (e ++ z) = none := by
  obtain ⟨d, t, he, hd, -⟩ := h.exists_head
  have htrim : (e ++ z).trimStart = e ++ z := by
    rw [he, cons_append, trimStart_of_head hd]
  rw [literalBefore?, htrim]
  by_cases hquote : e.head? = some quote
  · obtain ⟨text, rest, hsplit, hrest⟩ := Code.exists_literal rfl (by rw [h.balanced]) hquote
    have hne : rest ≠ [] := by
      rintro rfl
      exact hliteral ⟨text, by rw [hsplit, append_nil]⟩
    have hhead : (rest ++ z).head? ≠ some quote := by
      rw [head?_append_of_ne_nil _ hne]
      exact hrest
    have hvisible := h.not_isBlank_of_suffix ⟨_, hsplit.symm⟩ hne
    obtain ⟨f, r, hf⟩ := exists_cons_of_ne_nil (l := rest.trimStart) fun hnil => by
      rw [isBlank_eq_true_iff.mpr (dropWhile_eq_nil_iff.mp hnil)] at hvisible
      cases hvisible
    have hindent : rest.indent.isBlank := all_takeWhile ..
    have hlevel : Code.Level.after {} (Code.literal text ++ rest.indent) = {} := by
      rw [Code.Level.after_append, Code.Level.after_literal rfl,
        Code.Level.after_of_isPlain (Code.isPlain_of_isBlank hindent)]
    have hother : f ≠ c := by
      have hsign := h.noSeparator (s := Code.literal text ++ rest.indent) (c := f) (t := r)
        (by rw [append_assoc, ← hf, indent_append_trimStart]; exact hsplit) hlevel
      rcases hc with rfl | rfl
      · exact hsign.1
      · exact hsign.2
    have hsign : sign? c (rest ++ z) = none := by
      rw [sign?, trimStart, dropWhile_append, ← trimStart, hf, isEmpty_cons,
        if_neg Bool.false_ne_true, cons_append, char?, if_neg hother]
    rw [hsplit, append_assoc, quotedLiteral?_literal text hhead, bind_some]
    dsimp only
    rw [hsign]
    rfl
  · have hhead : (e ++ z).head? ≠ some quote := by
      rw [head?_append_of_ne_nil _ h.nonempty]
      exact hquote
    rw [quotedLiteral?_of_head hhead]
    rfl

theorem argument?_of_trim (h : t.trim ≠ []) : argument? t = some t.trim := by
  unfold argument?
  split
  · exact absurd ‹_› h
  · rfl

theorem pieceBefore?_at {isStop : Char → Bool} (hx : x.all (!isStop ·))
    (hc : isStop c) (d : Char) (z : Text) : pieceBefore? isStop d (x ++ c :: z) =
      if c = d then (argument? x).map (·, z) else none := by
  obtain ⟨htake, hdrop⟩ := run_append (z := c :: z) hx (by simp [hc])
  rw [pieceBefore?, htake, hdrop, char?]
  split_ifs <;> rfl

/-- A text is free of stops, or it is cut at the first of them. -/
theorem exists_stop (isStop : Char → Bool) (t : Text) : t.all (!isStop ·) ∨
    ∃ x c y, t = x ++ c :: y ∧ x.all (!isStop ·) ∧ isStop c := by
  induction t with
  | nil => exact .inl rfl
  | cons d t ih =>
    by_cases hd : isStop d
    · exact .inr ⟨[], d, t, rfl, rfl, hd⟩
    · rcases ih with hall | ⟨x, c, y, rfl, hx, hc⟩
      · exact .inl (by simp [hd, hall])
      · exact .inr ⟨d :: x, c, y, rfl, by simp [hd, hx], hc⟩

namespace Argument

variable {e : Text} (h : Argument e)
include h

/-- What stands before a stop in an argument is not blank. -/
theorem argument?_before {y : Text} (he : e = x ++ c :: y) (hc : c = ',' ∨ c = ')') :
    argument? x = some x.trimEnd ∧ argument? (' ' :: x) = some x.trimEnd := by
  obtain ⟨d, t, hd, hblank, hcomma, hclose⟩ := h.exists_head
  have hx : ∃ x', x = d :: x' := by
    cases x with
    | nil =>
      obtain ⟨rfl, -⟩ := List.cons.inj (hd.symm.trans he)
      rcases hc with hc | hc
      · exact absurd hc hcomma
      · exact absurd hc hclose
    | cons f x =>
      obtain ⟨rfl, -⟩ := List.cons.inj (hd.symm.trans he)
      exact ⟨x, rfl⟩
  obtain ⟨x', rfl⟩ := hx
  have htrim : trim (d :: x') = trimEnd (d :: x') := by
    rw [trim, trimStart_of_head hblank]
  have hblanks : trim (' ' :: d :: x') = trim (d :: x') := by
    rw [trim, trim, ← singleton_append, trimStart_append rfl]
  have hne : trimEnd (d :: x') ≠ [] := by
    rw [trimEnd_cons hblank]
    exact cons_ne_nil d _
  constructor
  · rw [argument?_of_trim (by rwa [htrim]), htrim]
  · rw [argument?_of_trim (by rwa [hblanks, htrim]), hblanks, htrim]

theorem argument?_self : argument? e = some e ∧ argument? (' ' :: e) = some e := by
  have hblanks : trim (' ' :: e) = e := by
    rw [trim, ← singleton_append, trimStart_append rfl, ← trim, h.trimmed]
  constructor
  · rw [argument?_of_trim (by rw [h.trimmed]; exact h.nonempty), h.trimmed]
  · rw [argument?_of_trim (by rw [hblanks]; exact h.nonempty), hblanks]

end Argument

namespace Argument

variable {e : Text} (h : Argument e)
include h

theorem firstArguments_whole (hwhole : IsLiteral e ∨ ',' ∉ e ∧ ')' ∉ e) (z : Text) :
    ∃ more, firstArguments (e ++ ',' :: z) = (e, z) :: more := by
  rw [firstArguments_eq]
  by_cases hliteral : IsLiteral e
  · obtain ⟨text, rfl⟩ := hliteral
    rw [literalBefore?_literal rfl (by decide)]
    exact ⟨_, rfl⟩
  · obtain ⟨hcomma, hclose⟩ := hwhole.resolve_left hliteral
    have hall : e.all (!endsFirst ·) := by
      rw [List.all_eq_true]
      intro c hc
      have hne : c ≠ ',' := fun heq => hcomma (heq ▸ hc)
      have hne' : c ≠ ')' := fun heq => hclose (heq ▸ hc)
      simp [endsFirst, hne, hne']
    rw [h.literalBefore?_eq_none hliteral (.inl rfl), pieceBefore?_at hall rfl, if_pos rfl,
      h.argument?_self.1]
    exact ⟨[], rfl⟩

/-- **Any other first argument is not read, or is cut at a comma.** -/
theorem firstArguments_cut (hcut : ¬(IsLiteral e ∨ ',' ∉ e ∧ ')' ∉ e)) (z : Text) :
    firstArguments (e ++ ',' :: z) = [] ∨ ∃ x y, e = x ++ ',' :: y ∧
      firstArguments (e ++ ',' :: z) = [(x.trimEnd, y ++ ',' :: z)] := by
  obtain ⟨hliteral, hstop⟩ := not_or.mp hcut
  rw [firstArguments_eq, h.literalBefore?_eq_none hliteral (.inl rfl)]
  rcases exists_stop endsFirst e with hall | ⟨x, c, y, he, hx, hc⟩
  · have hnot : ∀ c, endsFirst c → c ∉ e := by
      intro c hc hmem
      have hother := List.all_eq_true.mp hall c hmem
      rw [hc] at hother
      cases hother
    exact absurd ⟨hnot ',' rfl, hnot ')' rfl⟩ hstop
  · rw [he, append_assoc, cons_append, pieceBefore?_at hx hc]
    by_cases hcomma : c = ','
    · subst hcomma
      rw [if_pos rfl, (h.argument?_before he (.inl rfl)).1]
      exact .inr ⟨x, y, rfl, rfl⟩
    · rw [if_neg hcomma]
      exact .inl rfl

theorem lastArguments_literal (hliteral : IsLiteral e) :
    (lastArguments (' ' :: (e ++ [')']))).head? = some (e, []) := by
  obtain ⟨text, rfl⟩ := hliteral
  rw [lastArguments_eq, literalBefore?_blank, literalBefore?_literal rfl (by decide)]
  rfl

/-- **A last argument that is no literal ends at the first closing parenthesis**, and blanks before it
are dropped. -/
theorem lastArguments_piece (hliteral : ¬IsLiteral e) :
    ∃ y, e ++ [')'] = e.takeWhile (· != ')') ++ ')' :: y ∧
      (lastArguments (' ' :: (e ++ [')']))).head? = some (trimEnd (e.takeWhile (· != ')')), y) := by
  rw [lastArguments_eq, literalBefore?_blank, h.literalBefore?_eq_none hliteral (.inr rfl)]
  rcases exists_stop (· == ')') e with hall | ⟨x, c, y, he, hx, hc⟩
  · have htake : e.takeWhile (· != ')') = e := takeWhile_eq_self_iff.mpr (List.all_eq_true.mp hall)
    have hblank : (' ' :: e).all (fun c => !(c == ')')) := by
      rw [all_cons, hall]
      rfl
    refine ⟨[], by rw [htake], ?_⟩
    rw [← cons_append, pieceBefore?_at hblank rfl, if_pos rfl, h.argument?_self.2, htake, h.trimEnd_eq]
    rfl
  · obtain rfl : c = ')' := by simpa using hc
    have htake : e.takeWhile (· != ')') = x := by
      rw [he]
      exact (run_append hx rfl).1
    have hblank : (' ' :: x).all (fun c => !(c == ')')) := by
      rw [all_cons, hx]
      rfl
    refine ⟨y ++ [')'], by rw [htake, he]; simp, ?_⟩
    have hsplit : ' ' :: (e ++ [')']) = (' ' :: x) ++ ')' :: (y ++ [')']) := by rw [he]; simp
    rw [hsplit, pieceBefore?_at hblank rfl, if_pos rfl, (h.argument?_before he (.inr rfl)).2, htake]
    rfl

end Argument

/-! ### The call and what it becomes -/

/-- A call with two arguments and what separates them. -/
def callText (function separator e₁ e₂ : Text) : Text :=
  function ++ '(' :: (e₁ ++ (separator ++ (e₂ ++ [')'])))

section

variable {function w : Text} (hfunction : isIdentifier function)
  (hw : isIdentifier w) (hother : function.lower ≠ w.lower)
include hfunction hw hother

theorem startsIn_opened (hs : startsIn function none s u = false) :
    startsIn function none (w ++ '(' :: s) u = false :=
  startsIn_append_eq_false.mpr ⟨startsIn_name hfunction hw hother rfl,
    startsIn_sign hfunction rfl rfl hs⟩

/-- **A call has no other calls than its arguments have.** -/
theorem startsIn_callText {separator e₁ e₂ : Text} (h₁ : hasCall function e₁ = false)
    (h₂ : hasCall function e₂ = false) (hsep : separator.head?.any isSeparator)
    (hopen : ∀ u, (separator ++ u).trimStart.head? ≠ some '(')
    (hnone : ∀ u, startsIn function none separator u = false) (u : Text) :
    startsIn function none (callText w separator e₁ e₂) u = false := by
  have hhead : ∀ u, (separator ++ u).head?.all isSeparator := by
    intro u
    cases separator with
    | nil => cases hsep
    | cons c separator => exact hsep
  refine startsIn_opened hfunction hw hother (startsIn_append_eq_false.mpr ⟨?_, startsIn_of_none ?_ _⟩)
  · rw [append_assoc]
    exact startsIn_apart hfunction h₁ (hhead _) (hopen _)
  · refine startsIn_append_eq_false.mpr ⟨hnone _, startsIn_of_none ?_ _⟩
    refine startsIn_append_eq_false.mpr ⟨?_, startsIn_sign hfunction rfl rfl rfl⟩
    refine startsIn_apart hfunction h₂ rfl ?_
    rw [singleton_append, trimStart_of_head rfl]
    exact fun hopen => absurd (Option.some.inj hopen) (by decide)

end

theorem renameCharIndex_eq (t : Text) : renameCharIndex t = replaceFrom charIndexFinder none t := rfl

theorem findsCalls_charIndexFinder : FindsCalls "CharIndex".toList charIndexFinder :=
  findsCalls_atWord fun _ _ h => callOf?_of_charIndex? h

theorem findsCalls_convertFinder (p : Profile) : FindsCalls "Convert".toList (convertFinder p) :=
  findsCalls_atWord fun _ _ h => callOf?_of_convert? h

theorem renameCharIndex_found {find : Text}
    (h : charIndex? t = some ((find, search), rest)) : ∃ prev, renameCharIndex t =
      callText "position".toList " in ".toList find search ++ replaceFrom charIndexFinder prev rest := by
  obtain ⟨m, hm, rfl, -⟩ := charIndex?_spec h
  have hfind : charIndexFinder none (m ++ rest) =
      some (callText "position".toList " in ".toList find search, rest) := by
    have hstart : atWordStart none := rfl
    rw [charIndexFinder, atWord, if_pos hstart, h, map_some]
    simp [callText]
  exact ⟨m.getLast?, replaceFrom_of_found hm hfind⟩

/-- What stands before any call of `Convert` is kept. -/
theorem renameConvert_passed (p : Profile) (hs : startsIn "Convert".toList none s u = false) :
    ∃ v, renameConvert p (s ++ u) = s ++ v ∧ (u = [] → v = []) := by
  refine ⟨_, (findsCalls_convertFinder p).replaceFrom hs, ?_⟩
  rintro rfl
  rfl

section

variable {e₁ e₂ : Text}

theorem callOf?_callText (t : Text) : callOf? "CharIndex".toList ("CharIndex".toList ++ '(' :: t) = some t := by
  rw [callOf?, keyword?_append rfl, bind_some, trimStart_of_head rfl, char?_cons_self]

theorem charIndex?_callText (e₁ e₂ : Text) : charIndex? (callText "CharIndex".toList ", ".toList e₁ e₂) =
    (firstArguments (e₁ ++ ',' :: ' ' :: (e₂ ++ [')']))).findSome? fun (find, rest) =>
      (lastArguments rest).head?.map fun (search, rest) => ((find, search), rest) := by
  rw [callText, charIndex?, callOf?_callText]
  rfl

/-- With a first argument that is read as a whole, the call is read. -/
theorem charIndex?_whole (h₁ : Argument e₁) (hwhole : IsLiteral e₁ ∨ ',' ∉ e₁ ∧ ')' ∉ e₁)
    (h₂ : (lastArguments (' ' :: (e₂ ++ [')']))).head? = some (search, rest)) :
    charIndex? (callText "CharIndex".toList ", ".toList e₁ e₂) = some ((e₁, search), rest) := by
  obtain ⟨more, hmore⟩ := h₁.firstArguments_whole hwhole (' ' :: (e₂ ++ [')']))
  rw [charIndex?_callText, hmore, findSome?_cons]
  dsimp only
  rw [h₂]
  rfl

/-- A call with another first argument is not read, or its first argument is cut. -/
theorem charIndex?_cut (h₁ : Argument e₁) (hcut : ¬(IsLiteral e₁ ∨ ',' ∉ e₁ ∧ ')' ∉ e₁))
    (e₂ : Text) : charIndex? (callText "CharIndex".toList ", ".toList e₁ e₂) = none ∨
      ∃ x y search rest, e₁ = x ++ ',' :: y ∧
        charIndex? (callText "CharIndex".toList ", ".toList e₁ e₂) = some ((x.trimEnd, search), rest) := by
  rw [charIndex?_callText]
  rcases h₁.firstArguments_cut hcut (' ' :: (e₂ ++ [')'])) with hnone | ⟨x, y, he, hone⟩
  · rw [hnone]
    exact .inl rfl
  · rw [hone, findSome?_cons]
    dsimp only
    cases (lastArguments (y ++ ',' :: ' ' :: (e₂ ++ [')']))).head? with
    | none => exact .inl rfl
    | some read => exact .inr ⟨x, y, read.1, read.2, he, rfl⟩

theorem trimEnd_in_ne (x t u : Text) : x.trimEnd ++ (" in ".toList ++ t) ≠ x ++ ',' :: u := by
  have hsplit : x.trimEnd ++ x.rtakeWhile isBlank = x := rdropWhile_append_rtakeWhile ..
  have hblank : ∀ c ∈ x.rtakeWhile isBlank, isBlank c := fun c hc => mem_rtakeWhile_imp hc
  intro h
  nth_rewrite 2 [← hsplit] at h
  rw [append_assoc] at h
  have hrest : ' ' :: 'i' :: 'n' :: ' ' :: t = x.rtakeWhile isBlank ++ ',' :: u :=
    append_cancel_left h
  generalize x.rtakeWhile isBlank = b at hrest hblank
  rcases b with _ | ⟨c, _ | ⟨d, b⟩⟩
  · cases hrest
  · cases hrest
  · obtain ⟨-, hrest⟩ := List.cons.inj hrest
    obtain ⟨hd, -⟩ := List.cons.inj hrest
    have hi := hblank d (by simp)
    rw [← hd] at hi
    cases hi

theorem trimEnd_close_ne (h : x.getLast?.any isBlank) (t u : Text) :
    x.trimEnd ++ ')' :: t ≠ x ++ u := by
  have hsplit : x.trimEnd ++ x.rtakeWhile isBlank = x := rdropWhile_append_rtakeWhile ..
  have hblank : ∀ c ∈ x.rtakeWhile isBlank, isBlank c := fun c hc => mem_rtakeWhile_imp hc
  intro heq
  nth_rewrite 2 [← hsplit] at heq
  rw [append_assoc] at heq
  have hrest := append_cancel_left heq
  cases hb : x.rtakeWhile isBlank with
  | nil =>
    have hne : x ≠ [] := by
      rintro rfl
      cases h
    rw [getLast?_eq_some_getLast hne, any_some] at h
    exact rtakeWhile_eq_nil_iff.mp hb hne h
  | cons c b =>
    rw [hb] at hrest hblank
    obtain ⟨rfl, -⟩ := List.cons.inj hrest
    exact absurd (hblank _ mem_cons_self) (by decide)

theorem trimEnd_eq_self (h : x.getLast?.any isBlank = false) : x.trimEnd = x := by
  refine rdropWhile_eq_self_iff.mpr fun hne => ?_
  rw [getLast?_eq_some_getLast hne, any_some] at h
  rw [h]
  exact Bool.false_ne_true

section

variable {function : Text} (hfunction : isIdentifier function) (u : Text)
include hfunction

theorem startsIn_comma : startsIn function none ", ".toList u = false :=
  startsIn_sign hfunction rfl rfl (startsIn_sign hfunction rfl rfl rfl)

theorem startsIn_in (hother : function.lower ≠ lower "in".toList) :
    startsIn function none " in ".toList u = false :=
  startsIn_sign hfunction rfl rfl <| startsIn_append_eq_false.mpr
    ⟨startsIn_name hfunction (w := "in".toList) rfl hother rfl, startsIn_sign hfunction rfl rfl rfl⟩

end

theorem calls_value (p : Profile) (t : Text) :
    (calls p t).value = renameConvert p (renameCharIndex (renameLen t)) := rfl

theorem hasCall_of_isPrefix (h : s <+: t) (ht : hasCall function t = false) :
    hasCall function s = false := by
  obtain ⟨u, rfl⟩ := h
  exact startsIn_nil_of (startsIn_append_eq_false.mp ht).1

theorem hasCall_after_close (h : hasCall function (s ++ ')' :: t) = false) :
    hasCall function t = false := by
  have hafter := (startsIn_append_eq_false.mp h).2
  exact startsIn_after_sign rfl (startsIn_cons_eq_false.mp hafter).2

/-- A call of `CharIndex` has no other calls. -/
theorem startsIn_charIndex (h₁ : Argument e₁) (h₂ : Argument e₂)
    (hmem : function ∈ callNames) (hw : isIdentifier w) (hother : function.lower ≠ w.lower)
    (u : Text) : startsIn function none (callText w ", ".toList e₁ e₂) u = false := by
  have hfunction := List.all_eq_true.mp callNames_identifiers function hmem
  refine startsIn_callText hfunction hw hother (h₁.noCall function hmem) (h₂.noCall function hmem) rfl
    (fun u => ?_) (startsIn_comma hfunction) u
  exact fun hopen => absurd (Option.some.inj hopen) (by decide)

theorem startsIn_position (h₁ : hasCall "Convert".toList e₁ = false)
    (h₂ : hasCall "Convert".toList e₂ = false) (u : Text) :
    startsIn "Convert".toList none (callText "position".toList " in ".toList e₁ e₂) u = false := by
  refine startsIn_callText rfl rfl (by decide) h₁ h₂ rfl (fun u => ?_) (fun u => startsIn_in rfl u (by decide)) u
  exact fun hopen => absurd (Option.some.inj hopen) (by decide)

/-- **A call that is not read is kept.** -/
theorem renameCharIndex_unread (h₁ : Argument e₁) (h₂ : Argument e₂)
    (hread : charIndex? (callText "CharIndex".toList ", ".toList e₁ e₂) = none) :
    renameCharIndex (callText "CharIndex".toList ", ".toList e₁ e₂) =
      callText "CharIndex".toList ", ".toList e₁ e₂ := by
  have hsplit : callText "CharIndex".toList ", ".toList e₁ e₂ =
      'C' :: callText "harIndex".toList ", ".toList e₁ e₂ := rfl
  have hnone : charIndexFinder none (callText "CharIndex".toList ", ".toList e₁ e₂) = none := by
    rw [charIndexFinder, atWord, hread]
    rfl
  have hrest : startsIn "CharIndex".toList none (callText "harIndex".toList ", ".toList e₁ e₂) [] = false :=
    startsIn_charIndex h₁ h₂ (by decide) rfl (by decide) []
  have hpassed := findsCalls_charIndexFinder.replaceFrom (startsIn_of_none hrest (some 'C'))
  rw [append_nil, replaceFrom_nil, append_nil] at hpassed
  rw [renameCharIndex_eq, hsplit, replaceFrom_of_none (hsplit ▸ hnone), hpassed]

section

variable (p : Profile) (h₁ : Argument e₁) (h₂ : Argument e₂)
include h₁ h₂

/-- **With a cut first argument, something else is written**: the call is kept, or the first argument
ends before the comma. -/
theorem rename_cut (hcut : ¬(IsLiteral e₁ ∨ ',' ∉ e₁ ∧ ')' ∉ e₁)) :
    renameConvert p (renameCharIndex (callText "CharIndex".toList ", ".toList e₁ e₂)) ≠
      callText "position".toList " in ".toList e₁ e₂ := by
  rcases charIndex?_cut h₁ hcut e₂ with hnone | ⟨x, y, search, rest, he, hread⟩
  · have hconvert : startsIn "Convert".toList none (callText "CharIndex".toList ", ".toList e₁ e₂) [] = false :=
      startsIn_charIndex h₁ h₂ (by decide) rfl (by decide) []
    obtain ⟨v, hv, -⟩ := renameConvert_passed p hconvert
    rw [renameCharIndex_unread h₁ h₂ hnone, ← append_nil (callText _ _ _ _), hv]
    exact fun heq => absurd (List.cons.inj heq).1 (by decide)
  · obtain ⟨prev, hprev⟩ := renameCharIndex_found hread
    have hx : hasCall "Convert".toList x.trimEnd = false := by
      refine hasCall_of_isPrefix ?_ (h₁.noCall _ (by decide))
      rw [he]
      exact (trimEnd_isPrefix x).trans (prefix_append x _)
    have hcalls : ∀ u, startsIn "Convert".toList none
        ("position".toList ++ '(' :: (x.trimEnd ++ " in ".toList)) u = false := by
      refine fun u => startsIn_opened rfl rfl (by decide) (startsIn_append_eq_false.mpr ⟨?_, ?_⟩)
      · exact startsIn_apart rfl hx rfl fun hopen => absurd (Option.some.inj hopen) (by decide)
      · exact startsIn_of_none (startsIn_in rfl u (by decide)) _
    obtain ⟨v, hv, -⟩ := renameConvert_passed p
      (hcalls (search ++ [')'] ++ replaceFrom charIndexFinder prev rest))
    have hsplit : callText "position".toList " in ".toList x.trimEnd search ++
        replaceFrom charIndexFinder prev rest =
          "position".toList ++ '(' :: (x.trimEnd ++ " in ".toList) ++
            (search ++ [')'] ++ replaceFrom charIndexFinder prev rest) := by
      simp [callText]
    rw [hprev, hsplit, hv, callText, he]
    intro heq
    rw [append_assoc, cons_append, append_assoc, append_assoc x] at heq
    exact trimEnd_in_ne x v _ (List.cons.inj (append_cancel_left heq)).2

/-- **With a first argument that is read as a whole, the second decides.** -/
theorem rename_whole (hwhole : IsLiteral e₁ ∨ ',' ∉ e₁ ∧ ')' ∉ e₁) :
    renameConvert p (renameCharIndex (callText "CharIndex".toList ", ".toList e₁ e₂)) =
        callText "position".toList " in ".toList e₁ e₂ ↔
      IsLiteral e₂ ∨ (e₂.takeWhile (· != ')')).getLast?.any isBlank = false := by
  have hfind := h₁.noCall "Convert".toList (by decide)
  by_cases hliteral : IsLiteral e₂
  · obtain ⟨prev, hprev⟩ := renameCharIndex_found
      (charIndex?_whole h₁ hwhole (h₂.lastArguments_literal hliteral))
    obtain ⟨v, hv, hnil⟩ := renameConvert_passed p
      (startsIn_position hfind (h₂.noCall "Convert".toList (by decide)) [])
    rw [hprev, replaceFrom_nil, hv, hnil rfl, append_nil]
    exact iff_of_true rfl (.inl hliteral)
  · obtain ⟨y, hy, hlast⟩ := h₂.lastArguments_piece hliteral
    obtain ⟨prev, hprev⟩ := renameCharIndex_found (charIndex?_whole h₁ hwhole hlast)
    have hprefix : e₂.takeWhile (· != ')') <+: e₂ := takeWhile_prefix _
    generalize e₂.takeWhile (· != ')') = x at hy hlast hprev hprefix
    by_cases hblank : x.getLast?.any isBlank = false
    · have hrest : replaceFrom charIndexFinder prev y = y := by
        have hcall : hasCall "CharIndex".toList (e₂ ++ [')']) = false :=
          startsIn_append_eq_false.mpr ⟨startsIn_apart rfl (h₂.noCall _ (by decide)) rfl
            fun hopen => absurd (Option.some.inj hopen) (by decide), startsIn_sign rfl rfl rfl rfl⟩
        rw [hy] at hcall
        have hpassed := findsCalls_charIndexFinder.replaceFrom
          (startsIn_of_none (hasCall_after_close hcall) prev)
        rwa [append_nil, replaceFrom_nil, append_nil] at hpassed
      have hwritten : callText "position".toList " in ".toList e₁ x ++ y =
          callText "position".toList " in ".toList e₁ e₂ := by
        rw [callText, callText, hy]
        simp
      obtain ⟨v, hv, hnil⟩ := renameConvert_passed p
        (startsIn_position hfind (h₂.noCall "Convert".toList (by decide)) [])
      rw [hprev, hrest, trimEnd_eq_self hblank, hwritten, ← append_nil (callText _ _ _ _), hv,
        hnil rfl]
      exact iff_of_true rfl (.inr hblank)
    · have hx : hasCall "Convert".toList (trimEnd x) = false :=
        hasCall_of_isPrefix ((trimEnd_isPrefix x).trans hprefix) (h₂.noCall _ (by decide))
      obtain ⟨v, hv, -⟩ := renameConvert_passed p
        (startsIn_position hfind hx (replaceFrom charIndexFinder prev y))
      rw [hprev, hv]
      refine iff_of_false (fun heq => ?_) fun h => h.elim hliteral hblank
      rw [callText, callText, hy, append_assoc, cons_append, append_assoc e₁,
        append_assoc (" in ".toList), append_assoc (trimEnd x)] at heq
      have hrest := (List.cons.inj (append_cancel_left heq)).2
      exact trimEnd_close_ne (Bool.eq_true_of_not_eq_false hblank) v _
        (append_cancel_left (append_cancel_left hrest))

end

/-- **A call of `CharIndex` becomes a call of `position` with the same arguments** just when the first
argument is a literal or holds no comma and no closing parenthesis, and the second is a literal or has
no blank before its first closing parenthesis. -/
theorem calls_charIndex_iff (p : Profile) (h₁ : Argument e₁) (h₂ : Argument e₂) :
    (calls p (callText "CharIndex".toList ", ".toList e₁ e₂)).value =
        callText "position".toList " in ".toList e₁ e₂ ↔
      (IsLiteral e₁ ∨ ',' ∉ e₁ ∧ ')' ∉ e₁) ∧
        (IsLiteral e₂ ∨ (e₂.takeWhile (· != ')')).getLast?.any isBlank = false) := by
  rw [calls_value, renameLen_eq (startsIn_charIndex h₁ h₂ (by decide) rfl (by decide) [])]
  by_cases hwhole : IsLiteral e₁ ∨ ',' ∉ e₁ ∧ ')' ∉ e₁
  · rw [rename_whole p h₁ h₂ hwhole, and_iff_right hwhole]
  · exact iff_of_false (rename_cut p h₁ h₂ hwhole) fun h => hwhole h.1

/-- A call with a comma in it is cut there as a first argument, and a literal with both signs is read as a
whole. -/
theorem calls_charIndex_nested :
    (calls Profile.standard
        (callText "CharIndex".toList ", ".toList "f(a, b)".toList "g(x)".toList)).value ≠
        callText "position".toList " in ".toList "f(a, b)".toList "g(x)".toList ∧
      (calls Profile.standard
        (callText "CharIndex".toList ", ".toList "'a, (''b)'".toList "g(x)".toList)).value =
        callText "position".toList " in ".toList "'a, (''b)'".toList "g(x)".toList := by
  have hcall : Argument "f(a, b)".toList :=
    ⟨by decide, by decide, by decide, by decide, by decide, by decide⟩
  have hquoted : Argument "'a, (''b)'".toList :=
    ⟨by decide, by decide, by decide, by decide, by decide, by decide⟩
  have hlast : Argument "g(x)".toList :=
    ⟨by decide, by decide, by decide, by decide, by decide, by decide⟩
  constructor
  · rw [ne_eq, calls_charIndex_iff Profile.standard hcall hlast]
    rintro ⟨⟨text, hliteral⟩ | ⟨hcomma, -⟩, -⟩
    · exact absurd (List.cons.inj hliteral).1 (by decide)
    · exact hcomma (by decide)
  · exact (calls_charIndex_iff Profile.standard hquoted hlast).mpr
      ⟨.inl ⟨"a, ('b)".toList, by decide⟩, .inr (by decide)⟩

end

end SqlRoutine.Expression
